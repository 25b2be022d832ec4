import RequestUri.Proofs.Visit

/-! What stands in a tree, at any depth: sources, operands, and what stands in them in turn. -/

namespace RequestUri

variable {ε : Type}

namespace QueryOption

/-- All operands of an option, also those that are never written. -/
def contents : QueryOption ε → List ε
  | skip amount => [amount]
  | top amount => [amount]
  | orderBy selectors => selectors.map Selector.operand
  | filter predicate => [predicate]
  | apply clause =>
    clause.grouping ++
      (clause.aggregations.flatMap (·.operand.toList) ++ clause.predicate.toList)

end QueryOption

def Decoration.contents (node : Decoration ε) : List ε := node.options.flatMap QueryOption.contents

theorem QueryOption.sizeOf_lt_of_mem_contents {option : QueryOption Expr} {e : Expr}
    (h : e ∈ option.contents) : sizeOf e < sizeOf option := by
  cases option with
  | skip amount => simp_all [contents]
  | top amount => simp_all [contents]
  | filter predicate => simp_all [contents]
  | orderBy selectors =>
    obtain ⟨⟨operand, descending⟩, hs, rfl⟩ := List.mem_map.1 h
    have hlt := List.sizeOf_lt_of_mem hs
    simp only [orderBy.sizeOf_spec, Selector.mk.sizeOf_spec] at hlt ⊢
    omega
  | apply clause =>
    obtain ⟨grouping, aggregations, predicate⟩ := clause
    simp only [contents, List.mem_append, List.mem_flatMap, Option.mem_toList] at h
    simp only [apply.sizeOf_spec, Apply.mk.sizeOf_spec]
    rcases h with hg | ⟨⟨method, operand, given⟩, ha, ho⟩ | hp
    · have hlt := List.sizeOf_lt_of_mem hg
      omega
    · have hlt := List.sizeOf_lt_of_mem ha
      cases ho
      simp only [Aggregation.mk.sizeOf_spec, Option.some.sizeOf_spec] at hlt
      omega
    · cases hp
      simp only [Option.some.sizeOf_spec]
      omega

theorem Decoration.sizeOf_lt_of_mem_contents {node : Decoration Expr} {e : Expr}
    (h : e ∈ node.contents) : sizeOf e < sizeOf node := by
  obtain ⟨option, ho, he⟩ := List.mem_flatMap.1 h
  have hlt := QueryOption.sizeOf_lt_of_mem_contents he
  have hlt' := List.sizeOf_lt_of_mem ho
  cases node
  simp only [Decoration.mk.sizeOf_spec] at hlt' ⊢
  omega

namespace Expr

def children : Expr → List Expr
  | root _ node => node.contents
  | follow source _ node => source :: node.contents
  | literal _ => []
  | property _ => []
  | member object _ => [object]
  | parameter _ => []
  | unary _ operand => [operand]
  | binary _ left right => [left, right]
  | call _ args => args
  | lambda _ collection _ body => [collection, body]
  | list items => items
  | conditional test ifTrue ifFalse => [test, ifTrue, ifFalse]
  | typeTest operand _ => [operand]
  | construction _ args => args
  | invocation target args => target :: args

theorem sizeOf_lt_of_mem_children {e child : Expr} (h : child ∈ e.children) :
    sizeOf child < sizeOf e := by
  have hitem : ∀ es : List Expr, child ∈ es → sizeOf child < sizeOf es :=
    fun es => List.sizeOf_lt_of_mem
  cases e with
  | root start node =>
    have hlt := Decoration.sizeOf_lt_of_mem_contents h
    simp only [root.sizeOf_spec]
    omega
  | follow source link node =>
    simp only [follow.sizeOf_spec]
    rcases List.mem_cons.1 h with rfl | h
    · omega
    · have hlt := Decoration.sizeOf_lt_of_mem_contents h
      omega
  | call function args =>
    have hlt := hitem args h
    simp only [call.sizeOf_spec]
    omega
  | list items =>
    have hlt := hitem items h
    simp only [list.sizeOf_spec]
    omega
  | construction typeName args =>
    have hlt := hitem args h
    simp only [construction.sizeOf_spec]
    omega
  | invocation target args =>
    simp only [invocation.sizeOf_spec]
    rcases List.mem_cons.1 h with rfl | h
    · omega
    · have hlt := hitem args h
      omega
  | literal value => cases h
  | property name => cases h
  | parameter name => cases h
  | _ =>
    simp only [children, List.mem_cons, List.not_mem_nil, or_false] at h
    grind

theorem childInduction {motive : Expr → Prop}
    (step : ∀ e, (∀ child ∈ e.children, motive child) → motive e) (e : Expr) : motive e :=
  step e fun child _ => childInduction step child
termination_by sizeOf e
decreasing_by exact sizeOf_lt_of_mem_children ‹_›

inductive Contains : Expr → Expr → Prop
  | self (e : Expr) : Contains e e
  | inside {e child part : Expr} (h : child ∈ e.children) (hc : Contains child part) :
    Contains e part

theorem Contains.trans {e part inner : Expr} (h : e.Contains part) (h' : part.Contains inner) :
    e.Contains inner := by
  induction h with
  | self e => exact h'
  | inside hc _ ih => exact .inside hc (ih h')

theorem contains_child {e child : Expr} (h : child ∈ e.children) : e.Contains child :=
  .inside h (.self child)

/-- The property holds of the expression and of everything in it. -/
def Throughout (P : Expr → Prop) (e : Expr) : Prop := ∀ part, e.Contains part → P part

theorem throughout_iff (P : Expr → Prop) (e : Expr) :
    e.Throughout P ↔ P e ∧ ∀ child ∈ e.children, child.Throughout P := by
  constructor
  · intro h
    exact ⟨h e (.self e), fun child hc part hp => h part (.inside hc hp)⟩
  · rintro ⟨he, hchildren⟩ part hp
    cases hp with
    | self => exact he
    | inside hc hp => exact hchildren _ hc part hp

/- Resources have children that are no parts. -/
theorem parts_eq {e : Expr} (h : e.kind.isTextless = false) :
    e.parts = e :: e.children.flatMap parts := by
  cases e <;> simp_all [parts, children, partsOfAll_eq_flatMap, kind, Kind.isTextless]

theorem contains_of_mem_parts {e part : Expr} (h : part ∈ e.parts) : e.Contains part := by
  induction e using childInduction with
  | step e ih =>
    cases hk : e.kind.isTextless with
    | true =>
      rw [parts_of_textless hk] at h
      exact List.mem_singleton.1 h ▸ .self _
    | false =>
      rw [parts_eq hk] at h
      rcases List.mem_cons.1 h with rfl | h
      · exact .self _
      · obtain ⟨child, hc, hp⟩ := List.mem_flatMap.1 h
        exact .inside hc (ih child hc hp)

theorem contains_origin (e : Expr) : e.Contains e.origin := by
  induction e using sourceInduction with
  | follow source link node ih => exact .inside List.mem_cons_self ih
  | root start node => exact .self _
  | scalar e h =>
    rw [origin_of_kind h]
    exact .self _

theorem contains_of_mem_contents {tree e : Expr} {node : Decoration Expr}
    (hn : node ∈ tree.trail.decorations) (he : e ∈ node.contents) : tree.Contains e := by
  induction tree using sourceInduction with
  | follow source link last ih =>
    have hn' : node ∈ source.trail.decorations ∨ node = last := by
      simpa [trail, Trail.decorations, Trail.extend, or_assoc] using hn
    rcases hn' with hn' | rfl
    · exact .inside List.mem_cons_self (ih hn')
    · exact contains_child (List.mem_cons_of_mem _ he)
  | root start last =>
    obtain rfl : node = last := by simpa [trail, Trail.decorations] using hn
    exact contains_child he
  | scalar e' hk =>
    have hnode : node = {} := by
      cases e' <;> simp_all [trail, Trail.decorations, kind]
    simp [hnode, Decoration.contents] at he

end Expr

end RequestUri
