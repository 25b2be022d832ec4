import RequestUri.Proofs.Containment
import RequestUri.Proofs.DocumentReader
import RequestUri.Proofs.PropertyPath

/-! What holds of every node of the trees that documents stand for. A node is read to one of a few
forms, whatever the nodes inside it are read as; so what holds of each of these forms holds
throughout a tree that is read. -/

namespace RequestUri

def Ensures {ε α : Type} (x : Except ε α) (P : α → Prop) : Prop := ∀ a, x = .ok a → P a

namespace Ensures
variable {ε α β ι : Type} {P : α → Prop} {Q : β → Prop}

theorem ok {a : α} (h : P a) : Ensures (.ok a : Except ε α) P := by
  intro b hb
  cases hb
  exact h

theorem error (fault : ε) : Ensures (.error fault : Except ε α) P := by
  intro b hb
  cases hb

theorem self (x : Except ε α) : Ensures x fun a => x = .ok a := fun _ h => h

theorem any (x : Except ε α) : Ensures x fun _ => True := fun _ _ => trivial

theorem bind {x : Except ε α} {f : α → Except ε β} (hx : Ensures x P)
    (hf : ∀ a, P a → Ensures (f a) Q) : Ensures (x >>= f) Q := by
  intro b hb
  cases h : x with
  | error fault =>
    rw [h] at hb
    cases hb
  | ok a =>
    rw [h] at hb
    exact hf a (hx a h) b hb

theorem map {x : Except ε α} {f : α → β} (hx : Ensures x P) (hf : ∀ a, P a → Q (f a)) :
    Ensures (f <$> x) Q := by
  rw [← bind_pure_comp]
  exact hx.bind fun a ha => ok (hf a ha)

theorem mapM {f : ι → Except ε α} (hf : ∀ i, Ensures (f i) P) (is : List ι) :
    Ensures (is.mapM f) fun as => ∀ a ∈ as, P a := by
  induction is with
  | nil => exact ok (by simp)
  | cons i is ih =>
    rw [List.mapM_cons]
    refine (hf i).bind fun a ha => ih.bind fun as has => ok ?_
    exact List.forall_mem_cons.2 ⟨ha, has⟩

theorem optional {f : ι → Except ε α} (hf : ∀ i, Ensures (f i) P) (found : Option ι) :
    Ensures (found.mapM f) fun result => ∀ a ∈ result, P a := by
  cases found with
  | none => exact ok (by simp)
  | some i => exact (hf i).map (by simp)

theorem listed {f : Json → Except Document.Fault α} (hf : ∀ value, Ensures (f value) P)
    (field : String) (found : Option Json) :
    Ensures (Document.listed field f found) fun as => ∀ a ∈ as, P a :=
  (any _).bind fun values _ => mapM hf values

theorem decided {fields : Json.Fields} (key : String) {there : Json → Except ε α}
    {missing : Except ε α} (hthere : ∀ value, Ensures (there value) P)
    (hmissing : Ensures missing P) : Ensures (Document.decided fields key there missing) P := by
  rw [Document.decided]
  cases fields.lookup key with
  | none => exact hmissing
  | some value => exact hthere value

end Ensures

/-- What the fields of a node say about its decoration, but for the expressions in it. -/
structure Decoration.IsReadFrom (fields : Json.Fields) (node : Decoration Expr) : Prop where
  key : Document.keyField fields = .ok node.key
  operation : Document.operationField fields = .ok node.operation
  methods : ∀ option ∈ node.options, ∀ a ∈ option.aggregations,
    ∃ name, a.method = Document.method name

namespace Document
open RequestUri.Expr

theorem keyField_given (fields : Json.Fields) : Ensures (keyField fields) fun key =>
    ∀ entry ∈ key, ∃ given, literal given = .ok entry.2 := by
  rw [keyField]
  refine (Ensures.any _).bind fun entries _ => Ensures.mapM (fun entry => ?_) entries
  refine (Ensures.any _).bind fun pair _ => ?_
  exact (Ensures.self _).bind fun value hv => Ensures.ok ⟨pair.2, hv⟩

/-- The property holds of every form that a node can be read to, whatever stands in it. -/
structure Keeps (P : Expr → Prop) : Prop where
  literal {given : Json} {v : Literal} : Document.literal given = .ok v → P (.literal v)
  path {e : Expr} : e.IsPath → P e
  operator {e : Expr} : e.kind ∈ ([.parameter, .unary, .binary, .call, .list] : List Kind) → P e
  lambda (quantifier : Quantifier) {collection : Expr} (bound : String) (body : Expr) :
    collection.IsPath → P (.lambda quantifier collection bound body)
  root {fields : Json.Fields} {node : Decoration Expr} (start : Start) :
    node.IsReadFrom fields → P (.root start node)
  follow {fields : Json.Fields} {node : Decoration Expr} (source : Expr) (link : Link) :
    node.IsReadFrom fields → P (.follow source link node)

structure OptionKeeps (P : Expr → Prop) (option : QueryOption Expr) : Prop where
  contents : ∀ e ∈ option.contents, e.Throughout P
  methods : ∀ a ∈ option.aggregations, ∃ name, a.method = method name

section Nodes
variable {P : Expr → Prop} (hP : Keeps P)
include hP

theorem Keeps.leaf_literal {given : Json} {v : Literal} (h : Document.literal given = .ok v) :
    (Expr.literal v).Throughout P :=
  (throughout_iff _ _).2 ⟨hP.literal h, List.forall_mem_nil _⟩

theorem Keeps.throughout_of_isSegments {e : Expr} (h : e.IsSegments) : e.Throughout P := by
  induction e using walkInduction with
  | property name => exact (throughout_iff _ _).2 ⟨hP.path (.inr h), List.forall_mem_nil _⟩
  | member object name ih =>
    have hobject : object.Throughout P := ih h.1
    exact (throughout_iff _ _).2 ⟨hP.path (.inr h), List.forall_mem_singleton.2 hobject⟩
  | textless e hk => cases e <;> simp_all [kind, Kind.isTextless, IsSegments]
  | _ => cases h

theorem Keeps.throughout_ofPath (path : String) : (ofPath path).Throughout P := by
  rcases isPath_ofPath path with h | h
  · rw [h]
    exact (throughout_iff _ _).2 ⟨hP.path (.inl rfl), List.forall_mem_nil _⟩
  · exact hP.throughout_of_isSegments h

variable {read : Json → Except Fault Expr} (hread : ∀ value, Ensures (read value) (Throughout P))
include hread

theorem operand_keeps (value : Json) : Ensures (operand read value) (Throughout P) := by
  cases value with
  | string path => exact Ensures.ok (hP.throughout_ofPath path)
  | _ => exact hread _

theorem selector_keeps (value : Json) :
    Ensures (selector read value) fun s => s.operand.Throughout P := by
  cases value with
  | string path => exact Ensures.ok (hP.throughout_ofPath path)
  | object fields =>
    rw [selector]
    split
    · exact (hread _).bind fun e he => Ensures.ok he
    · exact Ensures.error _
  | _ => exact Ensures.error _

theorem aggregation_keeps (value : Json) :
    Ensures (aggregation read value) fun a =>
      (∃ name, a.method = method name) ∧ ∀ e ∈ a.operand, e.Throughout P := by
  cases value with
  | object fields =>
    rw [aggregation_object]
    refine (Ensures.any _).bind fun name _ => ?_
    refine (Ensures.optional (operand_keeps hP hread) _).bind fun found hfound => ?_
    exact (Ensures.any _).bind fun given _ => Ensures.ok ⟨⟨name, rfl⟩, hfound⟩
  | _ => exact Ensures.error _

theorem apply_keeps (value : Json) :
    Ensures (apply read value) fun clause => OptionKeeps P (.apply clause) := by
  cases value with
  | object fields =>
    rw [apply_object]
    refine (Ensures.listed (operand_keeps hP hread) _ _).bind fun grouping hg => ?_
    refine (Ensures.listed (aggregation_keeps hP hread) _ _).bind fun aggregations ha => ?_
    refine (Ensures.optional hread _).bind fun predicate hp => Ensures.ok ⟨?_, ?_⟩
    · intro e he
      rcases List.mem_append.1 he with he | he
      · exact hg e he
      · rcases List.mem_append.1 he with he | he
        · obtain ⟨a, hmem, he⟩ := List.mem_flatMap.1 he
          exact (ha a hmem).2 e (Option.mem_toList.1 he)
        · exact hp e (Option.mem_toList.1 he)
    · exact fun a hmem => (ha a hmem).1
  | _ => exact Ensures.error _

theorem queryOption_keeps (value : Json) :
    Ensures (queryOption read value) (OptionKeeps P) := by
  have hone : ∀ (f : Expr → QueryOption Expr) (value : Json),
      (∀ e, (f e).contents = [e] ∧ (f e).aggregations = []) →
      Ensures (f <$> read value) (OptionKeeps P) := by
    intro f value hf
    refine (hread value).map fun e he => ⟨?_, ?_⟩
    · rw [(hf e).1]
      exact List.forall_mem_singleton.2 he
    · rw [(hf e).2]
      exact List.forall_mem_nil _
  rw [queryOption.eq_def]
  split
  · split_ifs
    · exact hone _ _ fun e => ⟨rfl, rfl⟩
    · exact hone _ _ fun e => ⟨rfl, rfl⟩
    · exact hone _ _ fun e => ⟨rfl, rfl⟩
    · rw [← bind_assoc]
      refine (Ensures.listed (selector_keeps hP hread) _ _).bind fun selectors hs => ?_
      refine Ensures.ok ⟨?_, ?_⟩
      · exact List.forall_mem_map.2 hs
      · exact List.forall_mem_nil _
    · exact (apply_keeps hP hread _).map fun clause hc => hc
    · exact Ensures.error _
  · exact Ensures.error _

theorem decoration_keeps (fields : Json.Fields) :
    Ensures (decoration read fields) fun node =>
      node.IsReadFrom fields ∧ ∀ e ∈ node.contents, e.Throughout P := by
  rw [decoration_eq]
  refine (Ensures.any _).bind fun version _ => (Ensures.self _).bind fun key hkey => ?_
  refine (Ensures.any _).bind fun cast _ => (Ensures.self _).bind fun op hop => ?_
  refine (Ensures.any _).bind fun count _ => ?_
  refine (Ensures.listed (queryOption_keeps hP hread) _ _).bind fun options ho => ?_
  refine (Ensures.any _).bind fun expand _ => (Ensures.any _).bind fun select _ => ?_
  refine (Ensures.any _).bind fun custom _ => Ensures.ok ⟨⟨hkey, hop, ?_⟩, ?_⟩
  · exact fun option hmem => (ho option hmem).methods
  · intro e he
    obtain ⟨option, hmem, he⟩ := List.mem_flatMap.1 he
    exact (ho option hmem).contents e he

omit hP in
theorem source_keeps (fields : Json.Fields) : Ensures (source read fields) (Throughout P) := by
  rw [source]
  split
  · exact hread _
  · exact Ensures.error _

theorem binary_keeps (fields : Json.Fields) (op : Json) :
    Ensures (binary read fields op) (Throughout P) := by
  rw [binary]
  refine (Ensures.any _).bind fun keyword _ => ?_
  split
  · exact Ensures.error _
  · exact Ensures.error _
  · exact Ensures.error _
  · refine (hread _).bind fun left hl => (hread _).bind fun right hr => Ensures.ok ?_
    exact (throughout_iff _ _).2 ⟨hP.operator (by simp [kind]), by simp [children, hl, hr]⟩

theorem lambda_keeps (fields : Json.Fields) (quantifier : Quantifier) (collection : Json) :
    Ensures (lambda read fields quantifier collection) (Throughout P) := by
  rw [lambda]
  refine (Ensures.any _).bind fun bound _ => ?_
  split
  · exact Ensures.error _
  · refine (hread _).bind fun body hb => (Ensures.any _).bind fun path _ => Ensures.ok ?_
    refine (throughout_iff _ _).2 ⟨hP.lambda quantifier bound body (isPath_ofPath path), ?_⟩
    simp [children, hb, hP.throughout_ofPath]

theorem scalar_keeps (fields : Json.Fields) : Ensures (scalar read fields) (Throughout P) := by
  rw [scalar_decided]
  refine .decided "property" (fun path => ?_) ?_
  · exact (Ensures.any _).map fun path _ => hP.throughout_ofPath path
  refine .decided "param" (fun name => ?_) ?_
  · refine (Ensures.any _).map fun name _ => ?_
    exact (throughout_iff _ _).2 ⟨hP.operator (by simp [kind]), List.forall_mem_nil _⟩
  refine .decided "op" (fun op => binary_keeps hP hread fields op) ?_
  refine .decided "not" (fun value => (hread value).map fun e he => ?_) ?_
  · exact (throughout_iff _ _).2 ⟨hP.operator (by simp [kind]), List.forall_mem_singleton.2 he⟩
  refine .decided "negate" (fun value => (hread value).map fun e he => ?_) ?_
  · exact (throughout_iff _ _).2 ⟨hP.operator (by simp [kind]), List.forall_mem_singleton.2 he⟩
  refine .decided "call" (fun name => ?_) ?_
  · refine (Ensures.listed hread _ _).bind fun args ha => (Ensures.any _).map fun name _ => ?_
    exact (throughout_iff _ _).2 ⟨hP.operator (by simp [kind]), ha⟩
  refine .decided "list" (fun value => (Ensures.listed hread _ _).map fun items hi => ?_) ?_
  · exact (throughout_iff _ _).2 ⟨hP.operator (by simp [kind]), hi⟩
  refine .decided "any" (fun collection => lambda_keeps hP hread fields .any collection) ?_
  refine .decided "all" (fun collection => lambda_keeps hP hread fields .all collection) ?_
  refine (Ensures.self _).map fun v hv => ?_
  have hgiven : Document.literal (.object fields) = .ok v := hv
  exact hP.leaf_literal hgiven

theorem root_keeps (fields : Json.Fields) (start : Start) :
    Ensures (Expr.root start <$> decoration read fields) (Throughout P) := by
  refine (decoration_keeps hP hread fields).map fun node hnode => ?_
  exact (throughout_iff _ _).2 ⟨hP.root start hnode.1, hnode.2⟩

theorem follow_keeps (fields : Json.Fields) {source : Expr} (hs : source.Throughout P)
    (link : Link) :
    Ensures (Expr.follow source link <$> decoration read fields) (Throughout P) := by
  refine (decoration_keeps hP hread fields).map fun node hnode => ?_
  exact (throughout_iff _ _).2
    ⟨hP.follow source link hnode.1, List.forall_mem_cons.2 ⟨hs, hnode.2⟩⟩

theorem node_keeps (value : Json) : Ensures (node read value) (Throughout P) := by
  cases value with
  | object fields =>
    have hsource := source_keeps hread fields
    rw [node_decided]
    refine .decided "entitySet" (fun name => ?_) ?_
    · exact (Ensures.any _).bind fun name _ => root_keeps hP hread fields (.entitySet name)
    refine .decided "serviceRoot" (fun _ => root_keeps hP hread fields .serviceRoot) ?_
    refine .decided "navigation" (fun member => hsource.bind fun source hs => ?_) ?_
    · exact (Ensures.any _).bind fun name _ => follow_keeps hP hread fields hs (.navigation name)
    refine .decided "singleton" (fun member => hsource.bind fun source hs => ?_) ?_
    · exact (Ensures.any _).bind fun name _ => follow_keeps hP hread fields hs (.singleton name)
    exact scalar_keeps hP hread fields
  | array values => exact Ensures.error _
  | _ => exact (Ensures.self _).bind fun v hv => Ensures.ok (hP.leaf_literal hv)

omit hread in
/-- What holds of each form by itself holds throughout a tree that is read. -/
theorem within_keeps (n : Nat) (value : Json) : Ensures (within n value) (Throughout P) := by
  induction n generalizing value with
  | zero =>
    refine node_keeps hP (fun value => ?_) value
    exact (Ensures.self _).bind fun v hv => Ensures.ok (hP.leaf_literal hv)
  | succ n ih => exact node_keeps hP ih value

end Nodes

end Document

end RequestUri
