import RequestUri.Proofs.Labels
import RequestUri.Proofs.Visit

/-! A draft only grows. Whatever is visited, and wherever a fault ends a visit, nothing that was in
the draft before is taken back or moved. -/

namespace RequestUri

namespace Draft

structure IsDistinct (d : Draft) : Prop where
  aliases : d.aliases.names.Nodup
  options : d.options.keys.Nodup

/-- All of the first draft stands at the beginning of the second one. -/
structure Grows (d d' : Draft) : Prop where
  path : ∃ text, d'.path = d.path ++ text
  aliases : d.aliases.entries <+: d'.aliases.entries
  keys : d.options.keys <+: d'.options.keys
  values : ∀ key, d.options.valuesUnder key <+: d'.options.valuesUnder key
  version : d.journal.version ≤ d'.journal.version
  distinct : d.IsDistinct → d'.IsDistinct

namespace Grows

theorem refl (d : Draft) : d.Grows d :=
  ⟨⟨"", String.append_empty.symm⟩, List.prefix_rfl, List.prefix_rfl, fun _ => List.prefix_rfl,
    Version.le_refl _, id⟩

theorem trans {d d' d'' : Draft} (h : d.Grows d') (h' : d'.Grows d'') : d.Grows d'' := by
  obtain ⟨text, ht⟩ := h.path
  obtain ⟨text', ht'⟩ := h'.path
  refine ⟨⟨text ++ text', ?_⟩, h.aliases.trans h'.aliases, h.keys.trans h'.keys,
    fun key => (h.values key).trans (h'.values key), Version.le_trans h.version h'.version,
    fun hd => h'.distinct (h.distinct hd)⟩
  rw [ht', ht, String.append_assoc]

end Grows

theorem grows_push (d : Draft) (text : String) : d.Grows (d.push text) :=
  ⟨⟨text, rfl⟩, List.prefix_rfl, List.prefix_rfl, fun _ => List.prefix_rfl, Version.le_refl _,
    fun h => ⟨h.aliases, h.options⟩⟩

theorem grows_journal (d : Draft) {j : Journal} (h : d.journal.version ≤ j.version) :
    d.Grows { d with journal := j } :=
  ⟨⟨"", String.append_empty.symm⟩, List.prefix_rfl, List.prefix_rfl, fun _ => List.prefix_rfl, h,
    fun hd => ⟨hd.aliases, hd.options⟩⟩

/- The label of a moved argument is free, so it is a name of its own. -/
theorem grows_argument (d : Draft) (name : String) (value : Argument) :
    d.Grows (d.argument name value).2 := by
  cases value with
  | primitive text => exact Grows.refl d
  | structured text =>
    refine ⟨⟨"", String.append_empty.symm⟩, ⟨_, (d.aliases.entries_allocate name text).symm⟩,
      List.prefix_rfl, fun _ => List.prefix_rfl, Version.le_refl _, fun h => ⟨?_, h.options⟩⟩
    exact AliasTable.nodup_allocate h.aliases name text

theorem grows_arguments (d : Draft) (parameters : List (String × Argument)) :
    d.Grows (d.arguments parameters).2 := by
  induction parameters generalizing d with
  | nil => exact Grows.refl d
  | cons parameter rest ih =>
    obtain ⟨name, value⟩ := parameter
    exact (d.grows_argument name value).trans (ih (d.argument name value).2)

theorem grows_invoke (d : Draft) (operation : Operation) : d.Grows (d.invoke operation) := by
  have hend : d.Grows d.endSegment := by
    rw [endSegment]
    split
    · exact Grows.refl d
    · exact d.grows_push "/"
  have hname := hend.trans (d.endSegment.grows_push operation.name)
  rw [invoke]
  cases operation.isAction with
  | true => exact hname
  | false =>
    exact (hname.trans (grows_arguments _ operation.parameters)).trans (grows_push _ _)

theorem grows_addOption (d : Draft) (key value : String) : d.Grows (d.addOption key value) := by
  have hkeys : (d.addOption key value).options.keys =
      if key ∈ d.options.keys then d.options.keys else d.options.keys ++ [key] :=
    d.options.keys_add key value
  refine ⟨⟨"", String.append_empty.symm⟩, List.prefix_rfl, ?_, fun k => ?_, Version.le_refl _,
    fun h => ⟨h.aliases, ?_⟩⟩
  · rw [hkeys]
    split
    · exact List.prefix_rfl
    · exact List.prefix_append _ _
  · change _ <+: (d.options.add key value).valuesUnder k
    rw [OptionTable.valuesUnder_add]
    exact List.prefix_append _ _
  · rw [hkeys]
    split
    · exact h.options
    · next hk =>
      rw [← List.concat_eq_append]
      exact h.options.concat hk

end Draft

theorem Mark.version_le_act (m : Mark) (j : Journal) : j.version ≤ (m.act j).version := by
  cases m with
  | need version =>
    rw [act, Journal.version_raise]
    exact (Version.le_max _ _).1
  | note event => exact Version.le_refl _
  | stop fault => exact Version.le_refl _

theorem Edit.grows_act (e : Edit) (d : Draft) : d.Grows (e.act d) := by
  cases e with
  | push text => exact d.grows_push text
  | invoke operation => exact d.grows_invoke operation
  | add key value => exact d.grows_addOption key value
  | mark m => exact d.grows_journal (m.version_le_act d.journal)

theorem grows_carry {α : Type} (a : α) (edits : List Edit) (d : Draft) :
    d.Grows (carry a edits d).2 :=
  carry_rel Draft.Grows.refl Draft.Grows.trans Edit.grows_act a edits d

/-- The draft after several visits; a fault ends one of them, and the next goes on from there. -/
def Draft.visitedAll (service : Service) : List Expr → Draft → Draft
  | [], d => d
  | tree :: trees, d => visitedAll service trees (d.visited service tree)

section Visits
variable {service : Service} (hw : service.Writes) (hb : service.bind = .ok)
include hw hb

theorem grows_visited (tree : Expr) (d : Draft) : d.Grows (d.visited service tree) := by
  by_cases hd : d.Admits tree.trail.start
  · rw [Draft.visited, visit_run_of_admits hw hb tree d hd]
    exact grows_carry () _ d
  · cases hs : tree.trail.start with
    | entitySet name =>
      rw [hs] at hd
      obtain ⟨j, hj, hrun⟩ := visit_run_misplaced service hs hd
      rw [Draft.visited, hrun]
      exact d.grows_journal (hj ▸ Version.le_refl _)
    | serviceRoot =>
      rw [hs] at hd
      exact absurd trivial hd

theorem grows_visitedAll (trees : List Expr) (d : Draft) :
    d.Grows (d.visitedAll service trees) := by
  induction trees generalizing d with
  | nil => exact Draft.Grows.refl d
  | cons tree trees ih => exact (grows_visited hw hb tree d).trans (ih (d.visited service tree))

end Visits

def Service.ofAddresses (collection : String → String) (root : String) (style : KeyStyle) :
    Service where
  collection
  root
  key := style.text

/-- After any visits, one more adds to the draft and changes nothing in it, whether it ends in a fault
or not; and no name is ever there twice. -/
theorem grows_with_each_visit (collection : String → String) (root : String) (style : KeyStyle)
    (earlier : List Expr) (tree : Expr) :
    let service := Service.ofAddresses collection root style
    let d := Draft.visitedAll service earlier {}
    d.Grows (d.visited service tree) ∧ d.IsDistinct ∧ (d.visited service tree).IsDistinct := by
  intro service d
  have hw : service.Writes := fun _ _ => rfl
  have hgrows := grows_visited hw rfl tree d
  have hd : d.IsDistinct :=
    (grows_visitedAll hw rfl earlier {}).distinct ⟨List.nodup_nil, List.nodup_nil⟩
  exact ⟨hgrows, hd, hgrows.distinct hd⟩

end RequestUri
