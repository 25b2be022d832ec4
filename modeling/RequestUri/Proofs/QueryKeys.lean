import RequestUri.Proofs.Answer
import RequestUri.Proofs.Growth

/-! The keys of a query. Options and aliases have tables of their own, and no table has a key twice;
but a key that a node brings along may be in both. -/

namespace RequestUri

namespace Draft

/-- The fields of the query: each option with all its values, then the aliases. -/
def fields (d : Draft) : List (String × String) :=
  (d.options.buckets.map fun (key, values) => (key, String.intercalate "," values)) ++
    d.aliases.entries

def fieldTexts (d : Draft) : List String := d.fields.map fun (key, value) => key ++ "=" ++ value

theorem keys_fields (d : Draft) : d.fields.map Prod.fst = d.options.keys ++ d.aliases.names := by
  simp [fields, OptionTable.keys, AliasTable.names, Function.comp_def]

theorem fieldTexts_eq (d : Draft) : d.fieldTexts =
    (d.options.buckets.map fun (key, values) => key ++ "=" ++ String.intercalate "," values) ++
      d.aliases.entries.map fun (label, value) => label ++ "=" ++ value := by
  simp [fieldTexts, fields]

/-- One question mark stands before all the fields, wherever the first of them comes from. -/
theorem uri_eq_fieldTexts (d : Draft) : d.uri =
    d.path ++ if d.fields = [] then "" else "?" ++ String.intercalate "&" d.fieldTexts := by
  rw [fieldTexts_eq, uri, OptionTable.isEmpty, OptionTable.text, AliasTable.isEmpty,
    AliasTable.text, fields]
  cases hb : d.options.buckets with
  | nil => cases ha : d.aliases.entries <;> simp
  | cons bucket buckets =>
    cases ha : d.aliases.entries with
    | nil => simp
    | cons entry entries =>
      rw [String.intercalate_append_of_ne_nil (by simp) (by simp)]
      simp [String.append_assoc]

/- Neither table has a key twice, so a key that is there twice is in both. -/
theorem not_nodup_keys_iff {d : Draft} (h : d.IsDistinct) : ¬ (d.fields.map Prod.fst).Nodup ↔
    ∃ label ∈ d.aliases.names, label ∈ d.options.keys := by
  have hnodup : (d.fields.map Prod.fst).Nodup ↔
      ∀ label ∈ d.aliases.names, label ∉ d.options.keys := by
    rw [keys_fields, List.nodup_append', List.disjoint_right]
    exact ⟨fun hn => hn.2.2, fun hn => ⟨h.options, h.aliases, hn⟩⟩
  rw [hnodup]
  push Not
  rfl

end Draft

/-- Keys that begin like this are the protocol's own. -/
def isReserved (key : String) : Bool := key.toList.head? == some '$'

theorem QueryOption.isReserved_shown {ε : Type} {text : ε → String} {option : QueryOption ε}
    {entry : String × String} (h : option.shown text = some entry) : isReserved entry.1 := by
  cases option with
  | skip amount =>
    cases h
    simp [isReserved]
  | top amount =>
    cases h
    simp [isReserved]
  | orderBy selectors =>
    cases selectors with
    | nil => cases h
    | cons s rest =>
      cases h
      simp [isReserved]
  | filter predicate =>
    cases h
    simp [isReserved]
  | apply clause =>
    rw [shown] at h
    split at h
    · cases h
    · cases h
      simp [isReserved]

theorem isReserved_listed {key : String} (hk : isReserved key) {values : List String}
    {entry : String × String} (h : entry ∈ listed key values) : isReserved entry.1 := by
  cases values with
  | nil => cases h
  | cons value rest =>
    rw [List.mem_singleton.1 h]
    exact hk

theorem Count.isReserved_entries {count : Count} {entry : String × String}
    (h : entry ∈ count.entries) : isReserved entry.1 := by
  cases count with
  | none => cases h
  | segment => cases h
  | option value => cases value <;> (rw [List.mem_singleton.1 h]; rfl)

theorem Decoration.mem_keys {node : Decoration Expr} {key : String} (hk : isReserved key = false) :
    key ∈ node.entries.map Prod.fst ↔ key ∈ node.custom.map Prod.fst := by
  constructor
  · intro h
    obtain ⟨entry, he, rfl⟩ := List.mem_map.1 h
    simp only [entries, List.mem_append, List.mem_filterMap] at he
    rcases he with ⟨option, -, hs⟩ | ((he | he) | he) | he
    · exact absurd (QueryOption.isReserved_shown hs) (by rw [hk]; decide)
    · exact absurd (isReserved_listed rfl he) (by rw [hk]; decide)
    · exact absurd (isReserved_listed rfl he) (by rw [hk]; decide)
    · exact absurd (Count.isReserved_entries he) (by rw [hk]; decide)
    · exact List.mem_map_of_mem he
  · intro h
    rw [entries, List.map_append, List.map_append]
    exact List.mem_append_right _ (List.mem_append_right _ h)

theorem AliasTable.IsLabelOf.not_isReserved {name label : String} (h : IsLabelOf name label) :
    isReserved label = false := by
  rcases h with rfl | ⟨k, -, rfl⟩ <;> simp [isReserved]

theorem AliasTable.not_isReserved_of_mem_labels {names : List String} {label : String}
    (h : label ∈ labels names) : isReserved label = false := by
  obtain ⟨i, hi, rfl⟩ := List.mem_iff_getElem.1 h
  have hn : i < names.length := length_labels names ▸ hi
  exact ((List.forall₂_iff_get.1 (forall₂_labels names)).2 i hn hi).not_isReserved

section Request
variable (base : String) (style : KeyStyle) (tree : Expr) (h : tree.faults = [])
include h

theorem keys_visited : (Draft.visited (.ofBase base style) tree {}).options.keys =
    (tree.trail.entries.map Prod.fst).eraseDups := by
  rw [visited_of_faultless base style tree h, Expr.options_edits, OptionTable.keys_addAll]

theorem names_visited : (Draft.visited (.ofBase base style) tree {}).aliases.names =
    AliasTable.labels (tree.trail.moved.map Prod.fst) := by
  have hd := holds_visit base style tree h
  rw [AliasTable.names, Draft.visited, hd.aliases, AliasTable.names_entriesFor]

theorem alias_mem_keys_iff {label : String}
    (hl : label ∈ (Draft.visited (.ofBase base style) tree {}).aliases.names) :
    label ∈ (Draft.visited (.ofBase base style) tree {}).options.keys ↔
      ∃ node ∈ tree.trail.decorations, label ∈ node.custom.map Prod.fst := by
  rw [names_visited base style tree h] at hl
  have hr := AliasTable.not_isReserved_of_mem_labels hl
  rw [keys_visited base style tree h, List.mem_eraseDups, Trail.entries, List.map_flatMap,
    List.mem_flatMap]
  simp only [Decoration.mem_keys hr]

end Request

/-- What is written behind the path is one list of fields. A key is in it twice just if a node
brings along a key that is also the alias of a moved argument; else each key is in it once, however
often it was given. -/
theorem key_repeated_iff (base : String) (style : KeyStyle) (tree : Expr) (r : Request)
    (h : (Service.ofBase base style).request tree = .ok r) :
    let d := Draft.visited (.ofBase base style) tree {}
    (r.uri = d.path ++
      if d.fields = [] then "" else "?" ++ String.intercalate "&" d.fieldTexts) ∧
    d.fields.map Prod.fst = d.options.keys ++ d.aliases.names ∧
    (¬ (d.fields.map Prod.fst).Nodup ↔ ∃ node ∈ tree.trail.decorations,
      ∃ entry ∈ node.custom, entry.1 ∈ d.aliases.names) ∧
    ((∀ node ∈ tree.trail.decorations, ∀ entry ∈ node.custom, entry.1 ∉ d.aliases.names) →
      ∀ key ∈ d.fields.map Prod.fst, (d.fields.map Prod.fst).count key = 1) := by
  intro d
  have hw := Service.ofBase_writes base style
  obtain ⟨hf, rfl⟩ := (request_eq_ok_iff hw rfl tree r).1 h
  have hd : d = Edit.actAll (tree.edits (.ofBase base style)) {} :=
    visited_of_faultless base style tree hf
  have hdistinct : d.IsDistinct :=
    (grows_visited hw rfl tree {}).distinct ⟨List.nodup_nil, List.nodup_nil⟩
  have hrepeated : ¬ (d.fields.map Prod.fst).Nodup ↔ ∃ node ∈ tree.trail.decorations,
      ∃ entry ∈ node.custom, entry.1 ∈ d.aliases.names := by
    rw [Draft.not_nodup_keys_iff hdistinct]
    constructor
    · rintro ⟨label, hl, hk⟩
      obtain ⟨node, hn, hc⟩ := (alias_mem_keys_iff base style tree hf hl).1 hk
      obtain ⟨entry, he, rfl⟩ := List.mem_map.1 hc
      exact ⟨node, hn, entry, he, hl⟩
    · rintro ⟨node, hn, entry, he, hl⟩
      have hc : entry.1 ∈ node.custom.map Prod.fst := List.mem_map_of_mem he
      exact ⟨entry.1, hl, (alias_mem_keys_iff base style tree hf hl).2 ⟨node, hn, hc⟩⟩
  refine ⟨?_, d.keys_fields, hrepeated, ?_⟩
  · rw [← hd]
    exact d.uri_eq_fieldTexts
  · intro hnone key hk
    have hnodup : (d.fields.map Prod.fst).Nodup := by
      by_contra hc
      obtain ⟨node, hn, entry, he, hmem⟩ := hrepeated.1 hc
      exact hnone node hn entry he hmem
    exact List.count_eq_one_of_mem hnodup hk

def linesMarked : Expr :=
  .follow
    (.root (.entitySet "Orders")
      { options := [.filter (.property "Open")]
        custom := [("a", "1"), ("@p", "x")] })
    (.navigation "Lines")
    { operation := some
        { name := "Near", isAction := false
          parameters := [("p", .structured "[1]"), ("p", .structured "[2]")] }
      options := [.filter (.property "Due")]
      custom := [("a", "2")] }

def linesMarkedUri : String :=
  "//h/Orders/Lines/Near(p=@p,p=@p1)?$filter=Open,Due&a=1,2&@p=x&@p=[1]&@p1=[2]"

theorem key_repeated_in_linesMarked :
    (Service.ofBase "//h").request linesMarked = .ok ⟨linesMarkedUri, .baseline⟩ ∧
      (Draft.visited (.ofBase "//h") linesMarked {}).fields.map Prod.fst =
        ["$filter", "a", "@p", "@p", "@p1"] ∧
      ¬ ((Draft.visited (.ofBase "//h") linesMarked {}).fields.map Prod.fst).Nodup := by
  have h : (Service.ofBase "//h").request linesMarked = .ok ⟨linesMarkedUri, .baseline⟩ := rfl
  obtain ⟨-, -, hrepeated, -⟩ := key_repeated_iff "//h" .parentheses linesMarked _ h
  refine ⟨h, rfl, hrepeated.2 ?_⟩
  refine ⟨linesMarked.trail.decoration, List.mem_cons_self, ("@p", "x"), ?_, ?_⟩
  · exact List.mem_cons_of_mem _ List.mem_cons_self
  · exact List.mem_cons_self

end RequestUri
