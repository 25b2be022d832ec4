import Mathlib.Data.List.Forall2
import Mathlib.Data.List.Induction
import Mathlib.Data.List.Nodup
import Mathlib.Data.List.Perm.Subperm
import Mathlib.Data.Nat.Find
import Mathlib.Order.Bounds.Defs
import RequestUri.Query.Aliases

/-! The labels of a list of names: each takes the first of its candidates that no name before it
has taken. An alias table gives out just these. -/

namespace RequestUri.AliasTable

theorem candidate_succ_ne (name : String) (k : Nat) :
    candidate name (k + 1) ≠ candidate name 0 := by
  simp [candidate]

theorem candidate_injective (name : String) : Function.Injective (candidate name) := by
  intro i k h
  cases i with
  | zero =>
    cases k with
    | zero => rfl
    | succ k => exact absurd h.symm (candidate_succ_ne name k)
  | succ i =>
    cases k with
    | zero => exact absurd h (candidate_succ_ne name i)
    | succ k =>
      have he : (i + 1).repr = (k + 1).repr := by simpa [candidate] using h
      have hd := congrArg (fun s : String => Nat.ofDigitChars 10 s.toList 0) he
      simpa [Nat.toList_repr] using hd

/-- Of one candidate more than there are names, one is free. -/
theorem exists_free_le (taken : List String) (name : String) :
    ∃ k ≤ taken.length, candidate name k ∉ taken := by
  by_contra h
  have hall : ∀ k ≤ taken.length, candidate name k ∈ taken := by
    intro k hk
    by_contra hc
    exact h ⟨k, hk, hc⟩
  -- the candidates are all different and, without a free one, all among the taken
  have hn : ((List.range (taken.length + 1)).map (candidate name)).Nodup :=
    List.nodup_range.map (candidate_injective name)
  have hs : (List.range (taken.length + 1)).map (candidate name) ⊆ taken := by
    intro c hc
    obtain ⟨k, hk, rfl⟩ := List.mem_map.1 hc
    exact hall k (Nat.lt_succ_iff.1 (List.mem_range.1 hk))
  have hl := (List.subperm_of_subset hn hs).length_le
  rw [List.length_map, List.length_range] at hl
  omega

theorem exists_free (taken : List String) (name : String) : ∃ k, candidate name k ∉ taken := by
  obtain ⟨k, -, hk⟩ := exists_free_le taken name
  exact ⟨k, hk⟩

def label (taken : List String) (name : String) : String :=
  candidate name (Nat.find (exists_free taken name))

theorem label_not_mem (taken : List String) (name : String) : label taken name ∉ taken :=
  Nat.find_spec (exists_free taken name)

/-- The search from the `k`th candidate on ends at the first free one, if that is in reach. -/
theorem freeFrom_eq (t : AliasTable) (name : String) {m : Nat} (hm : candidate name m ∉ t.names)
    (hlt : ∀ i < m, candidate name i ∈ t.names) (n k : Nat) (hk : k ≤ m) (hn : m ≤ k + n) :
    t.freeFrom name n k = candidate name m := by
  induction n generalizing k with
  | zero =>
    have he : k = m := by omega
    rw [freeFrom, he]
  | succ n ih =>
    by_cases he : k = m
    · rw [freeFrom, he, if_neg hm]
    · have hlt' : k < m := by omega
      rw [freeFrom, if_pos (hlt k hlt')]
      exact ih (k + 1) (by omega) (by omega)

theorem free_eq_label (t : AliasTable) (name : String) : t.free name = label t.names name := by
  have hf := Nat.find_spec (exists_free t.names name)
  have hmin : ∀ i < Nat.find (exists_free t.names name), candidate name i ∈ t.names := by
    intro i hi
    by_contra hc
    exact Nat.find_min (exists_free t.names name) hi hc
  have hle : Nat.find (exists_free t.names name) ≤ 0 + t.entries.length := by
    obtain ⟨k, hk, hc⟩ := exists_free_le t.names name
    have h := Nat.find_min' (exists_free t.names name) hc
    simp only [names, List.length_map] at hk
    omega
  exact freeFrom_eq t name hf hmin t.entries.length 0 (Nat.zero_le _) hle

theorem free_not_mem (t : AliasTable) (name : String) : t.free name ∉ t.names := by
  rw [free_eq_label]
  exact label_not_mem t.names name

theorem entries_allocate (t : AliasTable) (name value : String) :
    (t.allocate name value).2.entries = t.entries ++ [(t.free name, value)] :=
  entries_insert (t.free_not_mem name) value

theorem names_allocate (t : AliasTable) (name value : String) :
    (t.allocate name value).2.names = t.names ++ [t.free name] := by
  simp [names, entries_allocate]

theorem nodup_allocate {t : AliasTable} (h : t.names.Nodup) (name value : String) :
    (t.allocate name value).2.names.Nodup := by
  rw [names_allocate, ← List.concat_eq_append]
  exact h.concat (t.free_not_mem name)

def labels (names : List String) : List String :=
  names.foldl (fun taken name => taken ++ [label taken name]) []

theorem labels_append_singleton (names : List String) (name : String) :
    labels (names ++ [name]) = labels names ++ [label (labels names) name] := by
  simp [labels]

theorem length_labels (names : List String) : (labels names).length = names.length := by
  induction names using List.reverseRecOn with
  | nil => rfl
  | append_singleton names name ih => simp [labels_append_singleton, ih]

/-- A label shows the name that it is for, and perhaps a number behind it. -/
def IsLabelOf (name label : String) : Prop :=
  label = "@" ++ name ∨ ∃ k : Nat, 0 < k ∧ label = "@" ++ name ++ toString k

theorem isLabelOf_candidate (name : String) (k : Nat) : IsLabelOf name (candidate name k) := by
  cases k with
  | zero => exact .inl rfl
  | succ k => exact .inr ⟨k + 1, Nat.succ_pos k, rfl⟩

theorem forall₂_labels (names : List String) : List.Forall₂ IsLabelOf names (labels names) := by
  induction names using List.reverseRecOn with
  | nil => exact .nil
  | append_singleton names name ih =>
    rw [labels_append_singleton]
    exact List.rel_append ih (.cons (isLabelOf_candidate name _) .nil)

def fresh (taken : List String) : List String → List String
  | [] => []
  | name :: names => label taken name :: fresh (taken ++ [label taken name]) names

theorem length_fresh (taken names : List String) : (fresh taken names).length = names.length := by
  induction names generalizing taken with
  | nil => rfl
  | cons name names ih => rw [fresh, List.length_cons, ih, List.length_cons]

theorem labels_append (names more : List String) :
    labels (names ++ more) = labels names ++ fresh (labels names) more := by
  induction more generalizing names with
  | nil => simp [fresh]
  | cons name more ih =>
    have hn := ih (names ++ [name])
    rw [labels_append_singleton, List.append_assoc, List.append_assoc] at hn
    exact hn

theorem fresh_append (taken names more : List String) :
    fresh taken (names ++ more) = fresh taken names ++ fresh (taken ++ fresh taken names) more := by
  induction names generalizing taken with
  | nil => simp [fresh]
  | cons name names ih => simp [fresh, ih]

def entriesFor (values : List (String × String)) : List (String × String) :=
  (labels (values.map Prod.fst)).zip (values.map Prod.snd)

theorem length_entriesFor (values : List (String × String)) :
    (entriesFor values).length = values.length := by
  simp [entriesFor, length_labels]

theorem entriesFor_append_singleton (values : List (String × String)) (name value : String) :
    entriesFor (values ++ [(name, value)]) =
      entriesFor values ++ [(label (labels (values.map Prod.fst)) name, value)] := by
  rw [entriesFor, List.map_append, List.map_append, List.map_singleton, List.map_singleton,
    labels_append_singleton, List.zip_append (by simp [length_labels])]
  rfl

theorem names_entriesFor (values : List (String × String)) :
    (entriesFor values).map Prod.fst = labels (values.map Prod.fst) := by
  rw [entriesFor, List.map_fst_zip]
  simp [length_labels]

theorem allocate_of_entriesFor {t : AliasTable} {values : List (String × String)}
    (h : t.entries = entriesFor values) (name value : String) :
    (t.allocate name value).1 = label (labels (values.map Prod.fst)) name ∧
      (t.allocate name value).2.entries = entriesFor (values ++ [(name, value)]) := by
  have hl : t.free name = label (labels (values.map Prod.fst)) name := by
    rw [free_eq_label, names, h, names_entriesFor]
  constructor
  · exact hl
  · rw [entries_allocate, hl, h, entriesFor_append_singleton]

inductive Reachable : AliasTable → Prop
  | empty : Reachable {}
  | allocate {t : AliasTable} (name value : String) :
    Reachable t → Reachable (t.allocate name value).2

theorem Reachable.nodup {t : AliasTable} (h : t.Reachable) : t.names.Nodup := by
  induction h with
  | empty => exact List.nodup_nil
  | allocate name value _ ih => exact nodup_allocate ih name value

/-- Where a search for a free alias stands: the alias that is tried, and the number that the next
one will have. -/
structure Search where
  tried : String
  next : Nat

namespace Search

def start (name : String) : Search := ⟨"@" ++ name, 1⟩

def turn (name : String) (s : Search) : Search := ⟨"@" ++ name ++ toString s.next, s.next + 1⟩

/-- The search takes turn after turn as long as the alias that is tried is taken, and ends with the
one that is found after so many turns. -/
inductive Ends (taken : List String) (name : String) : Search → Nat → String → Prop
  | found {s : Search} : s.tried ∉ taken → Ends taken name s 0 s.tried
  | turn {s : Search} {n : Nat} {label : String} :
    s.tried ∈ taken → Ends taken name (s.turn name) n label → Ends taken name s (n + 1) label

def after (name : String) (k : Nat) : Search := ⟨candidate name k, k + 1⟩

theorem turn_after (name : String) (k : Nat) : (after name k).turn name = after name (k + 1) := rfl

/- One turn for each taken candidate, so the number of turns is that of the free one. -/
theorem ends_after_iff (taken : List String) (name : String) (n k : Nat) (label : String) :
    Ends taken name (after name k) n label ↔
      (∀ i, k ≤ i → i < k + n → candidate name i ∈ taken) ∧ candidate name (k + n) ∉ taken ∧
        label = candidate name (k + n) := by
  induction n generalizing k with
  | zero =>
    constructor
    · intro h
      cases h with
      | found hfree => exact ⟨fun i hlo hhi => absurd hhi (Nat.not_lt.2 hlo), hfree, rfl⟩
    · rintro ⟨-, hfree, rfl⟩
      exact Ends.found hfree
  | succ n ih =>
    have hk : k + 1 + n = k + (n + 1) := by omega
    have hn := ih (k + 1)
    rw [← turn_after, hk] at hn
    constructor
    · intro h
      cases h with
      | turn htaken hrest =>
        obtain ⟨hall, hfree, hlabel⟩ := hn.1 hrest
        refine ⟨fun i hlo hhi => ?_, hfree, hlabel⟩
        by_cases hi : i = k
        · rw [hi]
          exact htaken
        · exact hall i (by omega) hhi
    · rintro ⟨hall, hfree, hlabel⟩
      refine Ends.turn (hall k (Nat.le_refl k) (by omega)) (hn.2 ⟨?_, hfree, hlabel⟩)
      exact fun i hlo hhi => hall i (by omega) hhi

theorem ends_start_iff (taken : List String) (name : String) (n : Nat) (label : String) :
    Ends taken name (start name) n label ↔
      n = Nat.find (exists_free taken name) ∧ label = AliasTable.label taken name := by
  have hstart : start name = after name 0 := rfl
  have hfind : Nat.find (exists_free taken name) = n ↔
      candidate name n ∉ taken ∧ ∀ i < n, candidate name i ∈ taken := by
    rw [Nat.find_eq_iff]
    simp only [not_not]
  rw [hstart, ends_after_iff, Nat.zero_add]
  constructor
  · rintro ⟨hall, hfree, hlabel⟩
    have hn := hfind.2 ⟨hfree, fun i hi => hall i (Nat.zero_le i) hi⟩
    rw [AliasTable.label, hn]
    exact ⟨rfl, hlabel⟩
  · rintro ⟨hn, hlabel⟩
    obtain ⟨hfree, hall⟩ := hfind.1 hn.symm
    rw [AliasTable.label, ← hn] at hlabel
    exact ⟨fun i _ hi => hall i hi, hfree, hlabel⟩

end Search

theorem label_of_free {taken : List String} {name : String} (h : "@" ++ name ∉ taken) :
    label taken name = "@" ++ name := by
  have hzero : Nat.find (exists_free taken name) = 0 := (Nat.find_eq_zero _).2 h
  rw [label, hzero]
  rfl

theorem candidate_of_pos (name : String) {k : Nat} (h : 1 ≤ k) :
    candidate name k = "@" ++ name ++ toString k := by
  obtain ⟨m, rfl⟩ := Nat.exists_eq_add_of_le' h
  rfl

theorem label_of_taken {taken : List String} {name : String} (h : "@" ++ name ∈ taken) :
    ∃ k, IsLeast {k : Nat | 1 ≤ k ∧ "@" ++ name ++ toString k ∉ taken} k ∧
      label taken name = "@" ++ name ++ toString k := by
  have hpos : 1 ≤ Nat.find (exists_free taken name) := (Nat.find_pos _).2 (not_not.2 h)
  have hlabel := candidate_of_pos name hpos
  refine ⟨Nat.find (exists_free taken name), ⟨⟨hpos, ?_⟩, fun k hk => ?_⟩, hlabel⟩
  · rw [← hlabel]
    exact label_not_mem taken name
  · refine Nat.find_min' _ ?_
    rw [candidate_of_pos name hk.1]
    exact hk.2

/-- The search of an allocation ends, after at most as many turns as the table has entries, and only
with the alias that is given out. That is `@name` if it is free, and else `@name` with the least
number that makes it free. The table keeps all its entries in their order, has a new one behind
them, and still no name twice. -/
theorem allocate_least_free {t : AliasTable} (ht : t.Reachable) (name value : String) :
    ∃ chosen turns, (t.allocate name value).1 = chosen ∧ turns ≤ t.entries.length ∧
      (∀ n found, Search.Ends t.names name (.start name) n found ↔ n = turns ∧ found = chosen) ∧
      ("@" ++ name ∉ t.names → chosen = "@" ++ name) ∧
      ("@" ++ name ∈ t.names →
        ∃ k, IsLeast {k : Nat | 1 ≤ k ∧ "@" ++ name ++ toString k ∉ t.names} k ∧
          chosen = "@" ++ name ++ toString k) ∧
      (t.allocate name value).2.entries = t.entries ++ [(chosen, value)] ∧
      (t.allocate name value).2.names.Nodup := by
  refine ⟨label t.names name, Nat.find (exists_free t.names name), t.free_eq_label name, ?_,
    Search.ends_start_iff t.names name, label_of_free, label_of_taken, ?_,
    nodup_allocate ht.nodup name value⟩
  · obtain ⟨k, hk, hfree⟩ := exists_free_le t.names name
    rw [names, List.length_map] at hk
    exact Nat.le_trans (Nat.find_min' (exists_free t.names name) hfree) hk
  · rw [entries_allocate, free_eq_label]

/-- A table in which the alias of `p1` stands where the second `p` would have it. -/
def crowded : AliasTable := ((AliasTable.allocate {} "p1" "x").2.allocate "p" "y").2

theorem crowded_least_free :
    crowded.entries = [("@p1", "x"), ("@p", "y")] ∧
      ∃ k, IsLeast {k : Nat | 1 ≤ k ∧ "@p" ++ toString k ∉ crowded.names} k ∧
        (crowded.allocate "p" "z").1 = "@p" ++ toString k ∧
        (crowded.allocate "p" "z").2.entries = crowded.entries ++ [("@p" ++ toString k, "z")] := by
  have hreach : crowded.Reachable := .allocate "p" "y" (.allocate "p1" "x" .empty)
  have hentries : crowded.entries = [("@p1", "x"), ("@p", "y")] := by decide
  have htaken : "@" ++ "p" ∈ crowded.names := by
    rw [names, hentries]
    decide
  obtain ⟨chosen, turns, hchosen, -, -, -, hleast, hnext, -⟩ := allocate_least_free hreach "p" "z"
  obtain ⟨k, hk, rfl⟩ := hleast htaken
  exact ⟨hentries, k, hk, hchosen, hnext⟩

example : (crowded.allocate "p" "z").1 = "@p2" := by decide

end RequestUri.AliasTable
