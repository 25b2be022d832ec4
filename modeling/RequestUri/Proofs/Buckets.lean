import Mathlib.Data.List.Induction
import Mathlib.Data.List.Perm.Basic
import RequestUri.Query.Options

/-! An option table filled entry by entry is the list of entries grouped by key: each key where it
first occurs, with all the values that were given for it. -/

namespace RequestUri.OptionTable

def addAll (t : OptionTable) : List (String × String) → OptionTable
  | [] => t
  | (key, value) :: rest => addAll (t.add key value) rest

def valuesOf (key : String) (entries : List (String × String)) : List String :=
  (entries.filter (·.1 == key)).map Prod.snd

/-- Entries grouped by key, in the order in which the keys first occur. -/
def grouped (entries : List (String × String)) : List (String × List String) :=
  (entries.map Prod.fst).eraseDups.map fun key => (key, valuesOf key entries)

theorem valuesOf_cons (key : String) (entry : String × String) (rest : List (String × String)) :
    valuesOf key (entry :: rest) =
      if entry.1 = key then entry.2 :: valuesOf key rest else valuesOf key rest := by
  by_cases h : entry.1 = key <;> simp [valuesOf, h]

theorem valuesOf_filter {key other : String} (h : other ≠ key) (entries : List (String × String)) :
    valuesOf other (entries.filter (·.1 != key)) = valuesOf other entries := by
  rw [valuesOf, valuesOf, List.filter_filter]
  congr 1
  apply List.filter_congr
  intro entry _
  by_cases he : entry.1 = other <;> simp [he, h]

theorem addAll_cons (key : String) (values : List String) (buckets : List (String × List String))
    (entries : List (String × String)) :
    (addAll ⟨(key, values) :: buckets⟩ entries).buckets =
      (key, values ++ valuesOf key entries) ::
        (addAll ⟨buckets⟩ (entries.filter (·.1 != key))).buckets := by
  induction entries generalizing values buckets with
  | nil => simp [addAll, valuesOf]
  | cons entry rest ih =>
    obtain ⟨k, value⟩ := entry
    by_cases h : k = key
    · have hp : add ⟨(key, values) :: buckets⟩ k value = ⟨(key, values ++ [value]) :: buckets⟩ := by
        simp [add, put, h]
      have hr := ih (values ++ [value]) buckets
      rw [addAll, hp]
      simpa [addAll, valuesOf_cons, h] using hr
    · have hp : add ⟨(key, values) :: buckets⟩ k value =
          ⟨(key, values) :: (add ⟨buckets⟩ k value).buckets⟩ := by
        simp [add, put, Ne.symm h]
      have hr := ih values (add ⟨buckets⟩ k value).buckets
      rw [addAll, hp]
      simpa [addAll, valuesOf_cons, h] using hr

theorem grouped_cons (key value : String) (rest : List (String × String)) :
    grouped ((key, value) :: rest) =
      (key, value :: valuesOf key rest) :: grouped (rest.filter (·.1 != key)) := by
  have hkeys : (rest.map Prod.fst).filter (fun k => !k == key) =
      (rest.filter (·.1 != key)).map Prod.fst := by
    rw [List.filter_map]
    rfl
  rw [grouped, List.map_cons, List.eraseDups_cons, hkeys, List.map_cons, grouped, valuesOf_cons]
  simp only [if_true, List.cons.injEq, true_and]
  apply List.map_congr_left
  intro k hk
  have hne : k ≠ key := by
    rw [List.mem_eraseDups, List.mem_map] at hk
    obtain ⟨entry, he, rfl⟩ := hk
    simpa using (List.mem_filter.1 he).2
  rw [valuesOf_cons, if_neg (Ne.symm hne), valuesOf_filter hne]

theorem buckets_addAll (entries : List (String × String)) :
    (addAll {} entries).buckets = grouped entries := by
  match entries with
  | [] => rfl
  | (key, value) :: rest =>
    have hf : (addAll {} ((key, value) :: rest)).buckets =
        (addAll ⟨[(key, [value])]⟩ rest).buckets := rfl
    -- the entries that the first bucket leaves over are fewer
    have hr := buckets_addAll (rest.filter (·.1 != key))
    rw [hf, addAll_cons, hr, grouped_cons]
    rfl
termination_by entries.length
decreasing_by exact Nat.lt_succ_of_le (List.length_filter_le _ rest)

theorem keys_addAll (entries : List (String × String)) :
    (addAll {} entries).keys = (entries.map Prod.fst).eraseDups := by
  rw [keys, buckets_addAll, grouped, List.map_map]
  exact List.map_id _

theorem buckets_eq_map_keys (entries : List (String × String)) : (addAll {} entries).buckets =
    (addAll {} entries).keys.map fun key => (key, valuesOf key entries) := by
  rw [keys_addAll, buckets_addAll, grouped]

def valuesUnder (t : OptionTable) (key : String) : List String := (t.buckets.lookup key).getD []

theorem lookup_put_self (key value : String) (buckets : List (String × List String)) :
    (put key value buckets).lookup key = some ((buckets.lookup key).getD [] ++ [value]) := by
  induction buckets with
  | nil => simp [put]
  | cons bucket rest ih =>
    obtain ⟨k, values⟩ := bucket
    by_cases h : k = key
    · simp [put, h]
    · simp [put, h, List.lookup_cons, beq_false_of_ne (Ne.symm h), ih]

theorem lookup_put_of_ne {key k : String} (h : k ≠ key) (value : String)
    (buckets : List (String × List String)) :
    (put key value buckets).lookup k = buckets.lookup k := by
  induction buckets with
  | nil => simp [put, List.lookup_cons, beq_false_of_ne h]
  | cons bucket rest ih =>
    obtain ⟨k', values⟩ := bucket
    by_cases hk' : k' = key
    · simp [put, hk', List.lookup_cons, beq_false_of_ne h]
    · simp [put, hk', List.lookup_cons, ih]

theorem valuesUnder_add (t : OptionTable) (key value k : String) :
    (t.add key value).valuesUnder k = t.valuesUnder k ++ if k = key then [value] else [] := by
  rw [valuesUnder, valuesUnder, add]
  by_cases h : k = key
  · rw [if_pos h, h, lookup_put_self]
    rfl
  · rw [if_neg h, lookup_put_of_ne h, List.append_nil]

theorem addAll_append (t : OptionTable) (first second : List (String × String)) :
    addAll t (first ++ second) = addAll (addAll t first) second := by
  induction first generalizing t with
  | nil => rfl
  | cons entry rest ih => exact ih (t.add entry.1 entry.2)

theorem valuesUnder_addAll (t : OptionTable) (entries : List (String × String)) (key : String) :
    (addAll t entries).valuesUnder key = t.valuesUnder key ++ valuesOf key entries := by
  induction entries generalizing t with
  | nil => simp [addAll, valuesOf]
  | cons entry rest ih =>
    obtain ⟨k, value⟩ := entry
    rw [addAll, ih, valuesUnder_add, valuesOf_cons]
    by_cases h : k = key
    · simp [h]
    · simp [h, Ne.symm h]

def held (t : OptionTable) : List (String × String) :=
  t.buckets.flatMap fun bucket => bucket.2.map (bucket.1, ·)

theorem held_add_perm (t : OptionTable) (key value : String) :
    (t.add key value).held.Perm (t.held ++ [(key, value)]) := by
  obtain ⟨buckets⟩ := t
  rw [held, held, add]
  induction buckets with
  | nil => simp [put]
  | cons bucket rest ih =>
    obtain ⟨k, values⟩ := bucket
    by_cases h : k = key
    · have hmiddle : ((key, value) :: rest.flatMap fun bucket => bucket.2.map (bucket.1, ·)).Perm
          ((rest.flatMap fun bucket => bucket.2.map (bucket.1, ·)) ++ [(key, value)]) :=
        (List.perm_append_singleton _ _).symm
      simpa [put, h] using hmiddle.append_left (values.map (key, ·))
    · simpa [put, h] using ih.append_left (values.map (k, ·))

theorem held_addAll_perm (t : OptionTable) (entries : List (String × String)) :
    (addAll t entries).held.Perm (t.held ++ entries) := by
  induction entries generalizing t with
  | nil => simp [addAll]
  | cons entry rest ih =>
    have hstep : ((t.add entry.1 entry.2).held ++ rest).Perm (t.held ++ [entry] ++ rest) :=
      (held_add_perm t entry.1 entry.2).append_right rest
    simpa [addAll] using (ih (t.add entry.1 entry.2)).trans hstep

/-- The keys of the entries, each once, in the order in which they first occur. -/
structure IsFirstSeen (keys : List String) (entries : List (String × String)) : Prop where
  mem_iff : ∀ key, key ∈ keys ↔ key ∈ entries.map Prod.fst
  ordered : keys.Pairwise fun key later =>
    (entries.map Prod.fst).idxOf key < (entries.map Prod.fst).idxOf later

theorem IsFirstSeen.nodup {keys : List String} {entries : List (String × String)}
    (h : IsFirstSeen keys entries) : keys.Nodup := by
  refine h.ordered.imp ?_
  rintro key later hlt rfl
  exact absurd hlt (Nat.lt_irrefl _)

theorem IsFirstSeen.add {t : OptionTable} {entries : List (String × String)}
    (h : IsFirstSeen t.keys entries) (key value : String) :
    IsFirstSeen (t.add key value).keys (entries ++ [(key, value)]) := by
  have hold : ∀ k ∈ t.keys, ((entries ++ [(key, value)]).map Prod.fst).idxOf k =
      (entries.map Prod.fst).idxOf k := by
    intro k hk
    rw [List.map_append, List.idxOf_append_of_mem ((h.mem_iff k).1 hk)]
  have hordered : t.keys.Pairwise fun k later =>
      ((entries ++ [(key, value)]).map Prod.fst).idxOf k <
        ((entries ++ [(key, value)]).map Prod.fst).idxOf later := by
    refine h.ordered.imp_of_mem ?_
    intro k later hk hlater hlt
    rwa [hold k hk, hold later hlater]
  rw [keys_add]
  split
  · next hin =>
    refine ⟨fun k => ?_, hordered⟩
    have hkey := (h.mem_iff key).1 hin
    grind [h.mem_iff k]
  · next hin =>
    have hnew : key ∉ entries.map Prod.fst := fun hk => hin ((h.mem_iff key).2 hk)
    refine ⟨fun k => ?_, ?_⟩
    · simp [h.mem_iff k]
    · refine List.pairwise_append.2 ⟨hordered, List.pairwise_singleton _ _, ?_⟩
      intro k hk later hlater
      rw [List.mem_singleton.1 hlater, hold k hk, List.map_append,
        List.idxOf_append_of_notMem hnew]
      have hlt := List.idxOf_lt_length_of_mem ((h.mem_iff k).1 hk)
      omega

theorem isFirstSeen_addAll (entries : List (String × String)) :
    IsFirstSeen (addAll {} entries).keys entries := by
  induction entries using List.reverseRecOn with
  | nil => exact ⟨by simp [addAll, keys], List.Pairwise.nil⟩
  | append_singleton entries entry ih =>
    rw [addAll_append]
    exact ih.add entry.1 entry.2

theorem text_addAll (entries : List (String × String)) : (addAll {} entries).text =
    String.intercalate "&" ((addAll {} entries).keys.map fun key =>
      key ++ "=" ++ String.intercalate "," (valuesOf key entries)) := by
  rw [text, buckets_eq_map_keys, List.map_map]
  rfl

theorem isEmpty_addAll (entries : List (String × String)) :
    (addAll {} entries).isEmpty = entries.isEmpty := by
  rw [isEmpty, buckets_addAll]
  cases entries with
  | nil => rfl
  | cons entry rest => rw [grouped_cons]; rfl

theorem keys_prefix_addAll (t : OptionTable) (entries : List (String × String)) :
    t.keys <+: (addAll t entries).keys := by
  induction entries generalizing t with
  | nil => exact List.prefix_refl _
  | cons entry rest ih =>
    have hstep : t.keys <+: (t.add entry.1 entry.2).keys := by
      rw [keys_add]
      split <;> simp
    exact hstep.trans (ih (t.add entry.1 entry.2))

section Exchange
variable {key other : String} (h : key ≠ other) (value otherValue : String)
include h

theorem put_comm {buckets : List (String × List String)} (hin : key ∈ buckets.map Prod.fst) :
    put other otherValue (put key value buckets) = put key value (put other otherValue buckets) := by
  induction buckets with
  | nil => simp at hin
  | cons bucket rest ih =>
    obtain ⟨k, values⟩ := bucket
    by_cases hk : k = key
    · simp [put, hk, h]
    · have hrest : key ∈ rest.map Prod.fst := by simpa [Ne.symm hk] using hin
      by_cases ho : k = other
      · simp [put, ho, Ne.symm h]
      · simp [put, hk, ho, ih hrest]

theorem add_exchange {t : OptionTable} (hin : key ∈ t.keys ∨ other ∈ t.keys) :
    (t.add key value).add other otherValue = (t.add other otherValue).add key value := by
  rcases hin with hin | hin
  · exact congrArg mk (put_comm h value otherValue hin)
  · exact congrArg mk (put_comm (Ne.symm h) otherValue value hin).symm

/-- Two entries can change places unless both keys are new: then they decide which comes first. -/
theorem addAll_exchange_iff (t : OptionTable) (rest : List (String × String)) :
    addAll t ((key, value) :: (other, otherValue) :: rest) =
        addAll t ((other, otherValue) :: (key, value) :: rest) ↔
      key ∈ t.keys ∨ other ∈ t.keys := by
  constructor
  · intro hsame
    by_contra hnew
    obtain ⟨hkey, hother⟩ := not_or.1 hnew
    -- both tables begin with the keys they had after the two entries
    have hl := keys_prefix_addAll ((t.add key value).add other otherValue) rest
    have hr := keys_prefix_addAll ((t.add other otherValue).add key value) rest
    have hrun : addAll ((t.add key value).add other otherValue) rest =
        addAll ((t.add other otherValue).add key value) rest := hsame
    rw [hrun] at hl
    simp only [keys_add, hkey, hother, h, Ne.symm h, if_false, List.mem_append, List.mem_singleton,
      or_self] at hl hr
    have heq := (List.prefix_of_prefix_length_le hl hr (by simp)).eq_of_length (by simp)
    simp [h] at heq
  · intro hin
    exact congrArg (addAll · rest) (add_exchange h value otherValue hin)

theorem valuesOf_exchange (before after : List (String × String)) (k : String) :
    valuesOf k (before ++ (other, otherValue) :: (key, value) :: after) =
      valuesOf k (before ++ (key, value) :: (other, otherValue) :: after) := by
  induction before with
  | nil =>
    simp only [List.nil_append, valuesOf_cons]
    by_cases hk : key = k
    · simp [hk, hk ▸ Ne.symm h]
    · simp [hk]
  | cons entry before ih => rw [List.cons_append, List.cons_append, valuesOf_cons, valuesOf_cons, ih]

theorem buckets_exchange_perm (before after : List (String × String)) :
    (addAll {} (before ++ (other, otherValue) :: (key, value) :: after)).buckets.Perm
      (addAll {} (before ++ (key, value) :: (other, otherValue) :: after)).buckets := by
  have hs := isFirstSeen_addAll (before ++ (other, otherValue) :: (key, value) :: after)
  have ht := isFirstSeen_addAll (before ++ (key, value) :: (other, otherValue) :: after)
  rw [buckets_eq_map_keys, buckets_eq_map_keys,
    funext fun k => congrArg (Prod.mk k) (valuesOf_exchange h value otherValue before after k)]
  refine List.Perm.map _ ((List.perm_ext_iff_of_nodup hs.nodup ht.nodup).2 fun k => ?_)
  rw [hs.mem_iff, ht.mem_iff]
  simp [or_left_comm]

end Exchange

/-- Options are written key by key in the order in which the keys were first given, each with all
its values in their order. Every value stays, once and under its own key. Two neighbours under
different keys can change places without a change of any bucket; the order of the buckets changes
just if both keys are new there. -/
theorem options_grouped :
    (∀ entries : List (String × String),
      let t := addAll {} entries
      IsFirstSeen t.keys entries ∧
      t.text = String.intercalate "&" (t.keys.map fun key =>
        key ++ "=" ++ String.intercalate "," (valuesOf key entries)) ∧
      t.held.Perm entries ∧ (∀ key, t.valuesUnder key = valuesOf key entries) ∧
      (t.isEmpty ↔ entries = [])) ∧
    ∀ (before after : List (String × String)) (key value other otherValue : String),
      key ≠ other →
      let t := addAll {} (before ++ (key, value) :: (other, otherValue) :: after)
      let s := addAll {} (before ++ (other, otherValue) :: (key, value) :: after)
      s.buckets.Perm t.buckets ∧
      (t = s ↔ key ∈ before.map Prod.fst ∨ other ∈ before.map Prod.fst) := by
  constructor
  · intro entries
    have hheld : (addAll {} entries).held.Perm entries := held_addAll_perm {} entries
    have hvalues : ∀ key, (addAll {} entries).valuesUnder key = valuesOf key entries :=
      valuesUnder_addAll {} entries
    refine ⟨isFirstSeen_addAll entries, text_addAll entries, hheld, hvalues, ?_⟩
    rw [isEmpty_addAll, List.isEmpty_iff]
  · intro before after key value other otherValue h
    refine ⟨buckets_exchange_perm h value otherValue before after, ?_⟩
    have hseen := (isFirstSeen_addAll before).mem_iff
    rw [addAll_append, addAll_append, addAll_exchange_iff h, hseen, hseen]

theorem options_grouped_of_topTwice :
    let t := addAll {} [("$top", "10"), ("$filter", "A eq 1"), ("$top", "5")]
    let s := addAll {} [("$filter", "A eq 1"), ("$top", "10"), ("$top", "5")]
    t.keys = ["$top", "$filter"] ∧ t.text = "$top=10,5&$filter=A eq 1" ∧
      s.text = "$filter=A eq 1&$top=10,5" ∧ s.buckets.Perm t.buckets ∧ t ≠ s := by
  have hne : "$top" ≠ "$filter" := by decide
  obtain ⟨hperm, hiff⟩ := options_grouped.2 [] [("$top", "5")] _ "10" _ "A eq 1" hne
  have ht := (options_grouped.1 [("$top", "10"), ("$filter", "A eq 1"), ("$top", "5")]).2.1
  have hs := (options_grouped.1 [("$filter", "A eq 1"), ("$top", "10"), ("$top", "5")]).2.1
  refine ⟨rfl, ht.trans rfl, hs.trans rfl, hperm, fun hsame => ?_⟩
  simpa using hiff.1 hsame

end RequestUri.OptionTable
