import RequestUri.Text.PathSafe
import RequestUri.Text.Quote

/-! Texts in a path: the characters that are in them, and how they are read back. -/

namespace RequestUri.Text

theorem mem_doubleQuotes (c : Char) (cs : List Char) : c ∈ doubleQuotes cs ↔ c ∈ cs := by
  induction cs with
  | nil => rfl
  | cons d cs ih =>
    rw [doubleQuotes]
    split <;> simp_all

theorem mem_mergeQuotes {c : Char} {cs : List Char} (h : c ∈ mergeQuotes cs) : c ∈ cs := by
  fun_induction mergeQuotes cs with
  | case1 => exact h
  | case2 cs ih => grind
  | case3 d cs _ ih => grind

theorem mem_of_unquote? {c : Char} {cs inner : List Char} (h : unquote? cs = some inner)
    (hc : c ∈ inner) : c ∈ cs := by
  fun_cases unquote? cs with
  | case1 rest hq =>
    rw [unquote?, if_pos hq] at h
    obtain rfl := Option.some.inj h
    exact List.mem_cons_of_mem _ (List.dropLast_subset rest (mem_mergeQuotes hc))
  | case2 rest hq =>
    rw [unquote?, if_neg hq] at h
    cases h
  | case3 =>
    simp_all [unquote?]

theorem mem_unquote {c : Char} {s : String} (h : c ∈ (unquote s).toList) : c ∈ s.toList := by
  rw [unquote] at h
  cases hu : unquote? s.toList with
  | none => rwa [hu] at h
  | some inner =>
    rw [hu, String.toList_ofList] at h
    exact mem_of_unquote? hu h

theorem mem_intercalate {c : Char} {separator : String} (hc : c ∉ separator.toList)
    (texts : List String) : c ∈ (String.intercalate separator texts).toList ↔
      ∃ text ∈ texts, c ∈ text.toList := by
  induction texts with
  | nil => simp
  | cons text texts ih =>
    cases texts with
    | nil => simp
    | cons next texts =>
      rw [String.intercalate_cons_cons, String.toList_append, List.mem_append, ih,
        String.toList_append, List.mem_append]
      simp [hc]

/-- Reads the four codes from left to right; all else stays. -/
def unescape : List Char → List Char
  | '%' :: '2' :: '5' :: cs => '%' :: unescape cs
  | '%' :: '2' :: 'F' :: cs => '/' :: unescape cs
  | '%' :: '3' :: 'F' :: cs => '?' :: unescape cs
  | '%' :: '2' :: '3' :: cs => '#' :: unescape cs
  | c :: cs => c :: unescape cs
  | [] => []

theorem unescape_cons {c : Char} (h : c ≠ '%') (cs : List Char) :
    unescape (c :: cs) = c :: unescape cs := by
  rw [unescape.eq_def]
  split <;> simp_all

theorem unescape_pathSafeChar (c : Char) (cs : List Char) :
    unescape (pathSafeChar c ++ cs) = c :: unescape cs := by
  by_cases hp : c = '%'
  · rw [hp]; rfl
  by_cases hs : c = '/'
  · rw [hs]; rfl
  by_cases hq : c = '?'
  · rw [hq]; rfl
  by_cases hh : c = '#'
  · rw [hh]; rfl
  have hc : pathSafeChar c = [c] := by
    simp [pathSafeChar, hp, hs, hq, hh]
  rw [hc, List.singleton_append, unescape_cons hp]

theorem unescape_pathSafe (s : String) : unescape (pathSafe s).toList = s.toList := by
  rw [pathSafe, String.toList_ofList]
  induction s.toList with
  | nil => rfl
  | cons c cs ih => rw [List.flatMap_cons, unescape_pathSafeChar, ih]

theorem pathSafe_eq_empty_iff (s : String) : pathSafe s = "" ↔ s = "" := by
  constructor
  · intro h
    have hs := unescape_pathSafe s
    rw [h] at hs
    exact String.toList_eq_nil_iff.1 hs.symm
  · rintro rfl
    rfl

theorem doubleQuotes_of_not_mem {cs : List Char} (h : '\'' ∉ cs) (more : List Char) :
    doubleQuotes (cs ++ more) = cs ++ doubleQuotes more := by
  induction cs with
  | nil => rfl
  | cons c cs ih =>
    have hc : c ≠ '\'' := fun he => h (he ▸ List.mem_cons_self)
    rw [List.cons_append, doubleQuotes, if_neg hc, ih fun hin => h (List.mem_cons_of_mem c hin)]
    rfl

theorem not_mem_pathSafeChar {c : Char} (h : c ≠ '\'') : '\'' ∉ pathSafeChar c := by
  simp only [pathSafeChar]
  split <;> grind

/- Quotes are not touched, so a text can be quoted before or after it is made safe. -/
theorem flatMap_doubleQuotes (cs : List Char) :
    (doubleQuotes cs).flatMap pathSafeChar = doubleQuotes (cs.flatMap pathSafeChar) := by
  induction cs with
  | nil => rfl
  | cons c cs ih =>
    by_cases h : c = '\''
    · have hq : pathSafeChar '\'' = ['\''] := rfl
      simp [doubleQuotes, h, hq, ih]
    · rw [doubleQuotes, if_neg h, List.flatMap_cons, List.flatMap_cons, ih,
        doubleQuotes_of_not_mem (not_mem_pathSafeChar h)]

theorem pathSafe_quote (s : String) : pathSafe (quote s) = quote (pathSafe s) := by
  have hq : pathSafeChar '\'' = ['\''] := rfl
  rw [← String.toList_inj]
  simp [pathSafe, quote, hq, flatMap_doubleQuotes]

theorem pathSafe_append (s t : String) : pathSafe (s ++ t) = pathSafe s ++ pathSafe t := by
  simp [pathSafe, ← String.ofList_append]

/- Between the quotes, the doubling is done before the codes are put in. -/
theorem pathSafe_quote_eq (s : String) :
    pathSafe (quote s) = "'" ++ pathSafe (String.ofList (doubleQuotes s.toList)) ++ "'" := by
  have hq : pathSafe "'" = "'" := rfl
  rw [quote, pathSafe_append, pathSafe_append, hq]

end RequestUri.Text
