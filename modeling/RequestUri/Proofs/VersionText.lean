import Mathlib.Data.List.TakeWhile
import RequestUri.Protocol.Version

/-! The texts that are read as a version: two numbers with a point between them, each with leading
zeros and a plus sign as one likes, and blanks around the whole. The text of a version is one of
them. -/

namespace RequestUri

namespace Text

theorem isBlank_of_isDigit {c : Char} (h : c.isDigit) : isBlank c = false := by
  have hc : 48 ≤ c.toNat ∧ c.toNat ≤ 57 := Char.isDigit_iff_toNat.1 h
  simp [isBlank]
  omega

theorem dropWhile_isBlank {cs : List Char} (h : ∀ c ∈ cs, isBlank c = false) :
    cs.dropWhile isBlank = cs := by
  cases cs with
  | nil => rfl
  | cons c cs => rw [List.dropWhile_cons_of_neg (by simp [h c List.mem_cons_self])]

theorem trim_between {before cs after : List Char} (hb : ∀ c ∈ before, isBlank c)
    (h : ∀ c ∈ cs, isBlank c = false) (ha : ∀ c ∈ after, isBlank c) :
    trim (before ++ cs ++ after) = cs := by
  have hr : ∀ c ∈ cs.reverse, isBlank c = false := fun c hc => h c (List.mem_reverse.1 hc)
  have har : ∀ c ∈ after.reverse, isBlank c := fun c hc => ha c (List.mem_reverse.1 hc)
  rw [trim, List.append_assoc, List.dropWhile_append_of_pos hb]
  cases cs with
  | nil =>
    rw [List.nil_append, List.dropWhile_eq_nil_iff.2 ha]
    rfl
  | cons c cs =>
    rw [List.cons_append, List.dropWhile_cons_of_neg (by simp [h c List.mem_cons_self]),
      ← List.cons_append, List.reverse_append, List.dropWhile_append_of_pos har,
      dropWhile_isBlank hr, List.reverse_reverse]

theorem exists_eq_trim (cs : List Char) : ∃ before after,
    cs = before ++ trim cs ++ after ∧ (∀ c ∈ before, isBlank c) ∧ ∀ c ∈ after, isBlank c := by
  have htaken : ∀ cs : List Char, ∀ c ∈ cs.takeWhile isBlank, isBlank c :=
    fun cs c hc => List.all_eq_true.1 List.all_takeWhile c hc
  refine ⟨cs.takeWhile isBlank, ((cs.dropWhile isBlank).reverse.takeWhile isBlank).reverse, ?_,
    htaken cs, fun c hc => htaken _ c (List.mem_reverse.1 hc)⟩
  rw [trim, List.append_assoc, ← List.reverse_append, List.takeWhile_append_dropWhile,
    List.reverse_reverse, List.takeWhile_append_dropWhile]

structure IsNumeral (cs : List Char) (n : Nat) : Prop where
  ne_nil : cs ≠ []
  digits : ∀ c ∈ cs, c.isDigit
  value : Nat.ofDigitChars 10 cs 0 = n

theorem isNumeral_toString (n : Nat) : IsNumeral (toString n).toList n := by
  have hd : (toString n).toList = Nat.toDigits 10 n := Nat.toList_repr
  rw [hd]
  exact ⟨Nat.toDigits_ne_nil, fun c hc => Nat.isDigit_of_mem_toDigits (by decide) (by decide) hc,
    Nat.ofDigitChars_toDigits (by decide) (by decide)⟩

theorem IsNumeral.zero_cons {cs : List Char} {n : Nat} (h : IsNumeral cs n) :
    IsNumeral ('0' :: cs) n := by
  refine ⟨List.cons_ne_nil _ _, List.forall_mem_cons.2 ⟨by decide, h.digits⟩, ?_⟩
  rw [Nat.ofDigitChars_cons]
  exact h.value

/- The value grows digit by digit, from any number that has been read before. -/
theorem foldlM_digit?_eq_some_iff (cs : List Char) (n m : Nat) :
    cs.foldlM (fun n c => (digit? c).map (n * 10 + ·)) n = some m ↔
      (∀ c ∈ cs, c.isDigit) ∧ Nat.ofDigitChars 10 cs n = m := by
  induction cs generalizing n with
  | nil => simp
  | cons c cs ih =>
    rw [List.foldlM_cons, List.forall_mem_cons, Nat.ofDigitChars_cons, Nat.mul_comm 10 n]
    by_cases hc : c.isDigit
    · have hdigit : digit? c = some (c.toNat - 48) := if_pos hc
      simpa [hdigit, hc] using ih (n * 10 + (c.toNat - 48))
    · have hdigit : digit? c = none := if_neg hc
      simp [hdigit, hc]

theorem natural?_eq_some_iff {cs : List Char} {n : Nat} :
    natural? cs = some n ↔ IsNumeral cs n := by
  cases cs with
  | nil =>
    constructor
    · intro h
      cases h
    · exact fun h => absurd rfl h.ne_nil
  | cons c cs =>
    rw [natural?, if_neg (by simp), foldlM_digit?_eq_some_iff]
    exact ⟨fun h => ⟨List.cons_ne_nil c cs, h.1, h.2⟩, fun h => ⟨h.digits, h.value⟩⟩

end Text

namespace Version

def IsNumber (cs : List Char) (n : Nat) : Prop :=
  ∃ digits, Text.IsNumeral digits n ∧ (cs = digits ∨ cs = '+' :: digits)

theorem IsNumber.mem {cs : List Char} {n : Nat} (h : IsNumber cs n) {c : Char} (hc : c ∈ cs) :
    c.isDigit ∨ c = '+' := by
  obtain ⟨digits, hd, rfl | rfl⟩ := h
  · exact .inl (hd.digits c hc)
  · exact (List.mem_cons.1 hc).symm.imp_left (hd.digits c)

theorem IsNumber.not_blank {cs : List Char} {n : Nat} (h : IsNumber cs n) :
    ∀ c ∈ cs, Text.isBlank c = false := by
  intro c hc
  rcases h.mem hc with hd | rfl
  · exact Text.isBlank_of_isDigit hd
  · decide

theorem IsNumber.ne_point {cs : List Char} {n : Nat} (h : IsNumber cs n) :
    ∀ c ∈ cs, (c != '.') = true := by
  intro c hc
  rcases h.mem hc with hd | rfl
  · simp only [bne_iff_ne, ne_eq]
    rintro rfl
    cases hd
  · decide

theorem byte?_eq_some_iff {cs : List Char} {b : UInt8} :
    byte? cs = some b ↔ IsNumber cs b.toNat := by
  have hread : ∀ digits : List Char,
      (Text.natural? digits >>= fun n => if n < 256 then some n.toUInt8 else none) = some b ↔
        Text.IsNumeral digits b.toNat := by
    intro digits
    rw [← Text.natural?_eq_some_iff]
    cases Text.natural? digits with
    | none => simp
    | some n =>
      have hb := b.toNat_lt
      simp only [Option.bind_eq_bind, Option.bind_some, Option.ite_none_right_eq_some,
        Option.some.injEq]
      constructor
      · rintro ⟨hn, rfl⟩
        exact (Nat.mod_eq_of_lt hn).symm
      · rintro rfl
        exact ⟨hb, UInt8.ofNat_toNat⟩
  rw [byte?.eq_def]
  dsimp only
  split
  · next rest =>
    rw [hread]
    constructor
    · exact fun h => ⟨rest, h, .inr rfl⟩
    · rintro ⟨digits, hd, rfl | he⟩
      · exact absurd (hd.digits '+' List.mem_cons_self) (by decide)
      · cases he
        exact hd
  · next hplus =>
    rw [hread]
    constructor
    · exact fun h => ⟨cs, h, .inl rfl⟩
    · rintro ⟨digits, hd, rfl | rfl⟩
      · exact hd
      · exact absurd rfl (hplus digits)

/-- Two numbers with a point between them and blanks around them. -/
def IsSpelling (s : String) (major minor : Nat) : Prop :=
  ∃ before x y after, s.toList = before ++ (x ++ '.' :: y) ++ after ∧
    (∀ c ∈ before, Text.isBlank c) ∧ (∀ c ∈ after, Text.isBlank c) ∧
      IsNumber x major ∧ IsNumber y minor

/- A number has no point in it, so the first point is the one between the two. -/
theorem ofText?_of_trim {s : String} {x y : List Char} {v : Version}
    (hs : Text.trim s.toList = x ++ '.' :: y) (hx : IsNumber x v.major.toNat)
    (hy : IsNumber y v.minor.toNat) : ofText? s = some v := by
  rw [ofText?, hs, List.dropWhile_append_of_pos hx.ne_point,
    List.takeWhile_append_of_pos hx.ne_point, List.dropWhile_cons_of_neg (by decide),
    List.takeWhile_cons_of_neg (by decide), List.append_nil]
  dsimp only
  rw [byte?_eq_some_iff.2 hx, byte?_eq_some_iff.2 hy]
  rfl

theorem exists_trim_of_ofText? {s : String} {v : Version} (h : ofText? s = some v) :
    ∃ x y, Text.trim s.toList = x ++ '.' :: y ∧ IsNumber x v.major.toNat ∧
      IsNumber y v.minor.toNat := by
  rw [ofText?] at h
  split at h
  · cases h
  · next point y hdrop =>
    have hpoint : point = '.' := by
      have hhead := List.head?_dropWhile_not (· != '.') (Text.trim s.toList)
      simpa [hdrop] using hhead
    have hsplit := List.takeWhile_append_dropWhile (p := (· != '.')) (l := Text.trim s.toList)
    rw [hdrop, hpoint] at hsplit
    cases hx : byte? ((Text.trim s.toList).takeWhile (· != '.')) with
    | none => simp [hx] at h
    | some major =>
      cases hy : byte? y with
      | none => simp [hx, hy] at h
      | some minor =>
        have hv : ⟨major, minor⟩ = v := by simpa [hx, hy] using h
        subst hv
        exact ⟨_, y, hsplit.symm, byte?_eq_some_iff.1 hx, byte?_eq_some_iff.1 hy⟩

theorem ofText?_eq_some_iff {s : String} {v : Version} :
    ofText? s = some v ↔ IsSpelling s v.major.toNat v.minor.toNat := by
  constructor
  · intro h
    obtain ⟨x, y, htrim, hx, hy⟩ := exists_trim_of_ofText? h
    obtain ⟨before, after, hs, hbefore, hafter⟩ := Text.exists_eq_trim s.toList
    rw [htrim] at hs
    exact ⟨before, x, y, after, hs, hbefore, hafter, hx, hy⟩
  · rintro ⟨before, x, y, after, hs, hbefore, hafter, hx, hy⟩
    have hblank : ∀ c ∈ x ++ '.' :: y, Text.isBlank c = false := by
      simp only [List.forall_mem_append, List.forall_mem_cons]
      exact ⟨hx.not_blank, by decide, hy.not_blank⟩
    refine ofText?_of_trim ?_ hx hy
    rw [hs, Text.trim_between hbefore hblank hafter]

theorem isNumeral_minorText (n : UInt8) : Text.IsNumeral (minorText n).toList n.toNat := by
  rw [minorText]
  split
  · next h =>
    rw [h]
    exact Text.isNumeral_toString 0
  split
  · rw [String.toList_append]
    exact (Text.isNumeral_toString n.toNat).zero_cons
  · exact Text.isNumeral_toString n.toNat

/-- The text of a version stands for that version alone. -/
theorem ofText?_text (v : Version) : ofText? v.text = some v := by
  refine ofText?_eq_some_iff.2 ⟨[], (toString v.major.toNat).toList, (minorText v.minor).toList, [],
    by simp [text], List.forall_mem_nil _, List.forall_mem_nil _, ?_, ?_⟩
  · exact ⟨_, Text.isNumeral_toString v.major.toNat, .inl rfl⟩
  · exact ⟨_, isNumeral_minorText v.minor, .inl rfl⟩

theorem text_injective {v w : Version} (h : v.text = w.text) : v = w := by
  have hread := congrArg ofText? h
  rw [ofText?_text, ofText?_text] at hread
  exact Option.some.inj hread

/-- A text is read as a version just if it is a spelling of two numbers below 256, and these are the
numbers of the version. The text of a version is read as that version again; so all spellings of its
numbers, and no other texts, come to this text. -/
theorem version_of_spelling (s : String) :
    (∀ major minor : Nat,
      (∃ v : Version, ofText? s = some v ∧ v.major.toNat = major ∧ v.minor.toNat = minor) ↔
        IsSpelling s major minor ∧ major ≤ 255 ∧ minor ≤ 255) ∧
    ∀ v : Version, ofText? v.text = some v ∧
      ((ofText? s).map text = some v.text ↔ IsSpelling s v.major.toNat v.minor.toNat) := by
  refine ⟨fun major minor => ⟨?_, ?_⟩, fun v => ⟨ofText?_text v, ?_⟩⟩
  · rintro ⟨v, hv, rfl, rfl⟩
    have hmajor := v.major.toNat_lt
    have hminor := v.minor.toNat_lt
    exact ⟨ofText?_eq_some_iff.1 hv, by omega, by omega⟩
  · rintro ⟨hs, hmajor, hminor⟩
    have hx : major.toUInt8.toNat = major := Nat.mod_eq_of_lt (by omega)
    have hy : minor.toUInt8.toNat = minor := Nat.mod_eq_of_lt (by omega)
    refine ⟨⟨major.toUInt8, minor.toUInt8⟩, ofText?_eq_some_iff.2 ?_, hx, hy⟩
    rw [hx, hy]
    exact hs
  · rw [← ofText?_eq_some_iff, Option.map_eq_some_iff]
    constructor
    · rintro ⟨w, hw, htext⟩
      rw [← text_injective htext]
      exact hw
    · exact fun h => ⟨v, h, rfl⟩

-- a no-break space, leading zeros, plus signs and an ideographic space
example : (ofText? "\u00a0+04.+001\u3000").map text = some "4.01" := by decide

example : ofText? "4.256" = none ∧ ofText? "4.+" = none ∧ ofText? "4.0.1" = none := by decide

end Version

end RequestUri
