import RequestUri.Tree.Literal

/-! Numbers, truth values and null are written with letters, digits, points and signs alone, so no
character of their texts means anything to the text around them. None of the texts is empty. -/

namespace RequestUri

namespace Text

def isPlainChar (c : Char) : Bool := c.isAlphanum || c == '.' || c == '+' || c == '-'

def isPlain (s : String) : Bool := s.toList.all isPlainChar

theorem isPlain_append (s t : String) : isPlain (s ++ t) = (isPlain s && isPlain t) := by
  simp [isPlain]

theorem not_mem_of_all {isOfClass : Char → Bool} {cs : List Char} (h : cs.all isOfClass) {c : Char}
    (hc : isOfClass c = false) : c ∉ cs := by
  intro hin
  have hclass := List.all_eq_true.1 h c hin
  rw [hc] at hclass
  cases hclass

theorem not_mem_of_isPlain {s : String} (h : isPlain s) {c : Char} (hc : isPlainChar c = false) :
    c ∉ s.toList :=
  not_mem_of_all h hc

theorem isPlainChar_of_isDigit {c : Char} (h : c.isDigit) : isPlainChar c := by
  simp [isPlainChar, Char.isAlphanum, h]

theorem isPlain_ofList {cs : List Char} (h : ∀ c ∈ cs, c.isDigit) : isPlain (String.ofList cs) := by
  rw [isPlain, String.toList_ofList, List.all_eq_true]
  exact fun c hc => isPlainChar_of_isDigit (h c hc)

theorem isDigit_of_mem_toDigits {n : Nat} {c : Char} (h : c ∈ Nat.toDigits 10 n) : c.isDigit :=
  Nat.isDigit_of_mem_toDigits (by decide) (by decide) h

theorem isPlain_digits (n : Nat) : isPlain (String.ofList (Nat.toDigits 10 n)) :=
  isPlain_ofList fun _ => isDigit_of_mem_toDigits

theorem isDigit_or_minus {n : Int} {c : Char} (h : c ∈ (toString n).toList) :
    c.isDigit ∨ c = '-' := by
  cases n with
  | ofNat k =>
    have hs : (toString (Int.ofNat k)).toList = Nat.toDigits 10 k := Nat.toList_repr
    rw [hs] at h
    exact .inl (isDigit_of_mem_toDigits h)
  | negSucc k =>
    have hs : (toString (Int.negSucc k)).toList = '-' :: Nat.toDigits 10 (k + 1) := by
      rw [← Nat.toList_repr]
      exact String.toList_append
    rw [hs] at h
    rcases List.mem_cons.1 h with h | h
    · exact .inr h
    · exact .inl (isDigit_of_mem_toDigits h)

theorem digits_ne_empty (n : Nat) : String.ofList (Nat.toDigits 10 n) ≠ "" := by
  simp [Nat.toDigits_ne_nil]

theorem toString_ne_empty (n : Int) : toString n ≠ "" := by
  cases n with
  | ofNat k =>
    have hs : toString (Int.ofNat k) = String.ofList (Nat.toDigits 10 k) := by
      rw [← String.toList_inj, String.toList_ofList]
      exact Nat.toList_repr
    rw [hs]
    exact digits_ne_empty k
  | negSucc k =>
    intro h
    exact absurd (String.append_eq_empty_iff.1 h).1 (by decide)

theorem isPlain_toString (n : Int) : isPlain (toString n) := by
  rw [isPlain, List.all_eq_true]
  intro c hc
  rcases isDigit_or_minus hc with hd | rfl
  · exact isPlainChar_of_isDigit hd
  · rfl

end Text

namespace Numeral
open Text

theorem isPlain_zeroDigits (n : Nat) : isPlain (zeroDigits n) := by
  apply isPlain_ofList
  intro c hc
  rw [(List.mem_replicate.1 hc).2]
  rfl

theorem isPlain_pointAfter {digits : List Char} (h : ∀ c ∈ digits, c.isDigit) (n : Int) :
    isPlain (pointAfter digits n) := by
  have hzero : isPlain "0." = true := rfl
  have hpoint : isPlain "." = true := rfl
  rw [pointAfter]
  split
  · simp only [isPlain_append, hzero, isPlain_zeroDigits, isPlain_ofList h, Bool.and_self]
  · have htake : isPlain (String.ofList (digits.take n.toNat)) :=
      isPlain_ofList fun c hc => h c (List.mem_of_mem_take hc)
    have hdrop : isPlain (String.ofList (digits.drop n.toNat)) :=
      isPlain_ofList fun c hc => h c (List.mem_of_mem_drop hc)
    simp only [isPlain_append, hpoint, htake, hdrop, Bool.and_self]

theorem pointAfter_ne_empty (digits : List Char) (n : Int) : pointAfter digits n ≠ "" := by
  rw [pointAfter]
  split <;> simp

namespace Layout

theorem decimal_ne_empty (layout : Layout) (digits : Nat) (exponent : Int) :
    layout.decimal digits exponent ≠ "" := by
  rw [decimal.eq_def]
  dsimp only
  split
  · split
    · simp [Nat.toDigits_ne_nil]
    · exact pointAfter_ne_empty _ _
  · split <;> simp

theorem finite_ne_empty (layout : Layout) (f : BinaryFormat) (negative : Bool) (m : Nat) (q : Int) :
    layout.finite f negative m q ≠ "" := by
  intro h
  exact layout.decimal_ne_empty _ _ (String.append_eq_empty_iff.1 h).2

theorem isPlain_sign (negative : Bool) : isPlain (sign negative) := by
  cases negative <;> rfl

variable {layout : Layout} (h : isPlain layout.wholeEnd)
include h

theorem isPlain_decimal (digits : Nat) (exponent : Int) :
    isPlain (layout.decimal digits exponent) := by
  have hd : ∀ c ∈ Nat.toDigits 10 digits, c.isDigit := fun _ => isDigit_of_mem_toDigits
  have hpoint := isPlain_pointAfter hd
  rw [decimal.eq_def]
  dsimp only
  split
  · split
    · simp only [isPlain_append, isPlain_digits, isPlain_zeroDigits, h, Bool.and_self]
    · exact hpoint _
  · have hmantissa : isPlain (if (Nat.toDigits 10 digits).length = 1 then
        String.ofList (Nat.toDigits 10 digits) else pointAfter (Nat.toDigits 10 digits) 1) := by
      split
      · exact isPlain_digits digits
      · exact hpoint 1
    have hmark : isPlain (if 0 ≤ exponent + (Nat.toDigits 10 digits).length - 1 then "e+"
        else "e-") := by
      split <;> rfl
    have hpower := isPlain_digits (exponent + (Nat.toDigits 10 digits).length - 1).natAbs
    rw [isPlain_append, isPlain_append, hmantissa, hmark]
    exact hpower

theorem isPlain_finite (f : BinaryFormat) (negative : Bool) (m : Nat) (q : Int) :
    isPlain (layout.finite f negative m q) := by
  rw [finite, isPlain_append, isPlain_sign, isPlain_decimal h]
  rfl

end Layout

theorem Decimal.isPlain_text (d : Decimal) : isPlain d.text := by
  rw [Decimal.text.eq_def]
  dsimp only
  rw [isPlain_append, Layout.isPlain_sign, Bool.true_and]
  split
  · exact isPlain_digits d.mantissa
  · exact isPlain_pointAfter (fun _ => isDigit_of_mem_toDigits) _

theorem Decimal.text_ne_empty (d : Decimal) : d.text ≠ "" := by
  rw [Decimal.text.eq_def]
  dsimp only
  intro h
  have hdigits := (String.append_eq_empty_iff.1 h).2
  split at hdigits
  · exact digits_ne_empty d.mantissa hdigits
  · exact pointAfter_ne_empty _ _ hdigits

end Numeral

theorem Json.Number.text_ne_empty (n : Json.Number) : n.text ≠ "" := by
  cases n with
  | whole k => exact Text.toString_ne_empty k
  | double bits =>
    rw [text.eq_def]
    dsimp only
    split
    · exact Numeral.Layout.finite_ne_empty _ _ _ _ _
    · decide

theorem Json.Number.isPlain_text (n : Json.Number) : Text.isPlain n.text := by
  cases n with
  | whole k => exact Text.isPlain_toString k
  | double bits =>
    rw [text.eq_def]
    dsimp only
    split
    · exact Numeral.Layout.isPlain_finite rfl _ _ _ _
    · rfl

namespace Literal

/-- Literals that hold no text of their own. -/
def isSimple : Literal → Bool
  | null | bool _ | int32 _ | int64 _ | single _ | double _ | decimal _ => true
  | _ => false

theorem binaryText_ne_empty (f : Numeral.BinaryFormat) (bits : Nat) : binaryText f bits ≠ "" := by
  rw [binaryText]
  split
  · decide
  · simp
  · exact Numeral.Layout.finite_ne_empty _ _ _ _ _

theorem text_ne_empty {v : Literal} (h : v.isSimple) : v.text ≠ "" := by
  cases v with
  | null => decide
  | bool b => cases b <;> decide
  | int32 n => exact Text.toString_ne_empty n.toInt
  | int64 n => exact Text.toString_ne_empty n.toInt
  | single bits => exact binaryText_ne_empty .single bits.toNat
  | double bits => exact binaryText_ne_empty .double bits.toNat
  | decimal d => exact d.text_ne_empty
  | _ => simp [isSimple] at h

theorem isPlain_binaryText (f : Numeral.BinaryFormat) (bits : Nat) :
    Text.isPlain (binaryText f bits) := by
  rw [binaryText]
  split
  · rfl
  · rw [Text.isPlain_append, Numeral.Layout.isPlain_sign]
    rfl
  · exact Numeral.Layout.isPlain_finite rfl _ _ _ _

theorem isPlain_text {v : Literal} (h : v.isSimple) : Text.isPlain v.text := by
  cases v with
  | null => rfl
  | bool b => cases b <;> rfl
  | int32 n => exact Text.isPlain_toString n.toInt
  | int64 n => exact Text.isPlain_toString n.toInt
  | single bits => exact isPlain_binaryText .single bits.toNat
  | double bits => exact isPlain_binaryText .double bits.toNat
  | decimal d => exact d.isPlain_text
  | _ => simp [isSimple] at h

theorem textAt_of_isSimple {v : Literal} (h : v.isSimple) (place : Place) :
    v.textAt place = v.text := by
  cases v with
  | string s => simp [isSimple] at h
  | _ => cases place <;> rfl

end Literal

end RequestUri
