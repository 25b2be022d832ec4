import Mathlib.Data.List.Forall2
import RequestUri.Text.Shape

/-! The characters of identifiers and time stamps. A shape is matched place by place, so a text that
fits has only characters that the shape has a place for. -/

namespace RequestUri.Text

def isGuidChar (c : Char) : Bool :=
  c.isDigit || ('a' ≤ c && c ≤ 'f') || ('A' ≤ c && c ≤ 'F') || c == '-'

def isStampSign (c : Char) : Bool := ['-', ':', 'T', '.', '+', 'Z'].contains c

def isStampChar (c : Char) : Bool := isDecimalDigit c || isStampSign c

theorem not_isDecimalDigit_of_isStampSign {c : Char} (h : isStampSign c) :
    isDecimalDigit c = false := by
  simp only [isStampSign, List.contains_iff_mem, List.mem_cons, List.not_mem_nil, or_false] at h
  rcases h with rfl | rfl | rfl | rfl | rfl | rfl <;> decide

theorem isGuidChar_of_hexDigit {c : Char} (h : (hexDigit? c).isSome) : isGuidChar c := by
  rw [hexDigit?, digit?] at h
  rw [isGuidChar]
  split_ifs at h with hlower hupper hdigit
  · simp [hlower]
  · simp [hupper]
  · simp [hdigit]
  · cases h

namespace Shape

theorem rest?_eq_some_iff {shape : Shape} {cs rest : List Char} :
    shape.rest? cs = some rest ↔
      ∃ front, cs = front ++ rest ∧ List.Forall₂ (fun p c => p c = true) shape front := by
  induction shape generalizing cs with
  | nil => simp [rest?]
  | cons p shape ih =>
    cases cs with
    | nil => simp [rest?]
    | cons c cs =>
      by_cases hp : p c
      · simp only [rest?, hp, if_true, ih]
        constructor
        · rintro ⟨front, rfl, hfront⟩
          exact ⟨c :: front, rfl, .cons hp hfront⟩
        · rintro ⟨front, hcs, hfront⟩
          cases hfront with
          | cons hd hrest =>
            obtain ⟨rfl, rfl⟩ := List.cons.inj hcs
            exact ⟨_, rfl, hrest⟩
      · simp only [rest?, hp, if_false, Bool.false_eq_true]
        refine iff_of_false (by simp) ?_
        rintro ⟨front, hcs, hfront⟩
        cases hfront with
        | cons hd hrest =>
          obtain ⟨rfl, rfl⟩ := List.cons.inj hcs
          exact hp hd

theorem fits_iff {shape : Shape} {cs : List Char} :
    (shape.rest? cs == some []) = true ↔ List.Forall₂ (fun p c => p c = true) shape cs := by
  simp [rest?_eq_some_iff]

/-- Whatever the shape has a place for is of the class. -/
def Within (shape : Shape) (isOfClass : Char → Bool) : Prop :=
  ∀ p ∈ shape, ∀ c, p c = true → isOfClass c = true

section Classes
variable {isOfClass : Char → Bool}

theorem within_append {first second : Shape} :
    Within (first ++ second) isOfClass ↔ first.Within isOfClass ∧ second.Within isOfClass :=
  List.forall_mem_append

theorem within_just {c : Char} : (just c).Within isOfClass ↔ isOfClass c := by
  simp [Within, just]

theorem within_digits (n : Nat) (h : ∀ c, isDecimalDigit c → isOfClass c) :
    (digits n).Within isOfClass := by
  intro p hp
  rwa [(List.mem_replicate.1 hp).2]

theorem Within.all_of_forall₂ {shape : Shape} (hw : shape.Within isOfClass) {cs : List Char}
    (h : List.Forall₂ (fun p c => p c = true) shape cs) : cs.all isOfClass := by
  induction h with
  | nil => rfl
  | cons hp _ ih =>
    obtain ⟨hclass, hrest⟩ := List.forall_mem_cons.1 hw
    rw [List.all_cons, hclass _ hp, ih hrest]
    rfl

theorem Within.all_of_rest? {shape : Shape} (hw : shape.Within isOfClass) {cs rest : List Char}
    (h : shape.rest? cs = some rest) (hrest : rest.all isOfClass) : cs.all isOfClass := by
  obtain ⟨front, rfl, hfront⟩ := rest?_eq_some_iff.1 h
  rw [List.all_append, hw.all_of_forall₂ hfront, hrest]
  rfl

end Classes

theorem within_guid : guid.Within isGuidChar := by
  have hhex : ∀ n, (hex n).Within isGuidChar := by
    intro n p hp c hc
    rw [(List.mem_replicate.1 hp).2] at hc
    exact isGuidChar_of_hexDigit hc
  have hdash : isGuidChar '-' = true := rfl
  simp only [guid, within_append, within_just, hhex, hdash, and_self]

theorem within_stamp : minute.Within isStampChar ∧ second.Within isStampChar ∧
    offset.Within isStampChar := by
  have hdigits : ∀ n, (digits n).Within isStampChar := by
    intro n
    refine within_digits n fun c hc => ?_
    rw [isStampChar, hc]
    rfl
  have hsigns : isStampChar '-' = true ∧ isStampChar 'T' = true ∧ isStampChar ':' = true := by
    decide
  simp only [minute, second, offset, within_append, within_just, hdigits, hsigns, and_self]

end Shape

theorem length_of_isGuid {cs : List Char} (h : isGuid cs) : cs.length = 36 :=
  (Shape.fits_iff.1 h).length_eq.symm

theorem all_isGuidChar_of_isGuid {cs : List Char} (h : isGuid cs) : cs.all isGuidChar :=
  Shape.within_guid.all_of_forall₂ (Shape.fits_iff.1 h)

theorem all_isStampChar_of_isOffset {cs : List Char} (h : isOffset cs) : cs.all isStampChar := by
  have hoffset : ∀ {rest : List Char}, (Shape.offset.rest? rest == some []) = true →
      rest.all isStampChar :=
    fun hfits => Shape.within_stamp.2.2.all_of_forall₂ (Shape.fits_iff.1 hfits)
  have hsigns : isStampChar 'Z' = true ∧ isStampChar '+' = true ∧ isStampChar '-' = true := by
    decide
  fun_cases isOffset cs with
  | case1 => simp [hsigns]
  | case2 cs => simpa [hsigns] using hoffset h
  | case3 cs => simpa [hsigns] using hoffset h
  | case4 => simp_all [isOffset]

theorem all_isStampChar_of_isFraction {cs : List Char} (h : isFraction cs) :
    cs.all isStampChar := by
  have hpoint : isStampChar '.' = true := by decide
  fun_cases isFraction cs with
  | case1 cs =>
    rw [isFraction, Bool.and_eq_true] at h
    have hdigits : (cs.takeWhile isDecimalDigit).all isStampChar := by
      rw [List.all_eq_true]
      intro c hc
      have hdigit := List.all_eq_true.1 List.all_takeWhile c hc
      rw [isStampChar, hdigit]
      rfl
    rw [List.all_cons, hpoint, ← @List.takeWhile_append_dropWhile _ isDecimalDigit cs,
      List.all_append, hdigits, all_isStampChar_of_isOffset h.2]
    rfl
  | case2 => simp_all [isFraction]

theorem all_isStampChar_of_isDateTime {cs : List Char} (h : isDateTime cs) :
    cs.all isStampChar := by
  obtain ⟨hminute, hsecond, -⟩ := Shape.within_stamp
  rw [isDateTime] at h
  split at h
  · cases h
  · next rest hrest =>
    refine hminute.all_of_rest? hrest ?_
    rcases Bool.or_eq_true_iff.1 h with ho | h
    · exact all_isStampChar_of_isOffset ho
    split at h
    · cases h
    · next rest hrest =>
      refine hsecond.all_of_rest? hrest ?_
      rcases Bool.or_eq_true_iff.1 h with ho | hf
      · exact all_isStampChar_of_isOffset ho
      · exact all_isStampChar_of_isFraction hf

end RequestUri.Text
