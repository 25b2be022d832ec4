import RequestUri.Document.Field
import RequestUri.Proofs.NearestWhole

/-! Whole numbers of documents and their texts. Above the numbers of 63 bits they are taken for
doubles, and the text is that of the shortest number which is read as the same double. -/

namespace RequestUri.Numeral

open BinaryFormat (double)

theorem toDigits_tenTo {k : Nat} (hk : 0 < k) (g : Nat) :
    Nat.toDigits 10 (k * tenTo g) = Nat.toDigits 10 k ++ List.replicate g '0' := by
  induction g with
  | zero =>
    have hone : tenTo 0 = 1 := rfl
    simp [hone]
  | succ g ih =>
    have hten : k * tenTo (g + 1) = k * tenTo g * 10 := (Nat.mul_assoc ..).symm
    have hpos := Nat.mul_pos hk (tenTo_pos g)
    have hzero : Nat.digitChar 0 = '0' := rfl
    rw [Nat.toDigits_eq_if (by decide), if_neg (by omega), hten, Nat.mul_div_cancel _ (by decide),
      Nat.mul_mod_left, ih, hzero, List.append_assoc, List.replicate_succ']

theorem decimal_whole {k : Nat} (hk : 0 < k) (g : Nat) :
    Literal.numberLayout.decimal k g = toString (k * tenTo g) := by
  have htext : toString (k * tenTo g) = String.ofList (Nat.toDigits 10 (k * tenTo g)) := rfl
  rw [htext, toDigits_tenTo hk, String.ofList_append]
  simp [Layout.decimal, Literal.numberLayout, zeroDigits]

theorem eq_of_toString_eq {x y : Nat} (h : toString x = toString y) : x = y := by
  have hread := congrArg (fun s : String => Nat.ofDigitChars 10 s.toList 0) h
  simpa [Nat.toList_repr] using hread

end RequestUri.Numeral

namespace RequestUri.Document

open Numeral (topDouble SameDouble IsShortest)

section Top
variable {n : Nat} (hlo : 0x8000000000000000 ≤ n) (hhi : n < 0x10000000000000000)
include hlo hhi

theorem toNat_doubleBits :
    (Json.Number.whole n).doubleBits.toNat =
      (1074 + 11) * 0x10000000000000 + Numeral.roundEven n 2048 := by
  have hround := Numeral.roundEven_top hlo hhi
  have hsign : ¬ (n : Int) < 0 := by omega
  have hsize : UInt64.size = 0x10000000000000000 := rfl
  simp only [Json.Number.doubleBits, Int.natAbs_natCast, Numeral.nearest?_top hlo hhi,
    Option.getD_some, if_neg hsign, Nat.add_zero, Nat.toUInt64_eq]
  exact UInt64.toNat_ofNat_of_lt' (by omega)

theorem text_doubleBits :
    ∃ w, (Literal.double (Json.Number.whole n).doubleBits).text = toString w ∧ 1000 ∣ w ∧
      IsShortest (SameDouble · n) (topDouble n) w := by
  obtain ⟨m, k, h⟩ := Numeral.exists_isNearest hlo hhi
  obtain ⟨d, g, hshortest, hdvd, hw⟩ := h.shortest_spec hlo hhi
  have hpos : 0 < d := by
    have hbounds := (hw.reads.bounds hlo hhi).1
    exact Nat.pos_of_mul_pos_right (Nat.lt_of_lt_of_le (by decide) hbounds)
  have hsign : Numeral.Layout.sign false = "" := rfl
  have htie : Literal.numberLayout.tie = .up := rfl
  refine ⟨d * Numeral.tenTo g, ?_, hdvd, hw⟩
  rw [Literal.text, Literal.binaryText, toNat_doubleBits hlo hhi,
    h.decode _ (Numeral.nearest?_top hlo hhi)]
  dsimp only
  rw [Numeral.Layout.finite, htie, hshortest]
  dsimp only
  rw [hsign, String.empty_append, Numeral.decimal_whole hpos]

end Top

/-- Documents have whole numbers from -2^63 to 2^64. They take the smallest signed type that holds
them, and have their own digits up to 2^63. From there on they have the digits of the shortest
number that is read as the same double, which ends in three zeros at least. -/
theorem whole_text_exact_iff (n : Int) (hlo : -0x8000000000000000 ≤ n)
    (hhi : n < 0x10000000000000000) :
    ∃ v, literal (.number (.whole n)) = .ok v ∧
      ((∃ k, v = .int32 k) ↔ -0x80000000 ≤ n ∧ n < 0x80000000) ∧
      ((∃ k, v = .int64 k) ↔ ¬ (-0x80000000 ≤ n ∧ n < 0x80000000) ∧ n < 0x8000000000000000) ∧
      (0x8000000000000000 ≤ n → ∃ w, v.text = toString w ∧ 1000 ∣ w ∧
        IsShortest (SameDouble · n.toNat) (topDouble n.toNat) w) ∧
      (v.text = toString n ↔ n < 0x8000000000000000 ∨
        IsShortest (SameDouble · n.toNat) (topDouble n.toNat) n.toNat) := by
  refine ⟨number (.whole n), rfl, ?_⟩
  rw [number]
  by_cases h32 : -0x80000000 ≤ n ∧ n < 0x80000000
  · have htext : (Int32.ofInt n).toInt = n := Int32.toInt_ofInt_of_le (by omega) (by omega)
    rw [if_pos h32]
    refine ⟨by simp [h32], by simp [h32], fun h => by omega, fun _ => .inl (by omega), fun _ => ?_⟩
    rw [Literal.text, htext]
  · rw [if_neg h32]
    by_cases h64 : n < 0x8000000000000000
    · have htext : (Int64.ofInt n).toInt = n := Int64.toInt_ofInt_of_le (by omega) (by omega)
      rw [if_pos ⟨hlo, h64⟩]
      refine ⟨by simp [h32], by simp [h32, h64], fun h => by omega, fun _ => .inl h64, fun _ => ?_⟩
      rw [Literal.text, htext]
    · obtain ⟨k, rfl⟩ : ∃ k : Nat, n = k := ⟨n.toNat, by omega⟩
      obtain ⟨w, hw, hdvd, hshort⟩ := text_doubleBits (n := k) (by omega) (by omega)
      rw [if_neg (by omega), Int.toNat_natCast]
      refine ⟨⟨by rintro ⟨_, ⟨⟩⟩, fun h => absurd h h32⟩, by simp [h64],
        fun _ => ⟨w, hw, hdvd, hshort⟩, fun h => ?_, fun h => ?_⟩
      · have hwk : w = k := Numeral.eq_of_toString_eq (hw.symm.trans h)
        exact .inr (hwk ▸ hshort)
      · have hk := h.resolve_left h64
        rw [hw, hshort.unique hk]
        rfl

theorem greatestInt64_kept : ∃ v, literal (.number (.whole 9223372036854775807)) = .ok v ∧
    (∃ k, v = .int64 k) ∧ v.text = toString (9223372036854775807 : Int) := by
  obtain ⟨v, hv, -, hlong, -, htext⟩ :=
    whole_text_exact_iff 9223372036854775807 (by decide) (by decide)
  exact ⟨v, hv, hlong.2 (by decide), htext.2 (.inl (by decide))⟩

theorem greatestWhole_rounded : ∃ v, literal (.number (.whole 18446744073709551615)) = .ok v ∧
    v.text = "18446744073709552000" ∧ v.text ≠ toString (18446744073709551615 : Int) := by
  refine ⟨_, rfl, ?_, ?_⟩
  · decide +kernel
  · decide +kernel

end RequestUri.Document
