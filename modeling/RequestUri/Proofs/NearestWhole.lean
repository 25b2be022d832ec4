import Mathlib.Tactic.SplitIfs
import Mathlib.Tactic.Ring
import RequestUri.Numeral.Nearest
import RequestUri.Proofs.ShortestDecimal

/-! The double nearest to a whole number. From 2^63 to 2^64 it is the nearest multiple of 2048, and
the whole numbers that have the same nearest double are those between two midpoints. -/

namespace RequestUri.Numeral

/-- A quotient is rounded to `m` just if it is at most one half away; and if it is that far, `m` is
even. -/
theorem roundEven_eq_iff {den : Nat} (hden : 0 < den) (num m : Nat) :
    roundEven num den = m ↔
      if m % 2 = 0 then 2 * (m * den) ≤ 2 * num + den ∧ 2 * num ≤ 2 * (m * den) + den
      else 2 * (m * den) < 2 * num + den ∧ 2 * num < 2 * (m * den) + den := by
  have hdiv := Nat.div_add_mod' num den
  have hmod := Nat.mod_lt num hden
  rw [roundEven]
  generalize num / den = k at *
  generalize num % den = r at *
  have hbelow : m < k → m * den + den ≤ k * den := by
    intro h
    have hle := Nat.mul_le_mul_right den h
    rwa [Nat.succ_mul] at hle
  have habove : k + 1 < m → k * den + den + den ≤ m * den := by
    intro h
    have hle := Nat.mul_le_mul_right den h
    rwa [Nat.succ_mul, Nat.succ_mul] at hle
  have hnext : m = k + 1 → m * den = k * den + den := by
    rintro rfl
    exact Nat.succ_mul k den
  have hsame : m = k → m * den = k * den := by
    rintro rfl
    rfl
  split_ifs <;> omega

theorem le_roundEven {num den low : Nat} (hden : 0 < den) (h : low * den ≤ num) :
    low ≤ roundEven num den := by
  have hk : low ≤ num / den := (Nat.le_div_iff_mul_le hden).2 h
  rw [roundEven]
  split_ifs <;> omega

theorem roundEven_le {num den high : Nat} (hden : 0 < den) (h : num ≤ high * den) :
    roundEven num den ≤ high := by
  have hdiv := Nat.div_add_mod' num den
  have hk : num / den ≤ high := Nat.div_le_of_le_mul (by rwa [Nat.mul_comm])
  have htop : num / den = high → num % den = 0 := by
    rintro rfl
    omega
  rw [roundEven]
  split_ifs <;> omega

theorem twoTo_add (a b : Nat) : twoTo (a + b) = twoTo a * twoTo b := Nat.pow_add 2 a b

namespace BinaryFormat

theorem twoTo_fractionBits : twoTo double.fractionBits = 0x10000000000000 := rfl

theorem minExponent_double : double.minExponent = -1074 := rfl

theorem infinityBits_double : double.infinityBits = 0x7FF0000000000000 := rfl

/-- The first 53 bits of a whole number, rounded. -/
def significand (x : Nat) : Nat :=
  roundEven (x * twoTo (52 - x.log2)) (twoTo (x.log2 - 52))

theorem binaryExponent_whole {x : Nat} (hx : x ≠ 0) : binaryExponent x 1 = x.log2 := by
  have hle : twoTo x.log2 ≤ x := Nat.log2_self_le hx
  have hone : Nat.log2 1 = 0 := rfl
  have hneg : (-((x.log2 : Int) - (0 : Nat))).toNat = 0 := by omega
  have hnat : ((x.log2 : Int) - (0 : Nat)).toNat = x.log2 := by omega
  have hzero : twoTo 0 = 1 := rfl
  rw [binaryExponent, hone, hneg, hnat, hzero, if_neg (by omega)]
  omega

theorem nearest?_whole {x : Nat} (hx : x ≠ 0) : double.nearest? x 1 =
    if (x.log2 + 1022) * 0x10000000000000 + significand x < 0x7FF0000000000000 then
      some ((x.log2 + 1022) * 0x10000000000000 + significand x) else none := by
  have hfraction : double.fractionBits = 52 := rfl
  have hq : max (binaryExponent x 1 - double.fractionBits) (-1074) = (x.log2 : Int) - 52 := by
    rw [binaryExponent_whole hx, hfraction]
    omega
  have hneg : (-((x.log2 : Int) - 52)).toNat = 52 - x.log2 := by omega
  have hnat : ((x.log2 : Int) - 52).toNat = x.log2 - 52 := by omega
  have hexp : ((x.log2 : Int) - 52 - -1074).toNat = x.log2 + 1022 := by omega
  rw [nearest?, if_neg hx, minExponent_double, hq, infinityBits_double, twoTo_fractionBits]
  dsimp only
  rw [hneg, hnat, hexp, Nat.one_mul, ← significand]

theorem significand_bounds {x : Nat} (hx : x ≠ 0) :
    0x10000000000000 ≤ significand x ∧ significand x ≤ 0x20000000000000 := by
  have hle : twoTo x.log2 ≤ x := Nat.log2_self_le hx
  have hlt : x < twoTo (x.log2 + 1) := Nat.lt_log2_self
  have h52 : twoTo 52 = 0x10000000000000 := rfl
  have hone : twoTo 0 = 1 ∧ twoTo 1 = 2 := ⟨rfl, rfl⟩
  rw [twoTo_add, hone.2] at hlt
  by_cases hb : 52 ≤ x.log2
  · have hsplit : twoTo x.log2 = 0x10000000000000 * twoTo (x.log2 - 52) := by
      rw [← h52, ← twoTo_add, Nat.add_sub_cancel' hb]
    have hzero : 52 - x.log2 = 0 := by omega
    rw [significand, hzero, hone.1]
    constructor
    · exact le_roundEven (twoTo_pos _) (by omega)
    · exact roundEven_le (twoTo_pos _) (by omega)
  · have hsplit : twoTo x.log2 * twoTo (52 - x.log2) = 0x10000000000000 := by
      rw [← h52, ← twoTo_add, Nat.add_sub_cancel' (by omega)]
    have hzero : x.log2 - 52 = 0 := by omega
    have hlow := Nat.mul_le_mul_right (twoTo (52 - x.log2)) hle
    have hhigh := Nat.mul_le_mul_right (twoTo (52 - x.log2)) hlt.le
    rw [Nat.mul_right_comm] at hhigh
    rw [significand, hzero, hone.1]
    constructor
    · exact le_roundEven Nat.one_pos (by omega)
    · exact roundEven_le Nat.one_pos (by omega)

theorem bits_bounds {x bits : Nat} (hx : x ≠ 0) (h : double.nearest? x 1 = some bits) :
    (x.log2 + 1023) * 0x10000000000000 ≤ bits ∧ bits ≤ (x.log2 + 1024) * 0x10000000000000 := by
  have hs := significand_bounds hx
  rw [nearest?_whole hx] at h
  generalize significand x = s at hs h
  split at h
  · have hbits := Option.some.inj h
    exact ⟨by omega, by omega⟩
  · simp at h

theorem nearest?_of_log2 {x k : Nat} (hx : x ≠ 0) (hk : x.log2 = 52 + k) (hlt : k < 971) :
    double.nearest? x 1 =
      some ((1074 + k) * 0x10000000000000 + roundEven x (twoTo k)) := by
  have hs := significand_bounds hx
  have hround : significand x = roundEven x (twoTo k) := by
    have hzero : 52 - (52 + k) = 0 := by omega
    have hone : twoTo 0 = 1 := rfl
    rw [significand, hk, hzero, hone, Nat.mul_one, Nat.add_sub_cancel_left]
  have hexp : 52 + k + 1022 = 1074 + k := by omega
  rw [nearest?_whole hx, hk, hexp, if_pos (by omega), hround]

theorem decode_normal {m k bits : Nat} (hlow : 0x10000000000000 ≤ m) (hhigh : m < 0x20000000000000)
    (hk : k < 971) (hbits : bits = (1074 + k) * 0x10000000000000 + m) :
    double.decode bits = .finite false m k := by
  have hsign : double.signBit = 0x8000000000000000 := rfl
  have hrest : bits % 0x8000000000000000 = bits := Nat.mod_eq_of_lt (by omega)
  have hexponent : bits / 0x10000000000000 = k + 1075 := by omega
  have hm : bits % 0x10000000000000 + 0x10000000000000 = m := by omega
  rw [decode, hsign, hrest, infinityBits_double, if_pos (by omega), magnitude, twoTo_fractionBits,
    hexponent, hm, minExponent_double, if_neg (by omega)]
  have hpositive : decide (0x8000000000000000 ≤ bits) = false := decide_eq_false (by omega)
  have hplace : (-1074 : Int) + (k + 1075 - 1 : Nat) = k := by omega
  dsimp only
  rw [hpositive, hplace]

end BinaryFormat

open BinaryFormat (double)

def SameDouble (x n : Nat) : Prop := double.nearest? x 1 = double.nearest? n 1

/-- The midpoints around m · 2048. The gap below 2^63 is half as wide as that above it, and the gap
above 2^64 is twice as wide as that below it. -/
def topBracket (m : Nat) : Bracket where
  low := if m = 0x10000000000000 then 4 * m - 1 else 4 * m - 2
  value := 4 * m
  high := if m = 0x20000000000000 then 4 * m + 4 else 4 * m + 2
  closed := m % 2 = 0
  q := 9

/-- The multiple of 2048 nearest to `n`, which is the value of its nearest double. -/
def topDouble (n : Nat) : Nat := roundEven n 2048 * 2048

/-- The nearest double is m · 2^k, and what is read as it is what its bracket admits. -/
structure IsNearest (n m k : Nat) : Prop where
  decode : ∀ bits, double.nearest? n 1 = some bits → double.decode bits = .finite false m k
  value : m * twoTo k = topDouble n
  normal : 0x10000000000000 ≤ m ∧ m < 0x20000000000000
  place : k = 11 ∨ k = 12
  admits : ∀ x, SameDouble x n ↔ (double.bracket m k).Admits (twoTo (k - 2)) x

section Top
variable {n : Nat} (hlo : 0x8000000000000000 ≤ n) (hhi : n < 0x10000000000000000)
include hlo hhi

/-- Between 2^63 and 2^64 the doubles are the multiples of 2048. -/
theorem nearest?_top :
    double.nearest? n 1 = some ((1074 + 11) * 0x10000000000000 + roundEven n 2048) := by
  have hlog : n.log2 = 52 + 11 := (Nat.log2_eq_iff (by omega)).2 ⟨by omega, by omega⟩
  have hunit : twoTo 11 = 2048 := rfl
  rw [BinaryFormat.nearest?_of_log2 (by omega) hlog (by omega), hunit]

theorem roundEven_top :
    0x10000000000000 ≤ roundEven n 2048 ∧ roundEven n 2048 ≤ 0x20000000000000 :=
  ⟨le_roundEven (by decide) (by omega), roundEven_le (by decide) (by omega)⟩

theorem sameDouble_top_iff_of_log2 {x k : Nat} (hk : k < 971) (hle : twoTo (52 + k) ≤ x)
    (hlt : x < twoTo (52 + (k + 1))) : SameDouble x n ↔
      (1074 + k) * 0x10000000000000 + roundEven x (twoTo k) =
        (1074 + 11) * 0x10000000000000 + roundEven n 2048 := by
  have hx : x ≠ 0 := by
    have hpos := twoTo_pos (52 + k)
    omega
  have hlog : x.log2 = 52 + k := (Nat.log2_eq_iff hx).2 ⟨hle, hlt⟩
  rw [SameDouble, nearest?_top hlo hhi, BinaryFormat.nearest?_of_log2 hx hlog hk,
    Option.some.injEq]

theorem SameDouble.bounds {x : Nat} (h : SameDouble x n) :
    0x4000000000000000 ≤ x ∧ x < 0x20000000000000000 := by
  have htop := roundEven_top hlo hhi
  rw [SameDouble, nearest?_top hlo hhi] at h
  generalize roundEven n 2048 = m at htop h
  by_cases hx : x = 0
  · have hzero : double.nearest? 0 1 = some 0 := rfl
    rw [hx, hzero, Option.some.injEq] at h
    omega
  · have hbits := BinaryFormat.bits_bounds hx h
    constructor
    · by_contra hlt
      have hlog : x.log2 < 62 := (Nat.log2_lt hx).2 (Nat.not_le.1 hlt)
      omega
    · exact (Nat.log2_lt (k := 65) hx).1 (by omega)

theorem sameDouble_below {x : Nat} (hle : 0x4000000000000000 ≤ x) (hlt : x < 0x8000000000000000) :
    SameDouble x n ↔ roundEven x 1024 = 0x10000000000000 + roundEven n 2048 := by
  have hunit : twoTo 10 = 1024 := rfl
  rw [sameDouble_top_iff_of_log2 hlo hhi (k := 10) (by decide) hle hlt, hunit]
  omega

theorem sameDouble_within {x : Nat} (hle : 0x8000000000000000 ≤ x)
    (hlt : x < 0x10000000000000000) :
    SameDouble x n ↔ roundEven x 2048 = roundEven n 2048 := by
  have hunit : twoTo 11 = 2048 := rfl
  rw [sameDouble_top_iff_of_log2 hlo hhi (k := 11) (by decide) hle hlt, hunit]
  omega

theorem sameDouble_above {x : Nat} (hle : 0x10000000000000000 ≤ x)
    (hlt : x < 0x20000000000000000) : SameDouble x n ↔
      roundEven n 2048 = 0x20000000000000 ∧ roundEven x 4096 = 0x10000000000000 := by
  have hunit : twoTo 12 = 4096 := rfl
  have hlow : 0x10000000000000 ≤ roundEven x 4096 := le_roundEven (by decide) (by omega)
  have htop := (roundEven_top hlo hhi).2
  rw [sameDouble_top_iff_of_log2 hlo hhi (k := 12) (by decide) hle hlt, hunit]
  omega

theorem sameDouble_iff_admits (x : Nat) :
    SameDouble x n ↔ (topBracket (roundEven n 2048)).Admits 512 x := by
  have htop := roundEven_top hlo hhi
  have hbounds := fun h : SameDouble x n => h.bounds hlo hhi
  have hbelow := sameDouble_below hlo hhi (x := x)
  have hwithin := sameDouble_within hlo hhi (x := x)
  have habove := sameDouble_above hlo hhi (x := x)
  simp only [Bracket.Admits, topBracket, decide_eq_true_eq]
  generalize roundEven n 2048 = m at *
  -- the grid that `x` is rounded to depends on how many bits it has
  by_cases h62 : x < 0x4000000000000000
  · constructor
    · intro h
      have hle := (hbounds h).1
      omega
    · split_ifs <;> omega
  by_cases h63 : x < 0x8000000000000000
  · rw [hbelow (by omega) h63, roundEven_eq_iff (by decide)]
    split_ifs <;> omega
  by_cases h64 : x < 0x10000000000000000
  · rw [hwithin (by omega) h64, roundEven_eq_iff (by decide)]
    split_ifs <;> omega
  by_cases h65 : x < 0x20000000000000000
  · rw [habove (by omega) h65, roundEven_eq_iff (by decide)]
    split_ifs <;> omega
  · constructor
    · intro h
      have hlt := (hbounds h).2
      omega
    · split_ifs <;> omega

theorem isNearest_of_lt (hm : roundEven n 2048 < 0x20000000000000) :
    IsNearest n (roundEven n 2048) 11 := by
  have hmin : double.minExponent < 11 := by decide
  have htop := roundEven_top hlo hhi
  refine ⟨fun bits h => ?_, rfl, ⟨htop.1, hm⟩, .inl rfl, fun x => ?_⟩
  · rw [nearest?_top hlo hhi, Option.some.injEq] at h
    exact BinaryFormat.decode_normal htop.1 hm (by decide) h.symm
  · have hunit : twoTo (11 - 2) = 512 := rfl
    rw [sameDouble_iff_admits hlo hhi, hunit]
    simp only [Bracket.Admits, topBracket, BinaryFormat.bracket,
      BinaryFormat.twoTo_fractionBits, Nat.cast_ofNat, hmin, and_true, hm.ne, if_false]

theorem isNearest_of_eq (hm : roundEven n 2048 = 0x20000000000000) :
    IsNearest n 0x10000000000000 12 := by
  have hmin : double.minExponent < 12 := by decide
  refine ⟨fun bits h => ?_, ?_, by decide, .inr rfl, fun x => ?_⟩
  · rw [nearest?_top hlo hhi, Option.some.injEq, hm] at h
    rw [← h]
    rfl
  · have hunit : twoTo 12 = 4096 := rfl
    rw [topDouble, hm, hunit]
  · have hunit : twoTo (12 - 2) = 1024 := rfl
    rw [sameDouble_iff_admits hlo hhi, hunit, hm]
    simp [Bracket.Admits, topBracket, BinaryFormat.bracket, BinaryFormat.twoTo_fractionBits, hmin]

theorem exists_isNearest : ∃ m k, IsNearest n m k := by
  by_cases hm : roundEven n 2048 < 0x20000000000000
  · exact ⟨_, _, isNearest_of_lt hlo hhi hm⟩
  · have hle := (roundEven_top hlo hhi).2
    exact ⟨_, _, isNearest_of_eq hlo hhi (by omega)⟩

end Top

namespace IsNearest
variable {n m k : Nat} (h : IsNearest n m k)
include h

theorem powerAbove_eq : powerAbove m k = 21 := by
  have hlog : m.log2 = 52 := (Nat.log2_eq_iff (by have := h.normal; omega)).2 h.normal
  have hk := h.place
  rw [powerAbove, hlog]
  omega

theorem isProper : (double.bracket m k).IsProper := by
  have hm := h.normal
  constructor
  · simp only [BinaryFormat.bracket]
    split <;> omega
  · simp only [BinaryFormat.bracket]
    omega

theorem bracket_value : (double.bracket m k).value * twoTo (k - 2) = topDouble n := by
  have hk : k = 2 + (k - 2) := by
    have hplace := h.place
    omega
  have hfour : twoTo 2 = 4 := rfl
  have hvalue : (double.bracket m k).value = 4 * m := rfl
  rw [← h.value, hvalue]
  nth_rewrite 2 [hk]
  rw [twoTo_add, hfour]
  ring

/-- Near the double there is a multiple of 1000, since 1000 is less than half the gap above it. -/
theorem exists_thousands : ∃ x, SameDouble x n ∧ 1000 ∣ x := by
  have hlow := Nat.mul_le_mul_right (twoTo (k - 2)) h.isProper.low_lt.le
  have hvalue := h.bracket_value
  have hhigh : (double.bracket m k).high * twoTo (k - 2) = topDouble n + 2 * twoTo (k - 2) := by
    rw [← hvalue, ← Nat.add_mul]
    rfl
  have hunit : 512 ≤ twoTo (k - 2) := by
    rcases h.place with rfl | rfl <;> decide
  -- the next multiple above the double, which is less than two quarters away
  refine ⟨1000 * (topDouble n / 1000 + 1), (h.admits _).2 ?_, Nat.dvd_mul_right ..⟩
  exact Bracket.admits_of_lt (by omega) (by omega)

/-- The digits of the nearest double are the shortest that are read as it, and they are at least
three places short of the number. -/
theorem shortest_spec (hlo : 0x8000000000000000 ≤ n) (hhi : n < 0x10000000000000000) :
    ∃ d g, double.shortest .up m k = (d, ((g : Nat) : Int)) ∧ 1000 ∣ d * tenTo g ∧
      IsShortest (SameDouble · n) (topDouble n) (d * tenTo g) := by
  have hm : m ≠ 0 := by
    have hle := h.normal.1
    omega
  have hq : (double.bracket m k).q.toNat = k - 2 := by
    simp only [BinaryFormat.bracket]
    omega
  have hpos : 0 ≤ (double.bracket m k).q := by
    have hk := h.place
    simp only [BinaryFormat.bracket]
    omega
  have hadmits :
      (double.bracket m k).Admits (twoTo (double.bracket m k).q.toNat) = (SameDouble · n) := by
    funext x
    rw [hq, h.admits]
  have htop : ∀ y, (double.bracket m k).Admits (twoTo (double.bracket m k).q.toNat) y →
      ¬ tenTo (21 + 1) ∣ y := by
    intro y hy hdvd
    rw [hadmits] at hy
    have hbounds := hy.bounds hlo hhi
    have hle : 10000000000000000000000 ≤ y := Nat.le_of_dvd (by omega) hdvd
    omega
  obtain ⟨x, hx, hdvd⟩ := h.exists_thousands
  have hthousand : tenTo 3 ∣ x := hdvd
  obtain ⟨d, g, hsearch, hshort⟩ := Bracket.isShortest_search h.isProper hpos
    (by rw [hadmits]; exact hx) hthousand (by decide : 3 ≤ 21) (by decide : 21 < 24) htop
  rw [hadmits, hq, h.bracket_value] at hshort
  refine ⟨d, g, ?_, hshort.dvd hx hthousand, hshort⟩
  rw [BinaryFormat.shortest, if_neg hm, h.powerAbove_eq]
  exact hsearch

end IsNearest

end RequestUri.Numeral
