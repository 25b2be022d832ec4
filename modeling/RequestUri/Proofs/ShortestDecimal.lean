import Mathlib.Tactic.Ring
import RequestUri.Numeral.Shortest

/-! The search for the shortest decimal. It ends on the coarsest grid that has a point between the
midpoints around a binary number, and takes the nearest of the points there. -/

namespace RequestUri.Numeral

theorem twoTo_pos (n : Nat) : 0 < twoTo n := Nat.pow_pos (by decide)

theorem tenTo_pos (n : Nat) : 0 < tenTo n := Nat.pow_pos (by decide)

theorem tenTo_dvd {i j : Nat} (h : i ≤ j) : tenTo i ∣ tenTo j := Nat.pow_dvd_pow 10 h

def distance (x y : Nat) : Nat := x - y + (y - x)

/-- `x` is nearer to `v` than `y` is, or as near and not below it. -/
def IsPreferred (v x y : Nat) : Prop :=
  distance v x < distance v y ∨ distance v x = distance v y ∧ y ≤ x

theorem isPreferred_antisymm {v x y : Nat} (h : IsPreferred v x y) (h' : IsPreferred v y x) :
    x = y := by
  rw [IsPreferred] at h h'
  omega

theorem IsPreferred.trans {v x y z : Nat} (h : IsPreferred v x y) (h' : IsPreferred v y z) :
    IsPreferred v x z := by
  rw [IsPreferred] at *
  omega

section Points
variable {v step k : Nat}

theorem isPreferred_of_le (hv : k * step ≤ v) {i : Nat} (hi : i ≤ k) :
    IsPreferred v (k * step) (i * step) := by
  have hle := Nat.mul_le_mul_right step hi
  rw [IsPreferred, distance, distance]
  omega

theorem isPreferred_of_ge (hv : v ≤ (k + 1) * step) {i : Nat} (hi : k + 1 ≤ i) :
    IsPreferred v ((k + 1) * step) (i * step) := by
  have hle := Nat.mul_le_mul_right step hi
  rw [IsPreferred, distance, distance]
  omega

variable (hlow : k * step ≤ v) (hhigh : v < (k + 1) * step)
include hlow hhigh

theorem isPreferred_upper (h : k * step + (k + 1) * step ≤ 2 * v) :
    IsPreferred v ((k + 1) * step) (k * step) := by
  rw [IsPreferred, distance, distance]
  omega

theorem isPreferred_lower (h : 2 * v < k * step + (k + 1) * step) :
    IsPreferred v (k * step) ((k + 1) * step) := by
  rw [IsPreferred, distance, distance]
  omega

end Points

/-- Of the numbers with `P`, `w` ends in the most zeros; and of those that end in as many, none is
preferred to it as a number for `v`. -/
structure IsShortest (P : Nat → Prop) (v w : Nat) : Prop where
  reads : P w
  zeros : ∃ g, tenTo g ∣ w ∧ ∀ x, P x → ¬ tenTo (g + 1) ∣ x ∧ (tenTo g ∣ x → IsPreferred v w x)

namespace IsShortest
variable {P : Nat → Prop} {v w : Nat}

theorem dvd (h : IsShortest P v w) {g x : Nat} (hx : P x) (hg : tenTo g ∣ x) : tenTo g ∣ w := by
  obtain ⟨g', hw, hall⟩ := h.zeros
  by_cases hle : g ≤ g'
  · exact (tenTo_dvd hle).trans hw
  · exact absurd ((tenTo_dvd (Nat.not_le.1 hle)).trans hg) (hall x hx).1

theorem unique (h : IsShortest P v w) {w' : Nat} (h' : IsShortest P v w') : w = w' := by
  obtain ⟨g, hw, hall⟩ := h.zeros
  obtain ⟨g', hw', hall'⟩ := h'.zeros
  have hg : tenTo g ∣ w' := h'.dvd h.reads hw
  have hg' : tenTo g' ∣ w := h.dvd h'.reads hw'
  exact isPreferred_antisymm ((hall w' h'.reads).2 hg) ((hall' w h.reads).2 hg')

end IsShortest

namespace Bracket

structure IsProper (b : Bracket) : Prop where
  low_lt : b.low < b.value
  lt_high : b.value < b.high

/-- What is read back as the number, if a quarter of its last place is `unit`. -/
def Admits (b : Bracket) (unit x : Nat) : Prop :=
  if b.closed then b.low * unit ≤ x ∧ x ≤ b.high * unit
  else b.low * unit < x ∧ x < b.high * unit

variable {b : Bracket}

theorem holds_iff (g : Int) (k : Nat) :
    b.holds g k = true ↔ b.Admits (b.scale g).1 (k * (b.scale g).2) := by
  rw [holds, Admits]
  cases b.closed <;> simp

theorem scale_pos (g : Int) : 0 < (b.scale g).1 ∧ 0 < (b.scale g).2 :=
  ⟨Nat.mul_pos (twoTo_pos _) (tenTo_pos _), Nat.mul_pos (twoTo_pos _) (tenTo_pos _)⟩

theorem admits_of_lt {unit x : Nat} (hlow : b.low * unit < x) (hhigh : x < b.high * unit) :
    b.Admits unit x := by
  rw [Admits]
  split <;> omega

section Admits
variable (hb : b.IsProper) {unit x y : Nat} (hu : 0 < unit) (h : b.Admits unit x)
include hb hu h

theorem admits_of_le (hxy : x ≤ y) (hy : y ≤ b.value * unit) : b.Admits unit y := by
  have hhigh := Nat.mul_lt_mul_of_pos_right hb.lt_high hu
  cases hc : b.closed with
  | true =>
    simp only [Admits, hc, if_true] at h ⊢
    omega
  | false =>
    simp only [Admits, hc, if_false, Bool.false_eq_true] at h ⊢
    omega

theorem admits_of_ge (hxy : y ≤ x) (hy : b.value * unit ≤ y) : b.Admits unit y := by
  have hlow := Nat.mul_lt_mul_of_pos_right hb.low_lt hu
  cases hc : b.closed with
  | true =>
    simp only [Admits, hc, if_true] at h ⊢
    omega
  | false =>
    simp only [Admits, hc, if_false, Bool.false_eq_true] at h ⊢
    omega

end Admits

section Neighbours
variable (hb : b.IsProper) (g : Int)

theorem below_spec : b.below g * (b.scale g).2 ≤ b.value * (b.scale g).1 ∧
    b.value * (b.scale g).1 < (b.below g + 1) * (b.scale g).2 := by
  have hdiv := Nat.div_add_mod (b.value * (b.scale g).1) (b.scale g).2
  have hmod := Nat.mod_lt (b.value * (b.scale g).1) (b.scale_pos g).2
  have hbelow : b.below g = b.value * (b.scale g).1 / (b.scale g).2 := rfl
  rw [hbelow, Nat.add_mul, Nat.mul_comm _ (b.scale g).2]
  omega

theorem neighbour?_up : b.neighbour? .up g =
    if b.holds g (b.below g) then
      if b.holds g (b.below g + 1) ∧
          (2 * b.below g + 1) * (b.scale g).2 ≤ 2 * b.value * (b.scale g).1 then
        some (b.below g + 1)
      else some (b.below g)
    else if b.holds g (b.below g + 1) then some (b.below g + 1) else none := by
  cases hl : b.holds g (b.below g) with
  | false => cases hr : b.holds g (b.below g + 1) <;> simp [neighbour?, hl, hr]
  | true =>
    cases hr : b.holds g (b.below g + 1) with
    | false => simp [neighbour?, hl, hr]
    | true =>
      by_cases hle : (2 * b.below g + 1) * (b.scale g).2 ≤ 2 * b.value * (b.scale g).1
      · simp [neighbour?, hl, hr, hle, Nat.not_lt.2 hle]
      · simp [neighbour?, hl, hr, hle, Nat.not_le.1 hle]

include hb

theorem holds_below {k : Nat} (h : b.holds g k = true) (hk : k ≤ b.below g) :
    b.holds g (b.below g) = true := by
  rw [holds_iff] at h ⊢
  exact admits_of_le hb (b.scale_pos g).1 h (Nat.mul_le_mul_right _ hk) (b.below_spec g).1

theorem holds_above {k : Nat} (h : b.holds g k = true) (hk : b.below g < k) :
    b.holds g (b.below g + 1) = true := by
  rw [holds_iff] at h ⊢
  exact admits_of_ge hb (b.scale_pos g).1 h (Nat.mul_le_mul_right _ hk) (b.below_spec g).2.le

/-- A grid without a neighbour has no point at all that is read back. -/
theorem holds_eq_false (h : b.neighbour? .up g = none) (k : Nat) : b.holds g k = false := by
  rw [neighbour?_up] at h
  by_contra hk
  rw [Bool.not_eq_false] at hk
  by_cases hle : k ≤ b.below g
  · rw [if_pos (holds_below hb g hk hle)] at h
    split at h <;> simp at h
  · rw [if_pos (holds_above hb g hk (Nat.not_le.1 hle))] at h
    split at h
    · split at h <;> simp at h
    · simp at h

/-- A neighbour is read back, and no other point of the grid is to be preferred. -/
theorem neighbour?_spec {k : Nat} (h : b.neighbour? .up g = some k) :
    b.holds g k = true ∧ ∀ i, b.holds g i = true →
      IsPreferred (b.value * (b.scale g).1) (k * (b.scale g).2) (i * (b.scale g).2) := by
  obtain ⟨hlow, hhigh⟩ := b.below_spec g
  have hdouble : (2 * b.below g + 1) * (b.scale g).2 =
      b.below g * (b.scale g).2 + (b.below g + 1) * (b.scale g).2 := by ring
  rw [neighbour?_up, Nat.mul_assoc, hdouble] at h
  by_cases hbelow : b.holds g (b.below g) = true
  · rw [if_pos hbelow] at h
    split at h
    · next hc =>
      cases h
      refine ⟨hc.1, fun i _ => ?_⟩
      by_cases hi : i ≤ b.below g
      · exact (isPreferred_upper hlow hhigh hc.2).trans (isPreferred_of_le hlow hi)
      · exact isPreferred_of_ge hhigh.le (Nat.not_le.1 hi)
    · next hc =>
      cases h
      refine ⟨hbelow, fun i hin => ?_⟩
      by_cases hi : i ≤ b.below g
      · exact isPreferred_of_le hlow hi
      · have hi := Nat.not_le.1 hi
        have hmiddle := Nat.not_le.1 fun hle => hc ⟨holds_above hb g hin hi, hle⟩
        exact (isPreferred_lower hlow hhigh hmiddle).trans (isPreferred_of_ge hhigh.le hi)
  · rw [if_neg hbelow] at h
    split at h
    · next habove =>
      cases h
      refine ⟨habove, fun i hin => isPreferred_of_ge hhigh.le ?_⟩
      by_contra hi
      exact hbelow (holds_below hb g hin (Nat.not_lt.1 hi))
    · cases h

end Neighbours

section Search
variable (hb : b.IsProper)
include hb

/-- The search ends on the first grid that has a point which is read back. -/
theorem search_spec {n i : Nat} (hi : i < n) {g : Int} (h : ∃ k, b.holds (g - i) k = true) :
    ∃ k j, j ≤ i ∧ b.search .up n g = (k, g - (j : Nat)) ∧
      b.neighbour? .up (g - (j : Nat)) = some k ∧
        ∀ m < j, ∀ k, b.holds (g - (m : Nat)) k = false := by
  induction n generalizing g i with
  | zero => omega
  | succ n ih =>
    cases hg : b.neighbour? .up g with
    | some k => exact ⟨k, 0, Nat.zero_le i, by simp [search, hg], by simpa using hg, by simp⟩
    | none =>
      have hfalse := holds_eq_false hb g hg
      cases i with
      | zero =>
        obtain ⟨k, hk⟩ := h
        simp [hfalse k] at hk
      | succ i =>
        have hstep : ∀ m : Nat, g - 1 - m = g - (m + 1 : Nat) := by
          intro m
          omega
        obtain ⟨k, j, hj, hs, hk, hbefore⟩ :=
          ih (g := g - 1) (i := i) (by omega) (by rw [hstep]; exact h)
        refine ⟨k, j + 1, by omega, ?_, ?_, ?_⟩
        · rw [search, hg, ← hstep]
          exact hs
        · rw [← hstep]
          exact hk
        · intro m hm
          cases m with
          | zero => simpa using hfalse
          | succ m =>
            rw [← hstep]
            exact hbefore m (by omega)

variable (hq : 0 ≤ b.q)

omit hb in
include hq in
theorem scale_whole (g : Nat) : b.scale g = (twoTo b.q.toNat, tenTo g) := by
  have hneg : (-b.q).toNat = 0 := by omega
  have hzero : (-(g : Int)).toNat = 0 := by omega
  have hone : twoTo 0 = 1 ∧ tenTo 0 = 1 := ⟨rfl, rfl⟩
  simp [scale, hneg, hzero, hone]

include hq

/-- Among whole numbers, the search finds the shortest one that is read back. -/
theorem isShortest_search {n start g x : Nat} (hx : b.Admits (twoTo b.q.toNat) x)
    (hg : tenTo g ∣ x) (hle : g ≤ start) (hn : start < n)
    (htop : ∀ y, b.Admits (twoTo b.q.toNat) y → ¬ tenTo (start + 1) ∣ y) :
    ∃ k g, b.search .up n start = (k, ((g : Nat) : Int)) ∧
      IsShortest (b.Admits (twoTo b.q.toNat)) (b.value * twoTo b.q.toNat) (k * tenTo g) := by
  have hholds : ∀ g k : Nat, b.holds g k = true ↔ b.Admits (twoTo b.q.toNat) (k * tenTo g) := by
    intro g k
    rw [holds_iff, scale_whole hq]
  have hsub : ∀ j ≤ start, (start : Int) - (j : Nat) = ((start - j : Nat) : Int) := by
    intro j hj
    omega
  obtain ⟨c, rfl⟩ := hg
  have hstart : ∃ k, b.holds (start - (start - g : Nat)) k = true := by
    refine ⟨c, ?_⟩
    rw [hsub _ (Nat.sub_le start g), Nat.sub_sub_self hle, hholds, Nat.mul_comm]
    exact hx
  obtain ⟨k, j, hj, hsearch, hk, hbefore⟩ :=
    search_spec hb (n := n) (i := start - g) (by omega) hstart
  have hjs : j ≤ start := by omega
  rw [hsub j hjs] at hsearch hk
  obtain ⟨hread, hpreferred⟩ := neighbour?_spec hb _ hk
  rw [scale_whole hq] at hpreferred
  refine ⟨k, start - j, hsearch, (hholds _ k).1 hread, start - j, Nat.dvd_mul_left _ _, ?_⟩
  intro y hy
  constructor
  · -- the next coarser grid was tried before, or it is above all that is read back
    rintro ⟨d, rfl⟩
    cases j with
    | zero => exact htop _ hy (Nat.dvd_mul_right _ _)
    | succ j =>
      have hfalse := hbefore j (Nat.lt_succ_self j) d
      have hgrid : start - (j + 1) + 1 = start - j := by omega
      rw [hgrid, Nat.mul_comm, ← hholds, ← hsub j (by omega), hfalse] at hy
      cases hy
  · rintro ⟨d, rfl⟩
    rw [Nat.mul_comm (tenTo _) d]
    rw [Nat.mul_comm, ← hholds] at hy
    exact hpreferred d hy

end Search

end Bracket

end RequestUri.Numeral
