import RequestUri.Numeral.Binary

/-! The shortest decimal that reads back as a given binary number.

A number m · 2^q is read back from every decimal between the midpoints to its neighbours. On the
grid of the multiples of 10^g the number has two neighbours, and some grid point lies between the
midpoints just if one of these two does. So the coarsest grid on which one of them does gives the
fewest digits. -/

namespace RequestUri.Numeral

inductive Tie where
  | up
  | even

/-- The number and the midpoints around it in quarters of its last place. -/
structure Bracket where
  low : Nat
  value : Nat
  high : Nat
  /-- A midpoint reads back as the number whose last bit is zero. -/
  closed : Bool
  /-- The exponent of a quarter of the last place. -/
  q : Int

/-- The gap below a power of two is half the gap above it, the smallest numbers apart. -/
def BinaryFormat.bracket (f : BinaryFormat) (m : Nat) (q : Int) : Bracket where
  low := if m = twoTo f.fractionBits ∧ f.minExponent < q then 4 * m - 1 else 4 * m - 2
  value := 4 * m
  high := 4 * m + 2
  closed := m % 2 = 0
  q := q - 2

namespace Bracket

/-- On the grid of the multiples of 10^g a quarter is `(scale g).1 / (scale g).2`. -/
def scale (b : Bracket) (g : Int) : Nat × Nat :=
  (twoTo b.q.toNat * tenTo (-g).toNat, twoTo (-b.q).toNat * tenTo g.toNat)

def holds (b : Bracket) (g : Int) (k : Nat) : Bool :=
  let (num, den) := b.scale g
  if b.closed then b.low * num ≤ k * den && k * den ≤ b.high * num
  else b.low * num < k * den && k * den < b.high * num

def below (b : Bracket) (g : Int) : Nat :=
  let (num, den) := b.scale g
  b.value * num / den

/-- The better of the two neighbours on a grid that read back, if any. -/
def neighbour? (tie : Tie) (b : Bracket) (g : Int) : Option Nat :=
  let (num, den) := b.scale g
  let k := b.below g
  match b.holds g k, b.holds g (k + 1) with
  | false, false => none
  | true, false => some k
  | false, true => some (k + 1)
  | true, true =>
    let twice := 2 * b.value * num
    let middle := (2 * k + 1) * den
    if twice < middle then some k
    else if middle < twice then some (k + 1)
    else match tie with
      | .up => some (k + 1)
      | .even => some (if k % 2 = 0 then k else k + 1)

/-- Tries `n` grids from `10^g` on, each ten times as fine as the one before. -/
def search (tie : Tie) (b : Bracket) : Nat → Int → Nat × Int
  | 0, g => (b.below g, g)
  | n + 1, g =>
    match b.neighbour? tie g with
    | some k => (k, g)
    | none => search tie b n (g - 1)

end Bracket

def powerAbove (m : Nat) (q : Int) : Int :=
  (m.log2 + 1 + q) * 30103 / 100000 + 2

def BinaryFormat.shortest (f : BinaryFormat) (tie : Tie) (m : Nat) (q : Int) : Nat × Int :=
  if m = 0 then (0, 0) else (f.bracket m q).search tie 24 (powerAbove m q)

end RequestUri.Numeral
