import RequestUri.Numeral.Binary

/-! The binary number nearest to a quotient; a tie goes to the one whose last bit is zero. -/

namespace RequestUri.Numeral

/-- Rounds `num / den` to the nearest integer, ties to even. -/
def roundEven (num den : Nat) : Nat :=
  let k := num / den
  let twice := 2 * (num % den)
  if twice < den then k
  else if den < twice then k + 1
  else if k % 2 = 0 then k else k + 1

/-- The exponent `b` with `2^b ≤ num / den < 2^(b + 1)`. -/
def binaryExponent (num den : Nat) : Int :=
  let b : Int := (num.log2 : Int) - den.log2
  if num * twoTo (-b).toNat < den * twoTo b.toNat then b - 1 else b

namespace BinaryFormat

/-- The bits of the number nearest to `num / den`; none if it is beyond the finite numbers. -/
def nearest? (f : BinaryFormat) (num den : Nat) : Option Nat :=
  if num = 0 then some 0 else
  let q := max (binaryExponent num den - f.fractionBits) f.minExponent
  let m := roundEven (num * twoTo (-q).toNat) (den * twoTo q.toNat)
  let bits := (q - f.minExponent).toNat * twoTo f.fractionBits + m
  if bits < f.infinityBits then some bits else none

def times? (f : BinaryFormat) (a b : Nat) : Option Nat :=
  let (m, p) := f.magnitude a
  let (n, q) := f.magnitude b
  f.nearest? (m * n * twoTo (p + q).toNat) (twoTo (-(p + q)).toNat)

def over? (f : BinaryFormat) (a b : Nat) : Option Nat :=
  let (m, p) := f.magnitude a
  let (n, q) := f.magnitude b
  f.nearest? (m * twoTo (p - q).toNat) (n * twoTo (q - p).toNat)

end BinaryFormat

def maxTenExponent : Nat := 308

/-- `digits · 10^exponent` in the arithmetic of doubles: the digits, the power of ten and each
result are rounded, so the last bit may differ from that of the nearest double. A number too small
for one division is divided twice, and after that nothing is left of it. -/
def scaledDouble? (digits : Nat) (exponent : Int) : Option Nat := do
  let f := BinaryFormat.double
  let bits ← f.nearest? digits 1
  let k := exponent.natAbs
  if 0 ≤ exponent then
    if k ≤ maxTenExponent then f.times? bits (← f.nearest? (tenTo k) 1)
    else if digits = 0 then some 0 else none
  else if k ≤ maxTenExponent then f.over? bits (← f.nearest? (tenTo k) 1)
  else if k ≤ 2 * maxTenExponent then
    let rest ← f.over? bits (← f.nearest? (tenTo maxTenExponent) 1)
    f.over? rest (← f.nearest? (tenTo (k - maxTenExponent)) 1)
  else some 0

end RequestUri.Numeral
