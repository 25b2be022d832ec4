/-! Binary floating-point numbers, read from their bits. All arithmetic on them is exact arithmetic
on m · 2^q. -/

namespace RequestUri.Numeral

def twoTo (n : Nat) : Nat := Nat.pow 2 n

def tenTo (n : Nat) : Nat := Nat.pow 10 n

structure BinaryFormat where
  fractionBits : Nat
  exponentBits : Nat

/-- What the bits of a number stand for; a finite number is `m · 2^q`. -/
inductive Binary where
  | nan
  | infinite (negative : Bool)
  | finite (negative : Bool) (m : Nat) (q : Int)

namespace BinaryFormat

def single : BinaryFormat := ⟨23, 8⟩

def double : BinaryFormat := ⟨52, 11⟩

def minExponent (f : BinaryFormat) : Int :=
  2 - twoTo (f.exponentBits - 1) - f.fractionBits

def infinityBits (f : BinaryFormat) : Nat :=
  (twoTo f.exponentBits - 1) * twoTo f.fractionBits

def signBit (f : BinaryFormat) : Nat := twoTo (f.exponentBits + f.fractionBits)

/-- The magnitude of bits below infinity: the exponent field is the number of places that the
first bit of a number stands above the subnormal ones. -/
def magnitude (f : BinaryFormat) (bits : Nat) : Nat × Int :=
  let exponent := bits / twoTo f.fractionBits
  let fraction := bits % twoTo f.fractionBits
  if exponent = 0 then (fraction, f.minExponent)
  else (fraction + twoTo f.fractionBits, f.minExponent + (exponent - 1 : Nat))

def decode (f : BinaryFormat) (bits : Nat) : Binary :=
  let negative := f.signBit ≤ bits
  let rest := bits % f.signBit
  if rest < f.infinityBits then
    let (m, q) := f.magnitude rest
    .finite negative m q
  else if rest = f.infinityBits then .infinite negative
  else .nan

end BinaryFormat

end RequestUri.Numeral
