import RequestUri.Numeral.Shortest

/-! How the shortest digits of a binary number are laid out. -/

namespace RequestUri.Numeral

def zeroDigits (n : Nat) : String := String.ofList (List.replicate n '0')

/-- Digits with a point after the first `n` of them, and zeros where digits are missing. -/
def pointAfter (digits : List Char) (n : Int) : String :=
  if n ≤ 0 then "0." ++ zeroDigits (-n).toNat ++ String.ofList digits
  else String.ofList (digits.take n.toNat) ++ "." ++ String.ofList (digits.drop n.toNat)

structure Layout where
  tie : Tie
  /-- The exponents of the first digit for which the number is written without an exponent. -/
  positional : Int → Bool
  /-- What ends a whole number written without an exponent. -/
  wholeEnd : String

namespace Layout

def decimal (layout : Layout) (digits : Nat) (exponent : Int) : String :=
  let text := Nat.toDigits 10 digits
  let lead := exponent + text.length - 1
  if layout.positional lead then
    if 0 ≤ exponent then String.ofList text ++ zeroDigits exponent.toNat ++ layout.wholeEnd
    else pointAfter text (lead + 1)
  else
    let mantissa := if text.length = 1 then String.ofList text else pointAfter text 1
    mantissa ++ (if 0 ≤ lead then "e+" else "e-") ++ toString lead.natAbs

def sign (negative : Bool) : String := if negative then "-" else ""

def finite (layout : Layout) (f : BinaryFormat) (negative : Bool) (m : Nat) (q : Int) : String :=
  let (digits, exponent) := f.shortest layout.tie m q
  sign negative ++ layout.decimal digits exponent

end Layout

end RequestUri.Numeral
