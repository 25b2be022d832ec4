import RequestUri.Text.Digit
import RequestUri.Numeral.Layout

/-! Decimal numbers with a mantissa of 96 bits and at most 28 places, which keep the zeros they
were written with. -/

namespace RequestUri.Numeral

/-- The number `± mantissa / 10^scale`. -/
structure Decimal where
  negative : Bool
  mantissa : Nat
  scale : Nat
deriving DecidableEq

namespace Decimal

def mantissaLimit : Nat := 0x1000000000000000000000000

def maxScale : Nat := 28

/-- Mantissas below this one have room for one more digit in a word of 64 bits, with some to
spare. -/
def wordLimit : Nat := 0xFFFFFFFFFFFFFFFF / 10 - 0xFF

inductive Fault where
  | empty
  | noDigits
  | separatorFirst
  | secondPoint
  | unknownCharacter
  | tooManyDigits
  | roundedPastLimit
  | badExponent
  | scaleTooLarge (scale : Nat)
  | tooLarge

def Fault.message : Fault → String
  | empty => "Invalid decimal: empty"
  | noDigits => "Invalid decimal: no digits found"
  | separatorFirst => "Invalid decimal: must start lead with a number"
  | secondPoint => "Invalid decimal: two decimal points"
  | unknownCharacter => "Invalid decimal: unknown character"
  | tooManyDigits => "Invalid decimal: overflow from too many digits"
  | roundedPastLimit => "Invalid decimal: overflow from mantissa after rounding"
  | badExponent => "Failed to parse"
  | scaleTooLarge scale =>
    "Scale exceeds the maximum precision allowed: " ++ toString scale ++ " > " ++ toString maxScale
  | tooLarge => "Number exceeds maximum value that can be represented."

def ofParts (negative : Bool) (mantissa scale : Nat) : Decimal :=
  ⟨negative && mantissa != 0, mantissa, scale⟩

def text (d : Decimal) : String :=
  let digits := Nat.toDigits 10 d.mantissa
  Layout.sign d.negative ++
    if d.scale = 0 then String.ofList digits
    else pointAfter digits ((digits.length : Int) - d.scale)

structure Scan where
  mantissa : Nat := 0
  scale : Nat := 0
  digitSeen : Bool := false
  pointSeen : Bool := false

namespace Scan

def refusal (s : Scan) (c : Char) : Fault :=
  if c = '.' then .secondPoint
  else if c = '_' ∧ !s.digitSeen then .separatorFirst
  else .unknownCharacter

/-- Digits that find no room are dropped; the first of them rounds the mantissa. -/
def round (s : Scan) (digit : Nat) : Except Fault Scan :=
  if digit < 5 then .ok s
  else if s.mantissa + 1 < mantissaLimit then .ok { s with mantissa := s.mantissa + 1 }
  else if s.scale = 0 then .error .roundedPastLimit
  else .ok { s with mantissa := (s.mantissa + 5) / 10, scale := s.scale - 1 }

def skip (s : Scan) : List Char → Except Fault Scan
  | [] => .ok s
  | c :: cs => if c.isDigit || c == '_' then s.skip cs else .error (s.refusal c)

/-- A separator behind the last place counts as the digit that would round the mantissa, a zero, if
the mantissa without its last digit is below `wordLimit`. Otherwise it is passed over as anywhere
else. -/
def isClosedBySeparator (s : Scan) : Bool := s.scale == maxScale && s.mantissa / 10 < wordLimit

def read (s : Scan) : List Char → Except Fault Scan
  | [] => if s.digitSeen then .ok s else .error .noDigits
  | c :: cs =>
    match Text.digit? c with
    | some digit =>
      let next := s.mantissa * 10 + digit
      if s.pointSeen then
        if s.scale < maxScale ∧ next < mantissaLimit then
          read { s with mantissa := next, scale := s.scale + 1, digitSeen := true } cs
        else do (← s.round digit).skip cs
      else if next < mantissaLimit then read { s with mantissa := next, digitSeen := true } cs
      else .error .tooManyDigits
    | none =>
      if c = '.' ∧ !s.pointSeen then read { s with pointSeen := true } cs
      else if c = '_' ∧ s.digitSeen then if s.isClosedBySeparator then s.skip cs else read s cs
      else .error (s.refusal c)

end Scan

def ofPlain (cs : List Char) : Except Fault Decimal := do
  let (negative, digits) := match cs with
    | '-' :: rest => (true, rest)
    | '+' :: rest => (false, rest)
    | rest => (false, rest)
  if cs.isEmpty then throw .empty
  let s ← Scan.read {} digits
  return ofParts negative s.mantissa s.scale

/-- The exponent behind an `e`: its sign and its size, which has 32 bits. -/
def exponent? (cs : List Char) : Option (Bool × Nat) := do
  let (negative, rest) := match cs with
    | '-' :: rest => (true, rest)
    | rest => (false, rest)
  let digits := match rest with
    | '+' :: digits => digits
    | digits => digits
  let size ← Text.natural? digits
  if size < 0x100000000 then some (negative, size) else none

def shiftDown (d : Decimal) (n : Nat) : Except Fault Decimal :=
  if maxScale < n then .error (.scaleTooLarge n)
  else if d.scale + n ≤ maxScale then .ok { d with scale := d.scale + n }
  else
    let unit := tenTo (d.scale + n - maxScale)
    .ok (ofParts d.negative ((2 * d.mantissa + unit) / (2 * unit)) maxScale)

def shiftUp (d : Decimal) (n : Nat) : Except Fault Decimal :=
  if n ≤ d.scale then .ok { d with scale := d.scale - n }
  else if maxScale < n then .error (.scaleTooLarge n)
  else
    let mantissa := d.mantissa * tenTo (n - d.scale)
    if mantissa < mantissaLimit then .ok { d with mantissa := mantissa, scale := 0 }
    else .error .tooLarge

def ofText (s : String) : Except Fault Decimal :=
  let isMark (c : Char) : Bool := c == 'e' || c == 'E'
  match ofPlain s.toList with
  | .ok d => .ok d
  | .error fault =>
    match s.toList.dropWhile (! isMark ·) with
    | [] => .error fault
    | _ :: power => do
      let d ← ofPlain (s.toList.takeWhile (! isMark ·))
      match exponent? power with
      | none => .error .badExponent
      | some (true, n) => d.shiftDown n
      | some (false, n) => d.shiftUp n

end Decimal

end RequestUri.Numeral
