import RequestUri.Text.Digit

/-! Texts of a fixed shape: identifiers and time stamps. -/

namespace RequestUri.Text

/-- A shape says which characters may stand in each place. -/
abbrev Shape := List (Char → Bool)

namespace Shape

def just (c : Char) : Shape := [(· == c)]

def hex (n : Nat) : Shape := List.replicate n fun c => (hexDigit? c).isSome

def digits (n : Nat) : Shape := List.replicate n isDecimalDigit

def rest? : Shape → List Char → Option (List Char)
  | [], cs => some cs
  | _ :: _, [] => none
  | p :: shape, c :: cs => if p c then rest? shape cs else none

def guid : Shape :=
  hex 8 ++ just '-' ++ hex 4 ++ just '-' ++ hex 4 ++ just '-' ++ hex 4 ++ just '-' ++ hex 12

def minute : Shape :=
  digits 4 ++ just '-' ++ digits 2 ++ just '-' ++ digits 2 ++ just 'T' ++ digits 2 ++ just ':' ++
    digits 2

def second : Shape := just ':' ++ digits 2

def offset : Shape := digits 2 ++ just ':' ++ digits 2

end Shape

def isGuid (cs : List Char) : Bool := Shape.guid.rest? cs == some []

def isOffset : List Char → Bool
  | ['Z'] => true
  | '+' :: cs => Shape.offset.rest? cs == some []
  | '-' :: cs => Shape.offset.rest? cs == some []
  | _ => false

def isFraction : List Char → Bool
  | '.' :: cs =>
    !(cs.takeWhile isDecimalDigit).isEmpty && isOffset (cs.dropWhile isDecimalDigit)
  | _ => false

/-- A date and a time with an offset; seconds and their fraction may be left out. -/
def isDateTime (cs : List Char) : Bool :=
  match Shape.minute.rest? cs with
  | none => false
  | some cs =>
    isOffset cs ||
      match Shape.second.rest? cs with
      | none => false
      | some cs => isOffset cs || isFraction cs

end RequestUri.Text
