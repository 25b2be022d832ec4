import RequestUri.Json.Value
import RequestUri.Numeral.Layout

/-! The text of a JSON value without blanks, and the object form with one field a line. -/

namespace RequestUri.Json

def stringChar (c : Char) : List Char :=
  if c = '"' then ['\\', '"']
  else if c = '\\' then ['\\', '\\']
  else if c = '\n' then ['\\', 'n']
  else if c = '\r' then ['\\', 'r']
  else if c = '\t' then ['\\', 't']
  else if c.toNat = 8 then ['\\', 'b']
  else if c.toNat = 12 then ['\\', 'f']
  else if c.toNat < 16 then ['\\', 'u', '0', '0', '0'] ++ Nat.toDigits 16 c.toNat
  else if c.toNat < 32 then ['\\', 'u', '0', '0'] ++ Nat.toDigits 16 c.toNat
  else [c]

def stringText (s : String) : String :=
  "\"" ++ String.ofList (s.toList.flatMap stringChar) ++ "\""

/-- Doubles show that they are no whole numbers, and very large and very small ones have an
exponent; a tie goes to the even digit. -/
def doubleLayout : Numeral.Layout where
  tie := .even
  positional lead := -5 ≤ lead && lead ≤ 15
  wholeEnd := ".0"

def Number.text : Number → String
  | whole n => toString n
  | double bits =>
    match Numeral.BinaryFormat.double.decode bits.toNat with
    | .finite negative m q => doubleLayout.finite .double negative m q
    | _ => "null"

mutual
def text : Json → String
  | null => "null"
  | bool b => if b then "true" else "false"
  | number n => n.text
  | string s => stringText s
  | array items => "[" ++ String.intercalate "," (itemTexts items) ++ "]"
  | object fields => "\x7b" ++ String.intercalate "," (fieldTexts fields) ++ "\x7d"

def itemTexts : List Json → List String
  | [] => []
  | item :: rest => item.text :: itemTexts rest

def fieldTexts : List (String × Json) → List String
  | [] => []
  | (key, value) :: rest => (stringText key ++ ":" ++ value.text) :: fieldTexts rest
end

def record (fields : List (String × String)) : String :=
  "\x7b\n" ++
    String.intercalate ",\n" (fields.map fun (key, value) =>
      "  " ++ stringText key ++ ": " ++ stringText value) ++
    "\n\x7d"

end RequestUri.Json
