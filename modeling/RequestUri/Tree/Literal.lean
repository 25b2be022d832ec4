import RequestUri.Json.Text
import RequestUri.Numeral.Decimal
import RequestUri.Text.Blank
import RequestUri.Text.PathSafe
import RequestUri.Text.Quote

/-! Constant values and the arguments of operations. -/

namespace RequestUri

inductive Place where
  | path
  | query
deriving DecidableEq

/-- Floating-point numbers are held as their bits. -/
inductive Literal where
  | null
  | bool (b : Bool)
  | int32 (n : Int32)
  | int64 (n : Int64)
  | single (bits : UInt32)
  | double (bits : UInt64)
  | decimal (d : Numeral.Decimal)
  | string (s : String)
  | guid (text : String)
  | dateTime (text : String)
  | enum (typeName member : String)
  | json (value : Json)

namespace Literal

/-- Numbers have no exponent, and whole ones no point. -/
def numberLayout : Numeral.Layout where
  tie := .up
  positional _ := true
  wholeEnd := ""

def binaryText (f : Numeral.BinaryFormat) (bits : Nat) : String :=
  match f.decode bits with
  | .nan => "NaN"
  | .infinite negative => Numeral.Layout.sign negative ++ "INF"
  | .finite negative m q => numberLayout.finite f negative m q

def text : Literal → String
  | null => "null"
  | bool b => if b then "true" else "false"
  | int32 n => toString n.toInt
  | int64 n => toString n.toInt
  | single bits => binaryText .single bits.toNat
  | double bits => binaryText .double bits.toNat
  | decimal d => d.text
  | string s => Text.quote s
  | guid text => text
  | dateTime text => text
  | enum typeName member => typeName ++ Text.quote member
  | json value => value.text

def textAt : Place → Literal → String
  | .path, string s => Text.pathSafe (Text.quote s)
  | _, v => v.text

def isPrimitive : Literal → Bool
  | json _ => false
  | _ => true

end Literal

/-- The text of an argument: a primitive one stands where it is used, a structured one is moved out
of the path. -/
inductive Argument where
  | primitive (text : String)
  | structured (text : String)
deriving DecidableEq

namespace Argument

def text : Argument → String
  | primitive text => text
  | structured text => text

def isPrimitive : Argument → Bool
  | primitive _ => true
  | structured _ => false

def ofLiteral (v : Literal) : Argument :=
  if v.isPrimitive then primitive v.text else structured v.text

/-- A text whose first character, blanks apart, opens a JSON array or object. -/
def isStructuredText (cs : List Char) : Bool :=
  match cs.dropWhile Text.isBlank with
  | c :: _ => c == '[' || c == '{'
  | [] => false

def ofSerialized (text : String) : Argument :=
  if isStructuredText text.toList then structured text else primitive text

end Argument

end RequestUri
