import RequestUri.Document.Fault
import RequestUri.Numeral.Nearest
import RequestUri.Text.Shape
import RequestUri.Tree.Node

/-! The fields of a document node that hold no further nodes. A fault names the field it is found
in. -/

namespace RequestUri.Document

open Json (Fields)

def text (field : String) : Json → Except Fault String
  | .string s => .ok s
  | got => .error (.notText field got)

def requiredText (fields : Fields) (key field : String) : Except Fault String :=
  match fields.lookup key with
  | some value => text field value
  | none => .error (.required field)

def items (field : String) : Option Json → Except Fault (List Json)
  | none => .ok []
  | some (.array values) => .ok values
  | some got => .error (.notList field got)

def pair (field : String) : Json → Except Fault (String × Json)
  | .array [name, value] => do return (← text field name, value)
  | got => .error (.notPair field got)

def version (value : Json) : Except Fault Version := do
  let s ← text "version" value
  match Version.ofText? s with
  | some v => .ok v
  | none => .error (.badVersion s)

def versionField (fields : Fields) : Except Fault Version :=
  match fields.lookup "version" with
  | some value => version value
  | none => .ok .baseline

end RequestUri.Document

namespace RequestUri

def Json.Number.doubleBits : Json.Number → UInt64
  | .double bits => bits
  | .whole n =>
    let f := Numeral.BinaryFormat.double
    let magnitude := (f.nearest? n.natAbs 1).getD f.infinityBits
    (magnitude + if n < 0 then f.signBit else 0).toUInt64

end RequestUri

namespace RequestUri.Document

open Json (Fields)

def number (n : Json.Number) : Literal :=
  match n with
  | .double bits => .double bits
  | .whole k =>
    if -0x80000000 ≤ k ∧ k < 0x80000000 then .int32 (Int32.ofInt k)
    else if -0x8000000000000000 ≤ k ∧ k < 0x8000000000000000 then .int64 (Int64.ofInt k)
    else .double n.doubleBits

def guid (value : Json) : Except Fault Literal := do
  let s ← text "guid" value
  if Text.isGuid s.toList then return .guid s else throw (.badGuid s)

def dateTime (value : Json) : Except Fault Literal := do
  let s ← text "dateTimeOffset" value
  if Text.isDateTime s.toList then return .dateTime s else throw (.badDateTime s)

def decimal (value : Json) : Except Fault Literal := do
  let s ← match value with
    | .number n => pure n.text
    | value => text "decimal" value
  match Numeral.Decimal.ofText s with
  | .ok d => .ok (.decimal d)
  | .error cause => .error (.badDecimal s cause)

def enum (fields : Fields) (typeName : Json) : Except Fault Literal := do
  let member ← requiredText fields "member" "member"
  return .enum (← text "enum" typeName) member

/-- An object with one of these fields is a literal of that type; any other object is JSON. -/
def tagged (fields : Fields) : Except Fault Literal :=
  if let some value := fields.lookup "guid" then guid value
  else if let some value := fields.lookup "dateTimeOffset" then dateTime value
  else if let some value := fields.lookup "decimal" then decimal value
  else if let some typeName := fields.lookup "enum" then enum fields typeName
  else if let some value := fields.lookup "json" then .ok (.json value)
  else .ok (.json (.object fields))

def literal : Json → Except Fault Literal
  | .null => .ok .null
  | .bool b => .ok (.bool b)
  | .number n => .ok (number n)
  | .string s => .ok (.string s)
  | .array items => .ok (.json (.array items))
  | .object fields => tagged fields

def argument (value : Json) : Except Fault Argument :=
  match value with
  | .object fields =>
    match fields.lookup "raw" with
    | some raw => do return .ofSerialized (← text "raw" raw)
    | none => do return .ofLiteral (← tagged fields)
  | value => do return .ofLiteral (← literal value)

def cast : Json → Except Fault Cast
  | .string name => .ok { typeName := name }
  | .object fields => do
    let typeName ← requiredText fields "name" "cast.name"
    let version ← versionField fields
    return { typeName, version }
  | got => .error (.badCast got)

def castField (fields : Fields) : Except Fault (Option Cast) :=
  match fields.lookup "cast" with
  | some value => do return some (← cast value)
  | none => .ok none

def keyField (fields : Fields) : Except Fault (List (String × Literal)) := do
  let entries ← items "key" (fields.lookup "key")
  entries.mapM fun entry => do
    let (name, value) ← pair "key" entry
    return (name, ← literal value)

def parameters (fields : Fields) : Except Fault (List (String × Argument)) := do
  let entries ← items "parameters" (fields.lookup "parameters")
  entries.mapM fun entry => do
    let (name, value) ← pair "parameters" entry
    return (name, ← argument value)

def operationField (fields : Fields) : Except Fault (Option Operation) :=
  if let some name := fields.lookup "function" then do
    let parameters ← parameters fields
    return some { name := ← text "function" name, isAction := false, parameters }
  else if let some name := fields.lookup "action" then do
    return some { name := ← text "action" name, isAction := true }
  else .ok none

def count : Json → Except Fault Count
  | .bool b => .ok (.option b)
  | .string s => if s = "segment" then .ok .segment else .error (.badCount (.string s))
  | got => .error (.badCount got)

def countField (fields : Fields) : Except Fault Count :=
  match fields.lookup "count" with
  | some value => count value
  | none => .ok .none

def textsField (fields : Fields) (key : String) : Except Fault (List String) := do
  let entries ← items key (fields.lookup key)
  entries.mapM (text key)

def customField (fields : Fields) : Except Fault (List (String × String)) := do
  let entries ← items "custom" (fields.lookup "custom")
  entries.mapM fun entry => do
    let (name, value) ← pair "custom" entry
    return (name, ← text "custom" value)

/-- Methods are known by name in any case. The case of ASCII letters decides, because no other
character has a lower case made of the letters of these names. -/
def method (name : String) : Method :=
  let lower := String.ofList (name.toList.map Char.toLower)
  if lower = "sum" then .sum
  else if lower = "average" ∨ lower = "avg" then .average
  else if lower = "min" then .min
  else if lower = "max" then .max
  else if lower = "countdistinct" then .countDistinct
  else if lower = "$count" ∨ lower = "count" then .count
  else .custom name

end RequestUri.Document
