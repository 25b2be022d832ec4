import RequestUri.Json.Value
import RequestUri.Numeral.Nearest
import RequestUri.Text.Digit

/-! Reading JSON: characters to tokens, and tokens to a value by a machine with a stack of the
arrays and objects that are still open. -/

namespace RequestUri.Json

def Number.signed (negative : Bool) (magnitude : Nat) : Number :=
  .double (magnitude + if negative then Numeral.BinaryFormat.double.signBit else 0).toUInt64

/-- A number of at most 64 bits with its sign; minus zero is a double. -/
def Number.ofWhole? (negative : Bool) (n : Nat) : Option Number :=
  if negative then
    if n ≠ 0 ∧ n ≤ 0x8000000000000000 then some (.whole (-n))
    else (Numeral.BinaryFormat.double.nearest? n 1).map (Number.signed true)
  else some (.whole n)

/-- Puts digits behind a number until it would have more than 64 bits, and counts those that are
left. -/
def Number.append (n : Nat) : List Char → Nat × Nat
  | [] => (n, 0)
  | c :: cs =>
    let m := n * 10 + (c.toNat - 48)
    if m < 0x10000000000000000 then append m cs else (n, cs.length + 1)

def Number.exponent? : List Char → Option Int
  | '-' :: cs => (Text.natural? cs).map (- ·)
  | '+' :: cs => (Text.natural? cs).map (·)
  | cs => (Text.natural? cs).map (·)

/-- A numeral has no superfluous leading zero and a digit on both sides of its point. Of the digits
only as many count as 64 bits hold. -/
def Number.ofChars? (cs : List Char) : Option Number := do
  let (negative, cs) := match cs with
    | '-' :: cs => (true, cs)
    | cs => (false, cs)
  let whole := cs.takeWhile Char.isDigit
  if whole.isEmpty ∨ whole.head? = some '0' ∧ whole.length ≠ 1 then none
  let (point, fraction, cs) := match cs.dropWhile Char.isDigit with
    | '.' :: cs => (true, cs.takeWhile Char.isDigit, cs.dropWhile Char.isDigit)
    | cs => (false, [], cs)
  if point ∧ fraction.isEmpty then none
  let (n, left) := append 0 whole
  let (digits, dropped) := append n fraction
  let double (exponent : Int) : Option Number :=
    (Numeral.scaledDouble? digits (exponent + left + dropped - fraction.length)).map
      (Number.signed negative)
  match cs with
  | [] => if point ∨ left ≠ 0 then double 0 else Number.ofWhole? negative n
  | e :: cs => if e = 'e' ∨ e = 'E' then double (← Number.exponent? cs) else none

inductive Token where
  | openArray
  | closeArray
  | openObject
  | closeObject
  | comma
  | colon
  | string (s : String)
  | scalar (value : Json)

namespace Token

def escape? (c : Char) : Option Char :=
  if c = '"' ∨ c = '\\' ∨ c = '/' then some c
  else if c = 'b' then some (Char.ofNat 8)
  else if c = 'f' then some (Char.ofNat 12)
  else if c = 'n' then some '\n'
  else if c = 'r' then some '\r'
  else if c = 't' then some '\t'
  else none

def hex? (a b c d : Char) : Option Nat := do
  return (((← Text.hexDigit? a) * 16 + (← Text.hexDigit? b)) * 16 + (← Text.hexDigit? c)) * 16 +
    (← Text.hexDigit? d)

def isHighHalf (n : Nat) : Bool := 0xD800 ≤ n && n < 0xDC00

def isLowHalf (n : Nat) : Bool := 0xDC00 ≤ n && n < 0xE000

def push (c : Char) : List Char × List Char → List Char × List Char
  | (cs, rest) => (c :: cs, rest)

theorem map_push_eq_some {o : Option (List Char × List Char)} {c : Char} {s rest : List Char}
    (h : o.map (push c) = some (s, rest)) : ∃ s', o = some (s', rest) := by
  obtain ⟨⟨s', r⟩, ho, he⟩ := Option.map_eq_some_iff.1 h
  cases he
  exact ⟨s', ho⟩

/-- The rest of a string after its opening quote, and what follows its closing quote. A code point
past U+FFFF is escaped as two halves, which cannot stand alone. -/
def stringBody : List Char → Option (List Char × List Char)
  | '"' :: rest => some ([], rest)
  | '\\' :: 'u' :: a :: b :: c :: d :: rest =>
    match hex? a b c d with
    | none => none
    | some n =>
      if isHighHalf n then
        match rest with
        | '\\' :: 'u' :: a :: b :: c :: d :: rest =>
          match hex? a b c d with
          | none => none
          | some m =>
            if isLowHalf m then
              (stringBody rest).map
                (push (Char.ofNat (0x10000 + (n - 0xD800) * 0x400 + (m - 0xDC00))))
            else none
        | _ => none
      else if isLowHalf n then none
      else (stringBody rest).map (push (Char.ofNat n))
  | '\\' :: e :: rest =>
    match escape? e with
    | none => none
    | some c => (stringBody rest).map (push c)
  | c :: rest =>
    if c.toNat < 32 then none
    else (stringBody rest).map (push c)
  | [] => none

def isNumeralChar (c : Char) : Bool :=
  c.isDigit || c == '-' || c == '+' || c == '.' || c == 'e' || c == 'E'

/-- The first token and the characters behind it; none stands for blank space. -/
def next? : List Char → Option (Option Token × List Char)
  | [] => none
  | '[' :: cs => some (some .openArray, cs)
  | ']' :: cs => some (some .closeArray, cs)
  | '{' :: cs => some (some .openObject, cs)
  | '}' :: cs => some (some .closeObject, cs)
  | ',' :: cs => some (some .comma, cs)
  | ':' :: cs => some (some .colon, cs)
  | '"' :: cs => (stringBody cs).map fun (s, rest) => (some (.string (String.ofList s)), rest)
  | 'n' :: 'u' :: 'l' :: 'l' :: cs => some (some (.scalar .null), cs)
  | 't' :: 'r' :: 'u' :: 'e' :: cs => some (some (.scalar (.bool true)), cs)
  | 'f' :: 'a' :: 'l' :: 's' :: 'e' :: cs => some (some (.scalar (.bool false)), cs)
  | c :: cs =>
    if c = ' ' ∨ c = '\t' ∨ c = '\n' ∨ c = '\r' then some (none, cs)
    else (Number.ofChars? (c :: cs.takeWhile isNumeralChar)).map fun n =>
      (some (.scalar (.number n)), cs.dropWhile isNumeralChar)

theorem length_stringBody_lt {cs s rest : List Char} (h : stringBody cs = some (s, rest)) :
    rest.length < cs.length := by
  fun_induction stringBody cs generalizing s rest <;> simp only [List.length_cons, List.length_nil] <;>
    grind [map_push_eq_some]

theorem length_next?_lt {cs rest : List Char} {t : Option Token} (h : next? cs = some (t, rest)) :
    rest.length < cs.length := by
  have hd (p : Char → Bool) (l : List Char) : (l.dropWhile p).length ≤ l.length :=
    (List.dropWhile_suffix p).length_le
  unfold next? at h
  split at h <;> grind [→ length_stringBody_lt, Option.map_eq_some_iff]

def all? (cs : List Char) : Option (List Token) :=
  if cs.isEmpty then some []
  else match _h : next? cs with
    | none => none
    | some (none, rest) => all? rest
    | some (some token, rest) => (all? rest).map (token :: ·)
termination_by cs.length
decreasing_by all_goals exact length_next?_lt (by assumption)

end Token

/-- An array or object that is still open around the value being read: the items before that value,
the last one first, or the fields before it and its own name. -/
inductive Frame where
  | array (items : List Json)
  | object (fields : Fields) (name : String)

inductive State where
  /-- A value. -/
  | value (stack : List Frame)
  /-- The first item of an array, or its end. -/
  | item (stack : List Frame)
  /-- A field name; `first` if the object may end here. -/
  | key (first : Bool) (fields : Fields) (stack : List Frame)
  | colon (fields : Fields) (name : String) (stack : List Frame)
  /-- A value has been read: a comma or the end of what is open around it. -/
  | done (value : Json) (stack : List Frame)

namespace State

def maxDepth : Nat := 127

def start (stack : List Frame) : Token → Option State
  | .scalar v => some (.done v stack)
  | .string s => some (.done (.string s) stack)
  | .openArray => if stack.length < maxDepth then some (.item stack) else none
  | .openObject => if stack.length < maxDepth then some (.key true [] stack) else none
  | _ => none

def step : State → Token → Option State
  | .value stack, token => start stack token
  | .item stack, .closeArray => some (.done (.array []) stack)
  | .item stack, token => start (.array [] :: stack) token
  | .key first fields stack, .closeObject =>
    if first then some (.done (.object fields) stack) else none
  | .key _ fields stack, .string name => some (.colon fields name stack)
  | .colon fields name stack, .colon => some (.value (.object fields name :: stack))
  | .done v (.array items :: stack), .comma => some (.value (.array (v :: items) :: stack))
  | .done v (.array items :: stack), .closeArray =>
    some (.done (.array (v :: items).reverse) stack)
  | .done v (.object fields name :: stack), .comma =>
    some (.key false (fields.insert name v) stack)
  | .done v (.object fields name :: stack), .closeObject =>
    some (.done (.object (fields.insert name v)) stack)
  | _, _ => none

end State

def ofText? (s : String) : Option Json := do
  match ← (← Token.all? s.toList).foldlM State.step (.value []) with
  | .done v [] => some v
  | _ => none

end RequestUri.Json
