/-! String literals stand between single quotes, and a quote inside is written twice. -/

namespace RequestUri.Text

def doubleQuotes : List Char → List Char
  | [] => []
  | c :: cs => if c = '\'' then '\'' :: '\'' :: doubleQuotes cs else c :: doubleQuotes cs

/-- Reads each pair of quotes as one; a quote that stands alone stays. -/
def mergeQuotes : List Char → List Char
  | [] => []
  | '\'' :: '\'' :: cs => '\'' :: mergeQuotes cs
  | c :: cs => c :: mergeQuotes cs

theorem mergeQuotes_doubleQuotes (cs : List Char) : mergeQuotes (doubleQuotes cs) = cs := by
  induction cs with
  | nil => rfl
  | cons c cs ih =>
    by_cases h : c = '\''
    · simp [doubleQuotes, mergeQuotes, h, ih]
    · simp [doubleQuotes, mergeQuotes, h, ih]

def quote (s : String) : String :=
  "'" ++ String.ofList (doubleQuotes s.toList) ++ "'"

def unquote? : List Char → Option (List Char)
  | '\'' :: cs => if cs.getLast? = some '\'' then some (mergeQuotes cs.dropLast) else none
  | _ => none

def unquote (s : String) : String :=
  match unquote? s.toList with
  | some cs => String.ofList cs
  | none => s

theorem unquote_quote (s : String) : unquote (quote s) = s := by
  simp [unquote, quote, unquote?, mergeQuotes_doubleQuotes]

end RequestUri.Text
