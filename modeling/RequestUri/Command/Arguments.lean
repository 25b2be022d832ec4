import RequestUri.Path.Key

/-! The arguments of the command line. -/

namespace RequestUri

inductive Command where
  | write (input : Option String) (base : String) (style : KeyStyle) (json : Bool)
  | check (input : Option String)
  | version

namespace Command

inductive Flag where
  | input
  | base
  | keyStyle
  | json
deriving DecidableEq

def Flag.ofName? (name : List Char) : Option Flag :=
  if name = "input".toList then some .input
  else if name = "base".toList then some .base
  else if name = "key-style".toList then some .keyStyle
  else if name = "json".toList then some .json
  else none

def Flag.ofLetter? (c : Char) : Option Flag :=
  if c = 'i' then some .input
  else if c = 'b' then some .base
  else none

/-- The flag that an argument sets, and the value attached to it: `--name=value`, `-xvalue` or
`-x=value`. -/
def flag? : List Char → Option (Flag × Option String)
  | '-' :: '-' :: body => do
    let flag ← Flag.ofName? (body.takeWhile (· != '='))
    match body.dropWhile (· != '=') with
    | [] => some (flag, none)
    | _ :: value => some (flag, some (String.ofList value))
  | '-' :: letter :: body => do
    let flag ← Flag.ofLetter? letter
    match body with
    | [] => some (flag, none)
    | '=' :: value => some (flag, some (String.ofList value))
    | value => some (flag, some (String.ofList value))
  | _ => none

def isValue : List Char → Bool
  | '-' :: _ :: _ => false
  | _ => true

/-- The values of the flags, each given at most once; nothing else may be among the arguments, but
a double dash may end them. -/
def settings? (allowed : List Flag) (given : List (Flag × String)) :
    List String → Option (List (Flag × String))
  | [] => some given
  | arg :: rest =>
    if arg = "--" then if rest.isEmpty then some given else none
    else match flag? arg.toList with
      | none => none
      | some (flag, attached) =>
        if flag ∉ allowed ∨ (given.lookup flag).isSome then none
        else match flag, attached, rest with
          | .json, none, rest => settings? allowed ((.json, "") :: given) rest
          | .json, some _, _ => none
          | flag, some value, rest => settings? allowed ((flag, value) :: given) rest
          | flag, none, value :: rest =>
            if isValue value.toList then settings? allowed ((flag, value) :: given) rest else none
          | _, none, [] => none

def style? : Option String → Option KeyStyle
  | none => some .parentheses
  | some name =>
    if name = "parens" then some .parentheses
    else if name = "slash" then some .slash
    else none

def defaultBase : String := "http://localhost/service"

def ofArguments? : List String → Option Command
  | [] => none
  | first :: rest =>
    if first = "translate" then do
      let given ← settings? [.input, .base, .keyStyle, .json] [] rest
      let style ← style? (given.lookup .keyStyle)
      return write (given.lookup .input) ((given.lookup .base).getD defaultBase) style
        (given.lookup .json).isSome
    else if first = "check" then do
      let given ← settings? [.input] [] rest
      return check (given.lookup .input)
    else if first = "--version" ∨ first.toList.take 2 = ['-', 'V'] then some version
    else none

def input? : Command → Option String
  | write input .. => input
  | check input => input
  | version => none

end Command

end RequestUri
