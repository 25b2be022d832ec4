import RequestUri.Command.Answer
import RequestUri.Command.Arguments

/-! What the command prints and how it ends. -/

namespace RequestUri

structure Outcome where
  code : UInt32
  out : String := ""
  err : String := ""

namespace Outcome

def usage : Outcome :=
  { code := 2
    err := "usage: odata-uri translate [-i DOCUMENT] [-b BASE] [--key-style parens|slash] [--json]\n" ++
      "       odata-uri check [-i DOCUMENT]\n       odata-uri --version\n" }

def failure (fault : Command.Fault) : Outcome := { code := 1, err := fault.message ++ "\n" }

end Outcome

namespace Command

def print (json : Bool) : Answer → String
  | .valid => "Tree document is valid\n"
  | .written request =>
    if json then Json.record [("uri", request.uri), ("version", request.version.text)] ++ "\n"
    else request.uri ++ "\nOData-Version: " ++ request.version.text ++ "\n"

/-- The document: the argument, or else the standard input, which is none at a terminal. -/
def document (c : Command) (stdin : Option ByteArray) : Except Fault (Option String) :=
  match c.input? with
  | some input => .ok (some input)
  | none =>
    match stdin with
    | none => .ok none
    | some bytes =>
      match String.fromUTF8? bytes with
      | some input => .ok (some input)
      | none => .error .badEncoding

def respond (service : Service) (checkOnly json : Bool) (input : Option String) : Outcome :=
  match (answer service checkOnly input).1 with
  | .ok answer => { code := 0, out := print json answer }
  | .error fault => .failure fault

def outcome (c : Command) (stdin : Option ByteArray) : Outcome :=
  match c with
  | version => { code := 0, out := "odata-uri 0.2.0\n" }
  | write _ base style json =>
    match c.document stdin with
    | .ok input => respond (Service.ofBase base style) false json input
    | .error fault => .failure fault
  | check _ =>
    match c.document stdin with
    | .ok input => respond (Service.ofBase "") true false input
    | .error fault => .failure fault

end Command

def Outcome.ofArguments (args : List String) (stdin : Option ByteArray) : Outcome :=
  match Command.ofArguments? args with
  | some c => c.outcome stdin
  | none => .usage

end RequestUri
