import RequestUri.Document.Tree
import RequestUri.Json.Reader
import RequestUri.Path.Draft

/-! The answer to a tree document. -/

namespace RequestUri.Command

inductive Fault where
  | request (fault : RequestUri.Fault)
  | malformed
  | document (fault : Document.Fault)
  | badEncoding
  | noInput

def Fault.message : Fault → String
  | request fault => "Translation error: " ++ fault.message
  | malformed => "Invalid JSON"
  | document fault => "Invalid tree document: " ++ fault.message
  | badEncoding => "IO error: stream did not contain valid UTF-8"
  | noInput => "No input provided. Use --input or pipe a tree document to stdin."

inductive Answer where
  | valid
  | written (request : Request)

def tree (input : Option String) : Except Fault Expr :=
  match input with
  | none => .error .noInput
  | some text =>
    match Json.ofText? text with
    | none => .error .malformed
    | some value => (Document.tree value).mapError .document

def answer (service : Service) (checkOnly : Bool) (input : Option String) :
    Except Fault Answer × List Event :=
  match tree input with
  | .error fault => (.error fault, [])
  | .ok tree =>
    if checkOnly then (.ok .valid, [])
    else match service.logged tree with
      | (.ok request, log) => (.ok (.written request), log)
      | (.error fault, log) => (.error (.request fault), log)

end RequestUri.Command
