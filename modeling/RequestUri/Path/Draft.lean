import RequestUri.Path.Trail
import RequestUri.Query.Aliases
import RequestUri.Query.Options
import RequestUri.Query.Pipeline

/-! A request URI in the making. The path grows node by node; query options and aliases are
gathered and follow the whole path. -/

namespace RequestUri

structure Draft where
  path : String := ""
  aliases : AliasTable := {}
  options : OptionTable := {}
  journal : Journal := {}

structure Request where
  uri : String
  version : Version
deriving DecidableEq

namespace Draft

def push (d : Draft) (text : String) : Draft := { d with path := d.path ++ text }

def raise (d : Draft) (v : Version) : Draft := { d with journal := d.journal.raise v }

def addOption (d : Draft) (key value : String) : Draft :=
  { d with options := d.options.add key value }

def journaled {α : Type} (x : Run Journal α) : Run Draft α :=
  ExceptT.mk fun d =>
    let (result, journal) := x.run d.journal
    (result, { d with journal })

def argument (d : Draft) (name : String) : Argument → String × Draft
  | .primitive text => (text, d)
  | .structured text =>
    let (label, aliases) := d.aliases.allocate name text
    (label, { d with aliases, journal := d.journal.note (.aliased label name) })

def arguments (d : Draft) : List (String × Argument) → List String × Draft
  | [] => ([], d)
  | (name, value) :: rest =>
    let (text, d) := d.argument name value
    let (texts, d) := d.arguments rest
    ((name ++ "=" ++ text) :: texts, d)

def endSegment (d : Draft) : Draft :=
  if d.path.toList.getLast? = some '/' then d else d.push "/"

/-- Only functions have their arguments in the URI. -/
def invoke (d : Draft) (operation : Operation) : Draft :=
  let d := d.endSegment.push operation.name
  if operation.isAction then d
  else
    let (texts, d) := d.arguments operation.parameters
    d.push ("(" ++ String.intercalate "," texts ++ ")")

def castTo (d : Draft) (cast : Cast) : Draft := (d.push ("/" ++ cast.typeName)).raise cast.version

def keyed (service : Service) (key : List (String × Literal)) : Run Draft Unit := do
  if key.isEmpty then return
  let pairs ← key.mapM fun (name, value) => do
    let text ← journaled (service.format (.literal value) .path)
    return (name, text)
  modify (·.push (service.key pairs))

def optional (service : Service) (option : QueryOption Expr) : Run Draft Unit := do
  match ← journaled (option.entry fun e => service.format e .query) with
  | some (key, value) => modify (·.addOption key value)
  | none => pure ()

end Draft

def Decoration.plainOptions {ε : Type} (node : Decoration ε) : List (String × String) :=
  (if node.expand.isEmpty then [] else [("$expand", String.intercalate "," node.expand)]) ++
    (if node.select.isEmpty then [] else [("$select", String.intercalate "," node.select)]) ++
    (match node.count with
      | .option value => [("$count", if value then "true" else "false")]
      | _ => []) ++
    node.custom

namespace Draft

def addOptions (d : Draft) (options : List (String × String)) : Draft :=
  options.foldl (fun d (key, value) => d.addOption key value) d

def decorate (service : Service) (node : Decoration Expr) : Run Draft Unit := do
  modify (·.raise node.version)
  keyed service node.key
  if let some cast := node.cast then modify (·.castTo cast)
  if let some operation := node.operation then modify (·.invoke operation)
  if node.count = .segment then modify (·.push "/$count")
  node.options.forM (optional service)
  modify (·.addOptions node.plainOptions)

/-- An entity set can only begin a URI. -/
def begin (service : Service) : Start → Run Draft Unit
  | .entitySet name => do
    let d ← get
    if d.path = "" then set (d.push (service.collection name))
    else throw (.misplacedEntitySet name d.path)
  | .serviceRoot => modify (·.push service.root)

def along (service : Service) (trail : Trail) : Run Draft Unit := do
  begin service trail.start
  decorate service trail.decoration
  trail.links.forM fun (link, node) => do
    modify (·.push ("/" ++ link.member))
    decorate service node

/-- Adds a resource tree to the draft. What was written before a fault stays. -/
def visit (service : Service) (tree : Expr) : Run Draft Unit := do
  let trail ← journaled (service.trail tree)
  along service trail

def uri (d : Draft) : String :=
  let options := if d.options.isEmpty then "" else "?" ++ d.options.text
  let aliases :=
    if d.aliases.isEmpty then ""
    else (if d.options.isEmpty then "?" else "&") ++ d.aliases.text
  d.path ++ options ++ aliases

def request (d : Draft) : Request := ⟨d.uri, d.journal.version⟩

def finished (d : Draft) : Event := .finished d.uri d.journal.version

end Draft

namespace Service

def logged (service : Service) (tree : Expr) : Except Fault Request × List Event :=
  match (Draft.visit service tree).run {} with
  | (.ok (), d) => (.ok d.request, d.journal.events ++ [d.finished])
  | (.error fault, d) => (.error fault, d.journal.events)

def request (service : Service) (tree : Expr) : Except Fault Request := (service.logged tree).1

end Service

end RequestUri
