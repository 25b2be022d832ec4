import RequestUri.Document.Field
import RequestUri.Tree.Expr

/-! Tree documents: the JSON form of a tree. Each function here reads one node and leaves the nodes
inside it to `read`. -/

namespace RequestUri.Document

open Json (Fields)

section

variable (read : Json → Except Fault Expr)

def operand : Json → Except Fault Expr
  | .string path => .ok (.ofPath path)
  | value => read value

def selector : Json → Except Fault (Selector Expr)
  | .string path => .ok { operand := .ofPath path }
  | .object fields =>
    match fields.lookup "expr" with
    | some value => do
      let operand ← read value
      let descending := match fields.lookup "desc" with
        | some (.bool b) => b
        | _ => false
      return { operand, descending }
    | none => .error (.badSelector (.object fields))
  | got => .error (.badSelector got)

def aggregation : Json → Except Fault (Aggregation Expr)
  | .object fields => do
    let name ← requiredText fields "method" "aggregate.method"
    let operand ← match fields.lookup "property" with
      | some value => some <$> operand read value
      | none => pure none
    let given ← match fields.lookup "as" with
      | some value => some <$> text "aggregate.as" value
      | none => pure none
    return { method := method name, operand, given }
  | _ => .error .badAggregation

def apply : Json → Except Fault (Apply Expr)
  | .object fields => do
    let grouping ← (← items "groupBy" (fields.lookup "groupBy")).mapM (operand read)
    let aggregations ← (← items "aggregate" (fields.lookup "aggregate")).mapM (aggregation read)
    let predicate ← match fields.lookup "filter" with
      | some value => some <$> read value
      | none => pure none
    return { grouping, aggregations, predicate }
  | _ => .error .badApply

def queryOption : Json → Except Fault (QueryOption Expr)
  | .object [(name, value)] =>
    if name = "skip" then .skip <$> read value
    else if name = "top" then .top <$> read value
    else if name = "filter" then .filter <$> read value
    else if name = "orderBy" then do
      let selectors ← (← items "orderBy" (some value)).mapM (selector read)
      return .orderBy selectors
    else if name = "apply" then .apply <$> apply read value
    else .error (.unknownOption name)
  | got => .error (.badOption got)

def decoration (fields : Fields) : Except Fault (Decoration Expr) := do
  let version ← versionField fields
  let key ← keyField fields
  let cast ← castField fields
  let operation ← operationField fields
  let count ← countField fields
  let options ← (← items "options" (fields.lookup "options")).mapM (queryOption read)
  let expand ← textsField fields "expand"
  let select ← textsField fields "select"
  let custom ← customField fields
  return { version, key, cast, operation, count, options, expand, select, custom }

def source (fields : Fields) : Except Fault Expr :=
  match fields.lookup "source" with
  | some value => read value
  | none => .error .noSource

/-- The resource that a node stands for, but for its decoration; none if the node is no
resource. -/
def address? (fields : Fields) : Option (Except Fault (Decoration Expr → Expr)) :=
  if let some name := fields.lookup "entitySet" then some do
    return .root (.entitySet (← text "entitySet" name))
  else if fields.has "serviceRoot" then some (.ok (.root .serviceRoot))
  else if let some member := fields.lookup "navigation" then some do
    let source ← source read fields
    return .follow source (.navigation (← text "navigation" member))
  else if let some member := fields.lookup "singleton" then some do
    let source ← source read fields
    return .follow source (.singleton (← text "singleton" member))
  else none

def binary (fields : Fields) (op : Json) : Except Fault Expr := do
  let keyword ← text "op" op
  match BinaryOp.ofKeyword? keyword, fields.lookup "left", fields.lookup "right" with
  | none, _, _ => .error (.unknownOperator keyword)
  | _, none, _ => .error .noLeft
  | _, _, none => .error .noRight
  | some op, some left, some right => return .binary op (← read left) (← read right)

def lambda (fields : Fields) (quantifier : Quantifier) (collection : Json) : Except Fault Expr := do
  let bound ← requiredText fields "var" "var"
  match fields.lookup "body" with
  | none => .error .noBody
  | some value =>
    let body ← read value
    let path ← text quantifier.keyword collection
    return .lambda quantifier (.ofPath path) bound body

/-- The first of these fields that is there says what the node is; without any of them it is a
literal. -/
def scalar (fields : Fields) : Except Fault Expr :=
  if let some path := fields.lookup "property" then do return .ofPath (← text "property" path)
  else if let some name := fields.lookup "param" then do return .parameter (← text "param" name)
  else if let some op := fields.lookup "op" then binary read fields op
  else if let some value := fields.lookup "not" then do return .unary .not (← read value)
  else if let some value := fields.lookup "negate" then do return .unary .negate (← read value)
  else if let some function := fields.lookup "call" then do
    let args ← (← items "args" (fields.lookup "args")).mapM read
    return .call (← text "call" function) args
  else if let some value := fields.lookup "list" then do
    return .list (← (← items "list" (some value)).mapM read)
  else if let some collection := fields.lookup "any" then lambda read fields .any collection
  else if let some collection := fields.lookup "all" then lambda read fields .all collection
  else do return .literal (← tagged fields)

def node : Json → Except Fault Expr
  | .object fields =>
    match address? read fields with
    | some address => do
      let resource ← address
      return resource (← decoration read fields)
    | none => scalar read fields
  | .array _ => .error .strayArray
  | value => do return .literal (← literal value)

end

/-- The tree of a document whose arrays and objects are nested at most `n` deep. -/
def within : Nat → Json → Except Fault Expr
  | 0, value => node (fun value => do return .literal (← literal value)) value
  | n + 1, value => node (within n) value

def tree (value : Json) : Except Fault Expr := within value.depth value

end RequestUri.Document
