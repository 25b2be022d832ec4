import RequestUri.Protocol.Journal

/-! The text of a single query option, for any way to format its operands. -/

namespace RequestUri

variable {ε : Type}

namespace Aggregation

def operandText (format : ε → Run Journal String) (a : Aggregation ε) : Run Journal String :=
  if a.method = .count then pure ""
  else match a.operand with
    | some operand => format operand
    | none => throw (.nothingToAggregate a.method)

/-- An aggregate without a name of its own is named after its method and operand. -/
def label (a : Aggregation ε) (operand : String) : String :=
  let slashless := operand.toList.map fun c => if c = '/' then '_' else c
  match a.given with
  | some name => if name = "" then a.method.name ++ String.ofList slashless else name
  | none => a.method.name ++ String.ofList slashless

def entry (format : ε → Run Journal String) (a : Aggregation ε) : Run Journal String :=
  match a.method.token? with
  | none => throw (.unsupportedMethod a.method.name)
  | some token => do
    let operand ← a.operandText format
    let head := if operand = "" then token else operand ++ " with " ++ token
    return head ++ " as " ++ a.label operand

end Aggregation

namespace Apply

def filterStage (format : ε → Run Journal String) (clause : Apply ε) : Run Journal String :=
  match clause.predicate with
  | none => pure ""
  | some predicate => do
    let text ← format predicate
    return "filter(" ++ text ++ ")/"

def aggregateStage (format : ε → Run Journal String) (clause : Apply ε) :
    Run Journal (Option String) :=
  if clause.aggregations.isEmpty then pure none
  else do
    let entries ← clause.aggregations.mapM (Aggregation.entry format)
    return some ("aggregate(" ++ String.intercalate "," entries ++ ")")

def groupStage (groups : List String) : Option String → String
  | none => "groupby((" ++ String.intercalate "," groups ++ "))"
  | some aggregate => "groupby((" ++ String.intercalate "," groups ++ ")," ++ aggregate ++ ")"

/-- Filters, then groups and aggregates; the aggregates are formatted before the groups. Without
groups and aggregates there is nothing to apply. -/
def pipeline (format : ε → Run Journal String) (clause : Apply ε) : Run Journal (Option String) :=
  if clause.aggregations.isEmpty && clause.grouping.isEmpty then pure none
  else do
    let filter ← clause.filterStage format
    let aggregate ← clause.aggregateStage format
    let groups ← clause.grouping.mapM format
    if clause.grouping.isEmpty then return some (filter ++ aggregate.getD "")
    else return some (filter ++ groupStage groups aggregate)

end Apply

def Selector.entry (format : ε → Run Journal String) (s : Selector ε) : Run Journal String := do
  let text ← format s.operand
  return if s.descending then text ++ " desc" else text

namespace QueryOption

def entry (format : ε → Run Journal String) :
    QueryOption ε → Run Journal (Option (String × String))
  | skip amount => do
    let text ← format amount
    return some ("$skip", text)
  | top amount => do
    let text ← format amount
    return some ("$top", text)
  | orderBy selectors =>
    if selectors.isEmpty then pure none
    else do
      let texts ← selectors.mapM (Selector.entry format)
      return some ("$orderby", String.intercalate "," texts)
  | filter predicate => do
    let text ← format predicate
    return some ("$filter", text)
  | apply clause => do
    let text ← clause.pipeline format
    return text.map fun value => ("$apply", value)

end QueryOption

end RequestUri
