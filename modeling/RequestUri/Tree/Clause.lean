/-! The query options of a node, over any type `ε` of operands. -/

namespace RequestUri

variable {ε : Type}

inductive Method where
  | sum
  | average
  | min
  | max
  | countDistinct
  /-- Counts rows and needs no operand. -/
  | count
  | custom (name : String)
deriving DecidableEq

namespace Method

def name : Method → String
  | sum => "Sum"
  | average => "Average"
  | min => "Min"
  | max => "Max"
  | countDistinct => "CountDistinct"
  | count => "VirtualPropertyCount"
  | custom name => name

def token? : Method → Option String
  | sum => some "sum"
  | average => some "average"
  | min => some "min"
  | max => some "max"
  | countDistinct => some "countdistinct"
  | count => some "$count"
  | custom _ => none

end Method

structure Aggregation (ε : Type) where
  method : Method
  operand : Option ε := none
  /-- What the aggregate is called; without it, or if it is empty, a name is made up. -/
  given : Option String := none

/-- Rows that satisfy the predicate are grouped and the groups aggregated. -/
structure Apply (ε : Type) where
  grouping : List ε := []
  aggregations : List (Aggregation ε) := []
  predicate : Option ε := none

structure Selector (ε : Type) where
  operand : ε
  descending : Bool := false

inductive QueryOption (ε : Type) where
  | skip (amount : ε)
  | top (amount : ε)
  | orderBy (selectors : List (Selector ε))
  | filter (predicate : ε)
  | apply (clause : Apply ε)

end RequestUri
