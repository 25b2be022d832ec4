import RequestUri.Protocol.Version
import RequestUri.Tree.Clause
import RequestUri.Tree.Literal

/-! The parts of a resource node. -/

namespace RequestUri

inductive Start where
  | entitySet (name : String)
  | serviceRoot
deriving DecidableEq

inductive Link where
  | navigation (member : String)
  | singleton (member : String)
deriving DecidableEq

def Link.member : Link → String
  | navigation member => member
  | singleton member => member

structure Cast where
  typeName : String
  version : Version := .baseline
deriving DecidableEq

structure Operation where
  name : String
  isAction : Bool
  parameters : List (String × Argument) := []
deriving DecidableEq

inductive Count where
  | none
  | segment
  | option (value : Bool)
deriving DecidableEq

/-- What a node adds to its own name, over any type `ε` of operands. -/
structure Decoration (ε : Type) where
  version : Version := .baseline
  key : List (String × Literal) := []
  cast : Option Cast := none
  operation : Option Operation := none
  count : Count := .none
  options : List (QueryOption ε) := []
  expand : List String := []
  select : List String := []
  custom : List (String × String) := []

end RequestUri
