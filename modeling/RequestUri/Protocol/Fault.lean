import RequestUri.Text.Visible
import RequestUri.Tree.Expr

/-! Why a tree has no request URI. -/

namespace RequestUri

inductive Fault where
  | unsupportedKind (kind : Kind)
  | unsupportedMethod (name : String)
  /-- An aggregation other than a row count lacks its operand. -/
  | nothingToAggregate (method : Method)
  /-- An entity set comes after text that was already written. -/
  | misplacedEntitySet (name written : String)
  /-- An unbound source could not be bound. -/
  | unbound (reason : String)
deriving DecidableEq

namespace Fault

def invariantText (detail : String) : String := "Internal invariant violation: " ++ detail

def message : Fault → String
  | unsupportedKind kind =>
    "Unsupported expression kind: " ++ kind.text ++ " expressions cannot be written to a URI"
  | unsupportedMethod name => "Unsupported aggregation method: " ++ name
  | nothingToAggregate method =>
    invariantText ("aggregation " ++ method.name ++ " has no property to aggregate")
  | misplacedEntitySet name written =>
    invariantText ("entity set " ++ name ++ " must start the uri but " ++ Text.visible written ++
      " was already written")
  | unbound reason => invariantText reason

end Fault

end RequestUri
