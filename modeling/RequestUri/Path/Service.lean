import RequestUri.Path.Key
import RequestUri.Query.Operand

/-! A service: all that a request depends on besides its tree. -/

namespace RequestUri

structure Service where
  /-- The address of an entity set. -/
  collection : String → String
  root : String
  /-- The text of a key from its property names and formatted values. -/
  key : List (String × String) → String := KeyStyle.parentheses.text
  /-- The text of an operand. -/
  format : Expr → Place → Run Journal String := fun e place => e.write place
  /-- Finds the resource that an unbound source of an operation stands for. -/
  bind : Expr → Except Fault Expr := .ok

namespace Service

/-- Addresses below a base have one slash between the base and the name. -/
def join (base name : String) : String :=
  if base.toList.getLast? = some '/' then base ++ name else base ++ "/" ++ name

def ofBase (base : String) (style : KeyStyle := .parentheses) : Service where
  collection := join base
  root := base
  key := style.text

end Service

end RequestUri
