import RequestUri.Protocol.Journal

/-! The text of scalar expressions. A binary operand stands in parentheses just if it would
otherwise be read apart. -/

namespace RequestUri.Expr

def isLoose (precedence : Nat) : Expr → Bool
  | binary op _ _ => op.precedence < precedence
  | _ => false

def enclose (precedence : Nat) (e : Expr) (text : String) : String :=
  if e.isLoose precedence then "(" ++ text ++ ")" else text

mutual
/-- The text of an expression; membership tests raise the version before their operands do. -/
def write (place : Place) : Expr → Run Journal String
  | literal value => pure (value.textAt place)
  | property name => pure name
  | member object name => do
    let path ← write place object
    return path ++ "/" ++ name
  | parameter name => pure name
  | unary op operand => do
    let text ← write place operand
    return op.lead ++ operand.enclose UnaryOp.precedence text
  | binary op left right => do
    if op = .isIn then modify (·.raise .v401)
    let leftText ← write place left
    let rightText ← write place right
    return left.enclose op.precedence leftText ++ " " ++ op.keyword ++ " " ++
      right.enclose (op.precedence + 1) rightText
  | call function args => do
    let texts ← writeAll place args
    return function ++ "(" ++ String.intercalate "," texts ++ ")"
  | lambda quantifier collection bound body => do
    let path ← write place collection
    let text ← write place body
    return path ++ "/" ++ quantifier.keyword ++ "(" ++ bound ++ ":" ++ text ++ ")"
  | list items => do
    let texts ← writeAll place items
    return "(" ++ String.intercalate "," texts ++ ")"
  | root .. => throw (.unsupportedKind .resource)
  | follow .. => throw (.unsupportedKind .resource)
  | conditional .. => throw (.unsupportedKind .conditional)
  | typeTest .. => throw (.unsupportedKind .typeTest)
  | construction .. => throw (.unsupportedKind .construction)
  | invocation .. => throw (.unsupportedKind .invocation)

def writeAll (place : Place) : List Expr → Run Journal (List String)
  | [] => pure []
  | e :: rest => do
    let text ← write place e
    let texts ← writeAll place rest
    return text :: texts
end

end RequestUri.Expr
