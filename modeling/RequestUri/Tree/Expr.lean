import RequestUri.Tree.Node
import RequestUri.Tree.Operator

/-! Query trees: resources, which make the path, and scalar expressions, which make operands. -/

namespace RequestUri

inductive Kind where
  | resource
  | literal
  | member
  | parameter
  | unary
  | binary
  | call
  | lambda
  | list
  | conditional
  | typeTest
  | construction
  | invocation
deriving DecidableEq

def Kind.text : Kind → String
  | resource => "resource"
  | literal => "literal"
  | member => "member access"
  | parameter => "parameter"
  | unary => "unary"
  | binary => "binary"
  | call => "call"
  | lambda => "lambda"
  | list => "list"
  | conditional => "conditional"
  | typeTest => "type test"
  | construction => "new"
  | invocation => "invocation"

inductive Expr where
  /-- The resource that a path begins with. -/
  | root (start : Start) (decoration : Decoration Expr)
  /-- The resource that a link leads to. -/
  | follow (source : Expr) (link : Link) (decoration : Decoration Expr)
  | literal (value : Literal)
  | property (name : String)
  | member (object : Expr) (name : String)
  | parameter (name : String)
  | unary (op : UnaryOp) (operand : Expr)
  | binary (op : BinaryOp) (left right : Expr)
  | call (function : String) (args : List Expr)
  | lambda (quantifier : Quantifier) (collection : Expr) (bound : String) (body : Expr)
  | list (items : List Expr)
  | conditional (test ifTrue ifFalse : Expr)
  | typeTest (operand : Expr) (typeName : String)
  | construction (typeName : String) (args : List Expr)
  | invocation (target : Expr) (args : List Expr)

namespace Expr

def kind : Expr → Kind
  | root .. => .resource
  | follow .. => .resource
  | literal .. => .literal
  | property .. => .member
  | member .. => .member
  | parameter .. => .parameter
  | unary .. => .unary
  | binary .. => .binary
  | call .. => .call
  | lambda .. => .lambda
  | list .. => .list
  | conditional .. => .conditional
  | typeTest .. => .typeTest
  | construction .. => .construction
  | invocation .. => .invocation

/-- A property path, its segments divided by slashes; empty segments do not count. -/
def ofPath (path : String) : Expr :=
  match (path.toList.splitOn '/').filter (· ≠ []) with
  | [] => property ""
  | first :: rest =>
    rest.foldl (fun object name => member object (String.ofList name))
      (property (String.ofList first))

end Expr

end RequestUri
