/-! Operators of scalar expressions. -/

namespace RequestUri

inductive UnaryOp where
  | not
  | negate
deriving DecidableEq

def UnaryOp.lead : UnaryOp → String
  | not => "not "
  | negate => "-"

inductive BinaryOp where
  | eq
  | ne
  | lt
  | gt
  | le
  | ge
  | has
  | isIn
  | add
  | sub
  | mul
  | div
  | mod
  | and
  | or
deriving DecidableEq

namespace BinaryOp

def all : List BinaryOp :=
  [eq, ne, lt, gt, le, ge, has, isIn, add, sub, mul, div, mod, and, or]

def keyword : BinaryOp → String
  | eq => "eq"
  | ne => "ne"
  | lt => "lt"
  | gt => "gt"
  | le => "le"
  | ge => "ge"
  | has => "has"
  | isIn => "in"
  | add => "add"
  | sub => "sub"
  | mul => "mul"
  | div => "div"
  | mod => "mod"
  | and => "and"
  | or => "or"

def ofKeyword? (keyword : String) : Option BinaryOp :=
  all.find? fun op => op.keyword == keyword

def precedence : BinaryOp → Nat
  | or => 1
  | and => 2
  | eq | ne | lt | gt | le | ge | has | isIn => 3
  | add | sub => 4
  | mul | div | mod => 5

end BinaryOp

/-- No binary operator binds its operands as tightly as a unary one. -/
def UnaryOp.precedence : Nat := 6

inductive Quantifier where
  | any
  | all
deriving DecidableEq

def Quantifier.keyword : Quantifier → String
  | any => "any"
  | all => "all"

end RequestUri
