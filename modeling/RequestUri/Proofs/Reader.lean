import RequestUri.Proofs.Scanner
import RequestUri.Tree.Expr

/-! Reading an expression, one token after another. What still waits for an operand is kept on a
stack, the innermost first. -/

namespace RequestUri

def reserved : List String :=
  BinaryOp.all.map BinaryOp.keyword ++ ["not", "any", "all", "null", "true", "false"]

def isName (w : String) : Bool :=
  match w.toList with
  | [] => false
  | c :: cs => !c.isDigit && (c :: cs).all isWordChar && !reserved.contains w

def int32? (cs : List Char) : Option Int32 :=
  if cs.all Char.isDigit && Nat.ofDigitChars 10 cs 0 < 2147483648 then
    some (Int32.ofInt (Nat.ofDigitChars 10 cs 0))
  else none

def atom? (w : String) : Option Expr :=
  if isName w then some (.property w)
  else (int32? w.toList).map fun n => .literal (.int32 n)

def quantifier? (w : String) : Option Quantifier :=
  [Quantifier.any, Quantifier.all].find? fun q => q.keyword == w

inductive Pending where
  | unary (op : UnaryOp)
  | binary (op : BinaryOp) (left : Expr)
  | parenthesis
  /-- The arguments of a function, or the items of a list. -/
  | group (function : Option String) (items : List Expr)
  | body (quantifier : Quantifier) (collection : Expr) (bound : String)

namespace Pending

def collect : Option String → List Expr → Expr
  | some function, args => .call function args
  | none, items => .list items

/-- Gives an operand to the operators that bind it before one of the given precedence does.
Of equals, the one on the left comes first. -/
def settle (precedence : Nat) : List Pending → Expr → List Pending × Expr
  | unary op :: stack, e => settle precedence stack (.unary op e)
  | binary op left :: stack, e =>
    if precedence ≤ op.precedence then settle precedence stack (.binary op left e)
    else (binary op left :: stack, e)
  | stack, e => (stack, e)

def separate : List Pending × Expr → Option (List Pending)
  | (group function items :: stack, e) => some (group function (items ++ [e]) :: stack)
  | _ => none

def close : List Pending × Expr → Option (List Pending × Expr)
  | (parenthesis :: stack, e) => some (stack, e)
  | (group function items :: stack, e) => some (stack, collect function (items ++ [e]))
  | (body quantifier collection bound :: stack, e) =>
    some (stack, .lambda quantifier collection bound e)
  | _ => none

end Pending

inductive State where
  | operand (stack : List Pending)
  | operator (stack : List Pending) (e : Expr)
  | segment (stack : List Pending) (e : Expr)
  | binder (stack : List Pending) (collection : Expr) (quantifier : Quantifier)
  | list (stack : List Pending)

namespace State

open Pending (settle separate close collect)

/- The operators in `listed` take a list on their right; without them, a parenthesis is never more
than that. -/
variable (listed : BinaryOp → Bool)

def await (op : BinaryOp) : List Pending × Expr → State
  | (stack, e) => if listed op then list (.binary op e :: stack)
    else operand (.binary op e :: stack)

def step : State → Token → Option State
  | operand stack, .minus => some (operand (.unary .negate :: stack))
  | operand stack, .word w =>
    if w = "not" then some (operand (.unary .not :: stack)) else (atom? w).map (operator stack)
  | operand stack, .string s => some (operator stack (.literal (.string s)))
  | operand stack, .opening => some (operand (.parenthesis :: stack))
  | operand stack, .head w =>
    if isName w then some (operand (.group (some w) [] :: stack)) else none
  | operand (.group function [] :: stack), .closing =>
    some (operator stack (collect function []))
  | operator stack e, .word w =>
    (BinaryOp.ofKeyword? w).map fun op => await listed op (settle op.precedence stack e)
  | operator stack e, .slash => some (segment stack e)
  | operator stack e, .comma => (separate (settle 0 stack e)).map operand
  | operator stack e, .closing => (close (settle 0 stack e)).map fun (stack, e) => operator stack e
  | segment stack e, .word w => if isName w then some (operator stack (.member e w)) else none
  | segment stack e, .head w => (quantifier? w).map (binder stack e)
  | binder stack e q, .bound w =>
    if isName w then some (operand (.body q e w :: stack)) else none
  | list stack, .opening => some (operand (.group none [] :: stack))
  | _, _ => none

def finish : State → Option Expr
  | operator stack e => match settle 0 stack e with
    | ([], e) => some e
    | _ => none
  | _ => none

def run : State → List Token → Option Expr
  | st, [] => st.finish
  | st, t :: ts => (step listed st t).bind fun st => run st ts

def read (st : State) (cs : List Char) : Option Expr := (scan .between cs).bind (run listed st)

end State

def readExpr (listed : BinaryOp → Bool) (text : String) : Option Expr :=
  State.read listed (.operand []) text.toList

/-- How tightly the outermost operator of an expression binds. -/
def Expr.tightness : Expr → Nat
  | binary op _ _ => op.precedence
  | _ => UnaryOp.precedence

namespace Pending

/-- How tightly an operand must bind to go to the top of the stack as a whole. -/
def demand : List Pending → Nat
  | unary _ :: _ => UnaryOp.precedence
  | binary op _ :: _ => op.precedence + 1
  | _ => 0

theorem precedence_lt (op : BinaryOp) : op.precedence < UnaryOp.precedence := by
  cases op <;> decide

/-- An operator that goes to the top of the stack leaves the stack as it is. -/
theorem settle_of_demand_le {stack : List Pending} {op : BinaryOp}
    (h : demand stack ≤ op.precedence) (e : Expr) :
    settle op.precedence stack e = (stack, e) := by
  cases stack with
  | nil => rfl
  | cons top stack =>
    cases top with
    | unary _ => exact absurd h (Nat.not_le.2 (precedence_lt op))
    | binary other left => exact if_neg (Nat.not_le.2 h)
    | parenthesis => rfl
    | group function items => rfl
    | body quantifier collection bound => rfl

theorem settle_binary {precedence : Nat} {op : BinaryOp} (h : precedence ≤ op.precedence)
    (stack : List Pending) (left e : Expr) :
    settle precedence (binary op left :: stack) e =
      settle precedence stack (.binary op left e) :=
  if_pos h

end Pending

namespace State
variable {listed : BinaryOp → Bool}

theorem read_of_scan {t : Token} {cs rest : List Char} {st next : State}
    (hs : scan .between cs = (scan .between rest).map (t :: ·))
    (h : step listed st t = some next) : st.read listed cs = next.read listed rest := by
  rw [read, read, hs, Option.bind_map]
  congr 1
  funext ts
  change (step listed st t).bind (fun st => run listed st ts) = _
  rw [h]
  rfl

theorem read_blank (st : State) (rest : List Char) :
    st.read listed (' ' :: rest) = st.read listed rest := by
  rw [read, scan_blank, read]

end State

end RequestUri
