import RequestUri.Proofs.Course
import RequestUri.Query.Operand

/-! The text of a scalar expression by itself, and the marks that writing it leaves in the journal,
in the order of the walk through the expression. -/

namespace RequestUri

/-- Expressions of these kinds have no text, and nothing inside them is looked at. -/
def Kind.isTextless : Kind → Bool
  | resource | conditional | typeTest | construction | invocation => true
  | _ => false

theorem ofKeyword?_keyword (op : BinaryOp) : BinaryOp.ofKeyword? op.keyword = some op := by
  cases op <;> decide

namespace Expr

mutual
def text (place : Place) : Expr → String
  | literal value => value.textAt place
  | property name => name
  | member object name => text place object ++ "/" ++ name
  | parameter name => name
  | unary op operand => op.lead ++ operand.enclose UnaryOp.precedence (text place operand)
  | binary op left right =>
    left.enclose op.precedence (text place left) ++ " " ++ op.keyword ++ " " ++
      right.enclose (op.precedence + 1) (text place right)
  | call function args => function ++ "(" ++ String.intercalate "," (texts place args) ++ ")"
  | lambda quantifier collection bound body =>
    text place collection ++ "/" ++ quantifier.keyword ++ "(" ++ bound ++ ":" ++
      text place body ++ ")"
  | list items => "(" ++ String.intercalate "," (texts place items) ++ ")"
  | _ => ""

def texts (place : Place) : List Expr → List String
  | [] => []
  | e :: rest => text place e :: texts place rest
end

theorem texts_eq_map (place : Place) (es : List Expr) : texts place es = es.map (text place) := by
  induction es with
  | nil => rfl
  | cons e es ih => rw [texts, ih, List.map_cons]

mutual
/-- The expressions that are met when an expression is written, each before its own operands. -/
def parts : Expr → List Expr
  | member object name => member object name :: parts object
  | unary op operand => unary op operand :: parts operand
  | binary op left right => binary op left right :: (parts left ++ parts right)
  | call function args => call function args :: partsOfAll args
  | lambda quantifier collection bound body =>
    lambda quantifier collection bound body :: (parts collection ++ parts body)
  | list items => list items :: partsOfAll items
  | e => [e]

def partsOfAll : List Expr → List Expr
  | [] => []
  | e :: rest => parts e ++ partsOfAll rest
end

theorem partsOfAll_eq_flatMap (es : List Expr) : partsOfAll es = es.flatMap parts := by
  induction es with
  | nil => rfl
  | cons e es ih => rw [partsOfAll, ih, List.flatMap_cons]

def mark? (e : Expr) : Option Mark :=
  if e.kind.isTextless then some (.stop (.unsupportedKind e.kind))
  else match e with
    | binary .isIn _ _ => some (.need .v401)
    | _ => none

def marks (e : Expr) : List Mark := e.parts.filterMap mark?

def writeFaults (e : Expr) : List Fault :=
  (e.parts.filter (·.kind.isTextless)).map fun part => .unsupportedKind part.kind

theorem faults_marks (e : Expr) : e.marks.filterMap Mark.fault? = e.writeFaults := by
  have hpart : ∀ part : Expr, (part.mark?.bind Mark.fault?) =
      if part.kind.isTextless then some (.unsupportedKind part.kind) else none := by
    intro part
    rw [mark?.eq_def]
    split
    · rfl
    · split <;> rfl
  rw [marks, List.filterMap_filterMap, writeFaults]
  induction e.parts with
  | nil => rfl
  | cons part parts ih =>
    rw [List.filterMap_cons, hpart, ih, List.filter_cons]
    split <;> simp_all

theorem writeFaults_eq_nil_iff (e : Expr) :
    e.writeFaults = [] ↔ ∀ part ∈ e.parts, part.kind.isTextless = false := by
  simp [writeFaults, List.filter_eq_nil_iff]

theorem marks_binary (op : BinaryOp) (left right : Expr) :
    (binary op left right).marks =
      (if op = .isIn then [.need .v401] else []) ++ (left.marks ++ right.marks) := by
  rw [marks, parts, List.filterMap_cons, List.filterMap_append]
  cases op <;> rfl

theorem marks_call (function : String) (args : List Expr) :
    (call function args).marks = args.flatMap marks := by
  change (partsOfAll args).filterMap mark? = _
  rw [partsOfAll_eq_flatMap, List.filterMap_flatMap]
  rfl

theorem marks_lambda (quantifier : Quantifier) (collection body : Expr) (bound : String) :
    (lambda quantifier collection bound body).marks = collection.marks ++ body.marks := by
  change (parts collection ++ parts body).filterMap mark? = _
  rw [List.filterMap_append]
  rfl

theorem marks_list (items : List Expr) : (list items).marks = items.flatMap marks := by
  change (partsOfAll items).filterMap mark? = _
  rw [partsOfAll_eq_flatMap, List.filterMap_flatMap]
  rfl

/-- Induction along the walk: it goes into operands, arguments and items, and not into textless
parts. -/
@[elab_as_elim]
theorem walkInduction {motive : Expr → Prop}
    (literal : ∀ value, motive (literal value))
    (property : ∀ name, motive (property name))
    (member : ∀ object name, motive object → motive (member object name))
    (parameter : ∀ name, motive (parameter name))
    (unary : ∀ op operand, motive operand → motive (unary op operand))
    (binary : ∀ op left right, motive left → motive right → motive (binary op left right))
    (call : ∀ function args, (∀ e ∈ args, motive e) → motive (call function args))
    (lambda : ∀ quantifier collection bound body, motive collection → motive body →
      motive (lambda quantifier collection bound body))
    (list : ∀ items, (∀ e ∈ items, motive e) → motive (list items))
    (textless : ∀ e : Expr, e.kind.isTextless → motive e) (e : Expr) : motive e := by
  refine write.induct .query motive (fun es => ∀ e ∈ es, motive e) literal property member
    parameter unary (binary .isIn) (fun op left right _ => binary op left right) call lambda list
    ?_ ?_ ?_ ?_ ?_ ?_ (by simp) ?_ e
  · exact fun start decoration => textless _ rfl
  · exact fun source link decoration => textless _ rfl
  · exact fun test ifTrue ifFalse => textless _ rfl
  · exact fun operand typeName => textless _ rfl
  · exact fun typeName args => textless _ rfl
  · exact fun target args => textless _ rfl
  · intro e rest he hrest
    exact List.forall_mem_cons.2 ⟨he, hrest⟩

theorem parts_of_textless {e : Expr} (h : e.kind.isTextless) : e.parts = [e] := by
  cases e <;> simp_all [parts, kind, Kind.isTextless]

theorem marks_of_textless {e : Expr} (h : e.kind.isTextless) :
    e.marks = [.stop (.unsupportedKind e.kind)] := by
  simp [marks, parts_of_textless h, mark?, h]

theorem write_of_textless (place : Place) {e : Expr} (h : e.kind.isTextless) :
    e.write place = throw (.unsupportedKind e.kind) := by
  cases e <;> simp_all [write, kind, Kind.isTextless]

theorem writeAll_eq_mapM (place : Place) (es : List Expr) :
    writeAll place es = es.mapM (write place) := by
  induction es with
  | nil => rfl
  | cons e es ih => rw [writeAll, ih, List.mapM_cons]

theorem write_binary_takes (place : Place) (op : BinaryOp) {left right : Expr}
    (hl : Takes (left.write place) left.marks (left.text place))
    (hr : Takes (right.write place) right.marks (right.text place)) :
    Takes ((binary op left right).write place) (binary op left right).marks
      ((binary op left right).text place) := by
  have hoperands : Takes (do
      let leftText ← left.write place
      let rightText ← right.write place
      return left.enclose op.precedence leftText ++ " " ++ op.keyword ++ " " ++
        right.enclose (op.precedence + 1) rightText)
      (left.marks ++ right.marks) ((binary op left right).text place) :=
    hl.bind (hr.bind_pure _)
  rw [write, marks_binary]
  by_cases h : op = .isIn
  · rw [if_pos h, if_pos h]
    refine Takes.bind (Mark.need_takes .v401) ?_
    exact hoperands
  · rw [if_neg h, if_neg h]
    exact hoperands

theorem write_takes (place : Place) (e : Expr) :
    Takes (e.write place) e.marks (e.text place) := by
  induction e using walkInduction with
  | literal value => exact Takes.pure _
  | property name => exact Takes.pure _
  | member object name ih => exact ih.bind_pure (· ++ "/" ++ name)
  | parameter name => exact Takes.pure _
  | unary op operand ih =>
    exact ih.bind_pure fun text => op.lead ++ operand.enclose UnaryOp.precedence text
  | binary op left right hl hr => exact write_binary_takes place op hl hr
  | call function args ih =>
    rw [write, marks_call, text, writeAll_eq_mapM, texts_eq_map]
    exact (Takes.mapM args ih).bind_pure fun texts =>
      function ++ "(" ++ String.intercalate "," texts ++ ")"
  | lambda quantifier collection bound body hc hb =>
    rw [marks_lambda]
    exact hc.bind (hb.bind_pure fun bodyText =>
      collection.text place ++ "/" ++ quantifier.keyword ++ "(" ++ bound ++ ":" ++ bodyText ++ ")")
  | list items ih =>
    rw [write, marks_list, text, writeAll_eq_mapM, texts_eq_map]
    exact (Takes.mapM items ih).bind_pure fun texts =>
      "(" ++ String.intercalate "," texts ++ ")"
  | textless e h =>
    rw [write_of_textless place h, marks_of_textless h]
    exact Takes.throw _ rfl

end Expr

end RequestUri
