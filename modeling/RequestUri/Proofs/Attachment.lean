import RequestUri.Proofs.Obstacle

/-! What a path goes on with behind an operator expression. A member, or a test of the items, is
written right behind the text of the expression, and no parentheses are put around that text. So
it stands behind the last operand, which it is then a member of. -/

namespace RequestUri.Expr

/-- A member of an expression, or a test of its items. -/
inductive Access where
  | member (name : String)
  | lambda (quantifier : Quantifier) (bound : String) (body : Expr)

namespace Access

def of : Access → Expr → Expr
  | member name, e => .member e name
  | lambda quantifier bound body, e => .lambda quantifier e bound body

def text (place : Place) : Access → String
  | member name => "/" ++ name
  | lambda quantifier bound body =>
    "/" ++ quantifier.keyword ++ "(" ++ bound ++ ":" ++ body.text place ++ ")"

def operands : Access → List Expr
  | member _ => []
  | lambda _ _ body => [body]

def parts (access : Access) : List Expr := access.operands.flatMap Expr.parts

theorem text_of (place : Place) (access : Access) (e : Expr) :
    (access.of e).text place = e.text place ++ access.text place := by
  cases access <;> simp [of, text, Expr.text, String.append_assoc]

theorem isLoose_of (access : Access) (e : Expr) (precedence : Nat) :
    (access.of e).isLoose precedence = false := by
  cases access <;> simp [of, isLoose]

theorem enclose_of (access : Access) (e : Expr) (precedence : Nat) (text : String) :
    (access.of e).enclose precedence text = text := by
  simp [enclose, isLoose_of]

theorem parts_of (access : Access) (e : Expr) :
    (access.of e).parts = access.of e :: (e.parts ++ access.parts) := by
  cases access <;> simp [of, parts, operands, Expr.parts]

theorem isTextless_of (access : Access) (e : Expr) : (access.of e).kind.isTextless = false := by
  cases access <;> simp [of, kind, Kind.isTextless]

end Access

def HasText (parts : List Expr) : Prop := ∀ part ∈ parts, part.kind.isTextless = false

theorem hasText_append {parts more : List Expr} (h : HasText parts) (h' : HasText more) :
    HasText (parts ++ more) :=
  List.forall_mem_append.2 ⟨h, h'⟩

theorem hasText_of (access : Access) {e : Expr} (h : HasText e.parts) (h' : HasText access.parts) :
    HasText (access.of e).parts := by
  rw [access.parts_of]
  exact List.forall_mem_cons.2 ⟨access.isTextless_of e, hasText_append h h'⟩

theorem hasText_unary (op : UnaryOp) {e : Expr} (h : HasText e.parts) :
    HasText (unary op e).parts :=
  List.forall_mem_cons.2 ⟨rfl, h⟩

theorem hasText_binary (op : BinaryOp) {a b : Expr} (ha : HasText a.parts) (hb : HasText b.parts) :
    HasText (binary op a b).parts :=
  List.forall_mem_cons.2 ⟨rfl, hasText_append ha hb⟩

theorem hasText_of_write {place : Place} {e : Expr} {j : Journal}
    (h : ∃ s, ((e.write place).run j).1 = .ok s) : HasText e.parts := by
  obtain ⟨s, h⟩ := h
  rw [write_run] at h
  rw [HasText, ← obstacle?_eq_none_iff]
  cases ho : obstacle? e.parts with
  | none => rfl
  | some part => simp [ho, verdict] at h

theorem write_of_hasText (place : Place) {e : Expr} (h : HasText e.parts) (j : Journal) :
    ((e.write place).run j).1 = .ok (e.text place) := by
  rw [write_run, (obstacle?_eq_none_iff e.parts).2 h]
  rfl

theorem enclose_eq_iff (precedence : Nat) (e : Expr) (text : String) :
    e.enclose precedence text = text ↔ e.isLoose precedence = false := by
  by_cases h : e.isLoose precedence
  · -- the parentheses make it longer
    have hlength : ("(" ++ text ++ ")").length ≠ text.length := by
      simp only [String.length_append]
      have hopen : "(".length = 1 := rfl
      omega
    simp only [enclose, h, if_true, reduceCtorEq, iff_false]
    exact fun he => hlength (congrArg String.length he)
  · simp [enclose, h]

/-- Both expressions are written, and with the same text just if `P`. -/
def SameTextIff (place : Place) (j : Journal) (e e' : Expr) (P : Prop) : Prop :=
  ∃ s s', ((e.write place).run j).1 = .ok s ∧ ((e'.write place).run j).1 = .ok s' ∧ (s = s' ↔ P)

theorem sameTextIff_of_text {place : Place} {e e' : Expr} {P : Prop} (h : HasText e.parts)
    (h' : HasText e'.parts) (hp : e.text place = e'.text place ↔ P) (j : Journal) :
    SameTextIff place j e e' P :=
  ⟨e.text place, e'.text place, write_of_hasText place h j, write_of_hasText place h' j, hp⟩

section Text
variable (place : Place) (access : Access)

theorem text_of_binary_eq_iff (op : BinaryOp) (a b : Expr) :
    (access.of (binary op a b)).text place = (binary op a (access.of b)).text place ↔
      b.isLoose (op.precedence + 1) = false := by
  rw [access.text_of, text, text, access.enclose_of, access.text_of]
  simp [String.append_assoc, enclose_eq_iff]

theorem text_of_unary_eq_iff (op : UnaryOp) (a : Expr) :
    (access.of (unary op a)).text place = (unary op (access.of a)).text place ↔
      a.isLoose UnaryOp.precedence = false := by
  rw [access.text_of, text, text, access.enclose_of, access.text_of]
  simp [String.append_assoc, enclose_eq_iff]

end Text

/-- A member of a binary expression, or a test of its items, has the same text as that of its right
operand, unless this one stands in parentheses. With a unary expression and its operand it is the
same. -/
theorem access_attached_iff (place : Place) (j : Journal) (access : Access) {a b : Expr}
    (ha : ∃ s, ((a.write place).run j).1 = .ok s) (hb : ∃ s, ((b.write place).run j).1 = .ok s)
    (hbody : ∀ body ∈ access.operands, ∃ s, ((body.write place).run j).1 = .ok s)
    (op : BinaryOp) (lead : UnaryOp) :
    SameTextIff place j (access.of (binary op a b)) (binary op a (access.of b))
      (b.isLoose (op.precedence + 1) = false) ∧
    SameTextIff place j (access.of (unary lead a)) (unary lead (access.of a))
      (a.isLoose UnaryOp.precedence = false) := by
  have hta := hasText_of_write ha
  have htb := hasText_of_write hb
  have haccess : HasText access.parts :=
    List.forall_mem_flatMap.2 fun body hin => hasText_of_write (hbody body hin)
  constructor
  · refine sameTextIff_of_text ?_ ?_ (text_of_binary_eq_iff place access op a b) j
    · exact hasText_of access (hasText_binary op hta htb) haccess
    · exact hasText_binary op hta (hasText_of access htb haccess)
  · refine sameTextIff_of_text ?_ ?_ (text_of_unary_eq_iff place access lead a) j
    · exact hasText_of access (hasText_unary lead hta) haccess
    · exact hasText_unary lead (hasText_of access hta haccess)

theorem access_attached_to_price :
    ∃ s s', (((member (binary .mul (property "Price") (binary .add (property "Tax")
        (property "Fee"))) "Value").write .query).run {}).1 = .ok s ∧
      (((binary .mul (property "Price") (member (binary .add (property "Tax")
        (property "Fee")) "Value")).write .query).run {}).1 = .ok s' ∧ s ≠ s' := by
  obtain ⟨⟨s, s', hs, hs', hiff⟩, -⟩ := access_attached_iff .query {} (.member "Value")
    (a := property "Price") (b := binary .add (property "Tax") (property "Fee"))
    ⟨_, rfl⟩ ⟨_, rfl⟩ (by simp [Access.operands]) .mul .not
  refine ⟨s, s', hs, hs', ?_⟩
  rw [Ne, hiff]
  decide

/-- A member of a sum is written like a sum with a member, and a test of the items of a negated
value like the negation of such a test. -/
theorem access_detached :
    ((member (binary .add (property "Price") (property "Tax")) "Value").write .query).run {} =
      (.ok "Price add Tax/Value", {}) ∧
    ((binary .add (property "Price") (member (property "Tax") "Value")).write .query).run {} =
      (.ok "Price add Tax/Value", {}) ∧
    ((lambda .any (unary .not (property "Orders")) "o" (parameter "o")).write .query).run {} =
      (.ok "not Orders/any(o:o)", {}) ∧
    ((unary .not (lambda .any (property "Orders") "o" (parameter "o"))).write .query).run {} =
      (.ok "not Orders/any(o:o)", {}) := by
  refine ⟨rfl, rfl, rfl, rfl⟩

end RequestUri.Expr
