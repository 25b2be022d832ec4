import RequestUri.Proofs.Operand
import RequestUri.Proofs.Reader

/-! No two well-formed operands have the same text, since each is read back from its own. -/

namespace RequestUri

inductive IsChain : Expr → Prop
  | property {name : String} (h : isName name) : IsChain (.property name)
  | member {object : Expr} {name : String} (ho : IsChain object) (h : isName name) :
    IsChain (.member object name)

/-- The operators in `listed` always have a list on their right, and lists are nowhere else. -/
inductive WellFormed (listed : BinaryOp → Bool) : Expr → Prop
  | chain {e : Expr} (h : IsChain e) : WellFormed listed e
  | int32 {n : Int32} (h : 0 ≤ n.toInt) : WellFormed listed (.literal (.int32 n))
  | string (s : String) : WellFormed listed (.literal (.string s))
  | unary (op : UnaryOp) {e : Expr} (h : WellFormed listed e) : WellFormed listed (.unary op e)
  | binary {op : BinaryOp} {left right : Expr} (hop : listed op = false)
    (hl : WellFormed listed left) (hr : WellFormed listed right) :
    WellFormed listed (.binary op left right)
  | listed {op : BinaryOp} {left : Expr} {items : List Expr} (hop : listed op = true)
    (hl : WellFormed listed left) (hi : ∀ e ∈ items, WellFormed listed e) :
    WellFormed listed (.binary op left (.list items))
  | call {function : String} {args : List Expr} (hf : isName function)
    (ha : ∀ e ∈ args, WellFormed listed e) : WellFormed listed (.call function args)
  | lambda (quantifier : Quantifier) {collection body : Expr} {bound : String}
    (hc : IsChain collection) (hx : isName bound) (hb : WellFormed listed body) :
    WellFormed listed (.lambda quantifier collection bound body)

section Words

theorem isWord_of_isName {w : String} (h : isName w) : IsWord w.toList ∧ w ∉ reserved := by
  rw [isName] at h
  cases hw : w.toList with
  | nil => simp [hw] at h
  | cons c cs =>
    simp only [hw, Bool.and_eq_true, List.all_eq_true, Bool.not_eq_true', List.contains_eq_mem,
      decide_eq_false_iff_not] at h
    exact ⟨⟨List.cons_ne_nil c cs, h.1.2⟩, h.2⟩

theorem isWord_keyword (op : BinaryOp) : IsWord op.keyword.toList := by
  cases op <;> exact isWord_of_all rfl rfl

theorem isWord_quantifier (q : Quantifier) : IsWord q.keyword.toList := by
  cases q <;> exact isWord_of_all rfl rfl

theorem quantifier?_keyword (q : Quantifier) : quantifier? q.keyword = some q := by
  cases q <;> decide

theorem isWord_digits (n : Nat) : IsWord (Nat.toDigits 10 n) := by
  refine ⟨Nat.toDigits_ne_nil, ?_⟩
  intro c hc
  have hd := Nat.isDigit_of_mem_toDigits (by decide) (by decide) hc
  simp [isWordChar, Char.isAlphanum, hd]

theorem atom?_digits {n : Int32} (h : 0 ≤ n.toInt) :
    IsWord (toString n.toInt).toList ∧ atom? (toString n.toInt) = some (.literal (.int32 n)) := by
  obtain ⟨k, hk⟩ := Int.eq_ofNat_of_zero_le h
  have hlt : k < 2147483648 := by
    have := n.toInt_lt
    omega
  have ht : (toString n.toInt).toList = Nat.toDigits 10 k := by
    rw [hk]
    change (Nat.repr k).toList = _
    rw [Nat.toList_repr]
  have hd : ∀ c ∈ Nat.toDigits 10 k, c.isDigit := fun c hc =>
    Nat.isDigit_of_mem_toDigits (by decide) (by decide) hc
  have hname : isName (toString n.toInt) = false := by
    rw [isName, ht]
    cases hc : Nat.toDigits 10 k with
    | nil => rfl
    | cons c cs => simp [hd c (by rw [hc]; exact List.mem_cons_self)]
  have hint : int32? (toString n.toInt).toList = some n := by
    rw [int32?, ht, Nat.ofDigitChars_toDigits (by decide) (by decide), if_pos, ← hk,
      Int32.ofInt_toInt]
    simpa using ⟨hd, hlt⟩
  rw [ht, atom?, hname, hint]
  exact ⟨isWord_digits k, rfl⟩

end Words

section Chain
variable {listed : BinaryOp → Bool}
open State

theorem read_word {w : String} {e : Expr} (hw : IsWord w.toList) (hn : w ≠ "not")
    (ha : atom? w = some e) (stack : List Pending) {rest : List Char} (hr : Breaks rest) :
    (operand stack).read listed (w.toList ++ rest) = (operator stack e).read listed rest := by
  apply read_of_scan (scan_word hw hr)
  simp [step, hn, ha]

theorem read_name {w : String} (h : isName w) (stack : List Pending) {rest : List Char}
    (hr : Breaks rest) : (operand stack).read listed (w.toList ++ rest) =
      (operator stack (.property w)).read listed rest := by
  obtain ⟨hw, hres⟩ := isWord_of_isName h
  have hn : w ≠ "not" := by
    rintro rfl
    exact hres (by decide)
  exact read_word hw hn (if_pos h) stack hr

theorem read_chain {e : Expr} (h : IsChain e) (stack : List Pending) {rest : List Char}
    (hr : Breaks rest) : (operand stack).read listed ((e.text .query).toList ++ rest) =
      (operator stack e).read listed rest := by
  induction h generalizing rest with
  | property hn => exact read_name hn stack hr
  | @member object name ho hn ih =>
    have ht : ((Expr.member object name).text .query).toList ++ rest =
        (object.text .query).toList ++ '/' :: (name.toList ++ rest) := by
      simp [Expr.text]
    have hslash : step listed (operator stack object) .slash = some (segment stack object) := rfl
    have hsegment : step listed (segment stack object) (.word name) =
        some (operator stack (.member object name)) := if_pos hn
    rw [ht, ih (by simp [Breaks]), read_of_scan (scan_sign rfl _) hslash,
      read_of_scan (scan_word (isWord_of_isName hn).1 hr) hsegment]

end Chain

open Pending (settle demand separate close collect)

/-- With `stack` below it, the text is read as the operand `e`. What still waits behind it binds as
if `e` had been there at once, as long as the next operator is at most as tight as `p`. -/
def Yields (listed : BinaryOp → Bool) (p : Nat) (stack : List Pending) (cs : List Char) (e : Expr) :
    Prop :=
  ∃ inner x, (∀ q ≤ p, settle q inner x = settle q stack e) ∧ ∀ rest, Breaks rest →
    (State.operand stack).read listed (cs ++ rest) = (State.operator inner x).read listed rest

def ReadsBack (listed : BinaryOp → Bool) (e : Expr) : Prop :=
  ∀ stack, demand stack ≤ e.tightness →
    Yields listed e.tightness stack (e.text .query).toList e

section Yields
variable {listed : BinaryOp → Bool} {p : Nat} {stack : List Pending} {cs : List Char} {e : Expr}
open State

theorem Yields.of_read (h : ∀ rest, Breaks rest →
    (operand stack).read listed (cs ++ rest) = (operator stack e).read listed rest) :
    Yields listed p stack cs e :=
  ⟨stack, e, fun _ _ => rfl, h⟩

theorem Yields.read_closing (h : Yields listed p stack cs e) {outer : List Pending} {x : Expr}
    (hc : close (settle 0 stack e) = some (outer, x)) (rest : List Char) :
    (operand stack).read listed (cs ++ ')' :: rest) = (operator outer x).read listed rest := by
  obtain ⟨inner, y, hs, hread⟩ := h
  rw [hread (')' :: rest) (by simp [Breaks])]
  apply read_of_scan (scan_sign rfl rest)
  rw [step, hs 0 (Nat.zero_le p), hc]
  rfl

theorem Yields.read_comma (h : Yields listed p stack cs e) {outer : List Pending}
    (hc : separate (settle 0 stack e) = some outer) (rest : List Char) :
    (operand stack).read listed (cs ++ ',' :: rest) = (operand outer).read listed rest := by
  obtain ⟨inner, y, hs, hread⟩ := h
  rw [hread (',' :: rest) (by simp [Breaks])]
  apply read_of_scan (scan_sign rfl rest)
  rw [step, hs 0 (Nat.zero_le p), hc]
  rfl

end Yields

theorem Expr.isLoose_iff {p : Nat} (hp : p ≤ UnaryOp.precedence) (e : Expr) :
    e.isLoose p = true ↔ e.tightness < p := by
  cases e with
  | binary op left right => simp [isLoose, tightness]
  | _ => simpa [isLoose, tightness] using hp

section ReadsBack
variable {listed : BinaryOp → Bool}
open State

/-- In parentheses where it needs them, an operand is read back on any stack that demands no more
than `p`. -/
theorem ReadsBack.enclose {e : Expr} (h : ReadsBack listed e) {p : Nat}
    (hp : p ≤ UnaryOp.precedence) {stack : List Pending} (hf : demand stack ≤ p) :
    Yields listed p stack (e.enclose p (e.text .query)).toList e := by
  by_cases hl : e.isLoose p
  · rw [Expr.enclose, if_pos hl]
    apply Yields.of_read
    intro rest _
    have ht : ("(" ++ e.text .query ++ ")").toList ++ rest =
        '(' :: ((e.text .query).toList ++ ')' :: rest) := by
      simp
    have hopen : step listed (operand stack) .opening = some (operand (.parenthesis :: stack)) :=
      rfl
    -- behind a parenthesis the stack demands nothing
    have hinner := h (.parenthesis :: stack) (Nat.zero_le _)
    rw [ht, read_of_scan (scan_sign rfl _) hopen, hinner.read_closing rfl]
  · have hle : p ≤ e.tightness := Nat.not_lt.1 fun hlt => hl ((e.isLoose_iff hp).2 hlt)
    rw [Expr.enclose, if_neg hl]
    obtain ⟨inner, x, hs, hread⟩ := h stack (hf.trans hle)
    exact ⟨inner, x, fun q hq => hs q (hq.trans hle), hread⟩

theorem read_items {function : Option String} {stack : List Pending} {items : List Expr}
    (hne : items ≠ []) (h : ∀ e ∈ items, ReadsBack listed e) (before : List Expr)
    (rest : List Char) :
    (operand (.group function before :: stack)).read listed
        ((String.intercalate "," (items.map (Expr.text .query))).toList ++ ')' :: rest) =
      (operator stack (collect function (before ++ items))).read listed rest := by
  induction items generalizing before with
  | nil => exact absurd rfl hne
  | cons e items ih =>
    have he := h e List.mem_cons_self (.group function before :: stack) (Nat.zero_le _)
    cases items with
    | nil => exact he.read_closing rfl rest
    | cons next items =>
      have ht : (String.intercalate "," ((e :: next :: items).map (Expr.text .query))).toList ++
          ')' :: rest = (e.text .query).toList ++ ',' ::
            ((String.intercalate "," ((next :: items).map (Expr.text .query))).toList ++
              ')' :: rest) := by
        simp [String.intercalate_cons_cons]
      have hr := ih (List.cons_ne_nil next items) (fun e he => h e (List.mem_cons_of_mem _ he))
        (before ++ [e])
      rw [ht, he.read_comma rfl, hr, List.append_assoc]
      rfl

theorem read_group {function : Option String} {stack : List Pending} {items : List Expr}
    (h : ∀ e ∈ items, ReadsBack listed e) (rest : List Char) :
    (operand (.group function [] :: stack)).read listed
        ((String.intercalate "," (items.map (Expr.text .query))).toList ++ ')' :: rest) =
      (operator stack (collect function items)).read listed rest := by
  cases items with
  | nil =>
    have hclose : step listed (operand (.group function [] :: stack)) .closing =
        some (operator stack (collect function [])) := rfl
    exact read_of_scan (scan_sign rfl rest) hclose
  | cons e items => exact read_items (List.cons_ne_nil e items) h [] rest

theorem readsBack_unary (op : UnaryOp) {e : Expr} (h : ReadsBack listed e) :
    ReadsBack listed (.unary op e) := by
  intro stack _
  obtain ⟨inner, x, hs, hread⟩ := h.enclose le_rfl (show demand (.unary op :: stack) ≤ _ from le_rfl)
  refine ⟨inner, x, fun q hq => hs q hq, ?_⟩
  intro rest hr
  rw [← hread rest hr, Expr.text, String.toList_append, List.append_assoc]
  cases op with
  | not =>
    have hw : IsWord "not".toList := isWord_of_all rfl rfl
    have hstep : step listed (operand stack) (.word "not") =
        some (operand (.unary .not :: stack)) := rfl
    change (operand stack).read listed ("not".toList ++ ' ' :: _) = _
    rw [read_of_scan (scan_word hw (by simp [Breaks])) hstep, read_blank]
    rfl
  | negate =>
    have hstep : step listed (operand stack) .minus = some (operand (.unary .negate :: stack)) :=
      rfl
    exact read_of_scan (scan_sign rfl _) hstep

theorem read_left {op : BinaryOp} {left : Expr} (hl : ReadsBack listed left) {stack : List Pending}
    (hf : demand stack ≤ op.precedence) (rest : List Char) :
    (operand stack).read listed ((left.enclose op.precedence (left.text .query)).toList ++
        ' ' :: (op.keyword.toList ++ ' ' :: rest)) =
      (await listed op (stack, left)).read listed rest := by
  obtain ⟨inner, x, hs, hread⟩ := hl.enclose (Pending.precedence_lt op).le hf
  have hx : settle op.precedence inner x = (stack, left) :=
    (hs op.precedence le_rfl).trans (Pending.settle_of_demand_le hf left)
  have hstep : step listed (operator inner x) (.word op.keyword) =
      some (await listed op (stack, left)) := by
    rw [step, ofKeyword?_keyword, ← hx]
    rfl
  rw [hread _ (by simp [Breaks]), read_blank,
    read_of_scan (scan_word (isWord_keyword op) (by simp [Breaks])) hstep, read_blank]

theorem toList_binary (op : BinaryOp) (left right : Expr) (rest : List Char) :
    ((Expr.binary op left right).text .query).toList ++ rest =
      (left.enclose op.precedence (left.text .query)).toList ++
        ' ' :: (op.keyword.toList ++
          ' ' :: ((right.enclose (op.precedence + 1) (right.text .query)).toList ++ rest)) := by
  simp [Expr.text]

theorem readsBack_binary {op : BinaryOp} {left right : Expr} (hop : listed op = false)
    (hl : ReadsBack listed left) (hr : ReadsBack listed right) :
    ReadsBack listed (.binary op left right) := by
  intro stack hf
  have hawait : await listed op (stack, left) = operand (.binary op left :: stack) :=
    if_neg (by simp [hop])
  obtain ⟨inner, x, hs, hread⟩ := hr.enclose (Pending.precedence_lt op)
    (show demand (.binary op left :: stack) ≤ op.precedence + 1 from le_rfl)
  refine ⟨inner, x, ?_, ?_⟩
  · -- no operator that comes next is tighter than `op`, which so takes its right operand first
    intro q hq
    rw [hs q (Nat.le_succ_of_le hq), Pending.settle_binary hq]
  · intro rest hrest
    rw [toList_binary, read_left hl hf, hawait, hread rest hrest]

theorem readsBack_listed {op : BinaryOp} {left : Expr} {items : List Expr} (hop : listed op = true)
    (hl : ReadsBack listed left) (hi : ∀ e ∈ items, ReadsBack listed e) :
    ReadsBack listed (.binary op left (.list items)) := by
  intro stack hf
  have hawait : await listed op (stack, left) = State.list (.binary op left :: stack) :=
    if_pos hop
  refine ⟨.binary op left :: stack, .list items, ?_, ?_⟩
  · intro q hq
    exact Pending.settle_binary hq stack left (.list items)
  · intro rest _
    have hstep : step listed (State.list (.binary op left :: stack)) .opening =
        some (operand (.group none [] :: .binary op left :: stack)) := rfl
    have ht : ((Expr.list items).enclose (op.precedence + 1) ((Expr.list items).text .query)).toList ++
        rest = '(' :: ((String.intercalate "," (items.map (Expr.text .query))).toList ++
          ')' :: rest) := by
      simp [Expr.enclose, Expr.isLoose, Expr.text, Expr.texts_eq_map]
    rw [toList_binary, read_left hl hf, hawait, ht, read_of_scan (scan_sign rfl _) hstep,
      read_group hi]
    rfl

theorem readsBack_call {function : String} {args : List Expr} (hf : isName function)
    (ha : ∀ e ∈ args, ReadsBack listed e) : ReadsBack listed (.call function args) := by
  intro stack _
  apply Yields.of_read
  intro rest _
  have ht : ((Expr.call function args).text .query).toList ++ rest =
      function.toList ++ '(' :: ((String.intercalate "," (args.map (Expr.text .query))).toList ++
        ')' :: rest) := by
    simp [Expr.text, Expr.texts_eq_map]
  have hstep : step listed (operand stack) (.head function) =
      some (operand (.group (some function) [] :: stack)) := if_pos hf
  rw [ht, read_of_scan (scan_head (isWord_of_isName hf).1 _) hstep, read_group ha]
  rfl

theorem readsBack_lambda (q : Quantifier) {collection body : Expr} {bound : String}
    (hc : IsChain collection) (hx : isName bound) (hb : ReadsBack listed body) :
    ReadsBack listed (.lambda q collection bound body) := by
  intro stack _
  apply Yields.of_read
  intro rest _
  have ht : ((Expr.lambda q collection bound body).text .query).toList ++ rest =
      (collection.text .query).toList ++ '/' :: (q.keyword.toList ++ '(' ::
        (bound.toList ++ ':' :: ((body.text .query).toList ++ ')' :: rest))) := by
    simp [Expr.text]
  have hslash : step listed (operator stack collection) .slash =
      some (segment stack collection) := rfl
  have hhead : step listed (segment stack collection) (.head q.keyword) =
      some (binder stack collection q) := by
    rw [step, quantifier?_keyword]
    rfl
  have hbound : step listed (binder stack collection q) (.bound bound) =
      some (operand (.body q collection bound :: stack)) := if_pos hx
  have hinner := hb (.body q collection bound :: stack) (Nat.zero_le _)
  rw [ht, read_chain hc stack (by simp [Breaks]), read_of_scan (scan_sign rfl _) hslash,
    read_of_scan (scan_head (isWord_quantifier q) _) hhead,
    read_of_scan (scan_bound (isWord_of_isName hx).1 _) hbound, hinner.read_closing rfl]

theorem readsBack_of_wellFormed {e : Expr} (h : WellFormed listed e) : ReadsBack listed e := by
  induction h with
  | chain h => exact fun stack _ => Yields.of_read fun rest hr => read_chain h stack hr
  | @int32 n h =>
    intro stack _
    apply Yields.of_read
    intro rest hr
    obtain ⟨hw, ha⟩ := atom?_digits h
    have hn : toString n.toInt ≠ "not" := by
      intro heq
      rw [heq] at ha
      cases ha
    exact read_word hw hn ha stack hr
  | string s =>
    intro stack _
    apply Yields.of_read
    intro rest hr
    have hstep : step listed (operand stack) (.string s) =
        some (operator stack (.literal (.string s))) := rfl
    exact read_of_scan (scan_quote s hr) hstep
  | unary op _ ih => exact readsBack_unary op ih
  | binary hop _ _ hl hr => exact readsBack_binary hop hl hr
  | listed hop _ _ hl hi => exact readsBack_listed hop hl hi
  | call hf _ ih => exact readsBack_call hf ih
  | lambda q hc hx _ hb => exact readsBack_lambda q hc hx hb

theorem readExpr_text {e : Expr} (h : WellFormed listed e) :
    readExpr listed (e.text .query) = some e := by
  obtain ⟨inner, x, hs, hread⟩ := readsBack_of_wellFormed h [] (Nat.zero_le _)
  have hend := hread [] trivial
  rw [List.append_nil] at hend
  rw [readExpr, hend]
  change finish (operator inner x) = _
  rw [finish, hs 0 (Nat.zero_le _)]
  rfl

end ReadsBack

section Written
variable {listed : BinaryOp → Bool}

theorem marks_of_isChain {e : Expr} (h : IsChain e) : e.marks = [] := by
  induction h with
  | property h => rfl
  | member ho h ih => exact ih

theorem faultless_of_wellFormed {e : Expr} (h : WellFormed listed e) :
    e.marks.filterMap Mark.fault? = [] := by
  induction h with
  | chain h => rw [marks_of_isChain h]; rfl
  | int32 h => rfl
  | string s => rfl
  | unary op _ ih => exact ih
  | @binary op left right hop _ _ hl hr =>
    rw [Expr.marks_binary, List.filterMap_append, List.filterMap_append, hl, hr]
    split <;> rfl
  | @listed op left items hop _ _ hl hi =>
    have hitems : (items.flatMap Expr.marks).filterMap Mark.fault? = [] := by
      rw [List.filterMap_flatMap]
      exact List.flatMap_eq_nil_iff.2 hi
    rw [Expr.marks_binary, Expr.marks_list, List.filterMap_append, List.filterMap_append, hl,
      hitems]
    split <;> rfl
  | call hf _ ih =>
    rw [Expr.marks_call, List.filterMap_flatMap]
    exact List.flatMap_eq_nil_iff.2 ih
  | lambda q hc hx _ hb =>
    rw [Expr.marks_lambda, marks_of_isChain hc]
    exact hb

theorem write_of_wellFormed {e : Expr} (h : WellFormed listed e) (j : Journal) :
    ((e.write .query).run j).1 = .ok (e.text .query) := by
  rw [e.write_takes .query j]
  exact congrArg Prod.fst (carry_of_faultless _ e.marks j (faultless_of_wellFormed h))

end Written

def takesList (op : BinaryOp) : Bool := op == .isIn

/-- A well-formed operand is written, is read back, and is the only one with its text. -/
theorem write_unambiguous {e : Expr} (h : WellFormed takesList e) (j : Journal) :
    ∃ s, ((e.write .query).run j).1 = .ok s ∧ readExpr takesList s = some e ∧
      ∀ e' j', WellFormed takesList e' → ((e'.write .query).run j').1 = .ok s → e' = e := by
  refine ⟨e.text .query, write_of_wellFormed h j, readExpr_text h, ?_⟩
  intro e' j' h' hs
  rw [write_of_wellFormed h' j'] at hs
  have ht : e'.text .query = e.text .query := Except.ok.inj hs
  have hr : some e' = some e := by
    rw [← readExpr_text h', ht, readExpr_text h]
  exact Option.some.inj hr

def openLines : Expr :=
  .binary .or
    (.unary .not (.lambda .any (.member (.property "Order") "Lines") "l"
      (.binary .isIn (.member (.property "l") "Tag")
        (.list [.literal (.string "it's"), .literal (.string "b) eq (c")]))))
    (.binary .eq
      (.unary .negate (.binary .sub (.property "a")
        (.binary .sub (.property "b") (.literal (.int32 1)))))
      (.call "f" []))

theorem openLines_unambiguous :
    ((openLines.write .query).run {}).1 =
        .ok "not Order/Lines/any(l:l/Tag in ('it''s','b) eq (c')) or -(a sub (b sub 1)) eq f()" ∧
      readExpr takesList
        "not Order/Lines/any(l:l/Tag in ('it''s','b) eq (c')) or -(a sub (b sub 1)) eq f()" =
          some openLines := by
  have hitems : ∀ e ∈ [Expr.literal (.string "it's"), .literal (.string "b) eq (c")],
      WellFormed takesList e :=
    List.forall_mem_cons.2 ⟨.string _, List.forall_mem_singleton.2 (.string _)⟩
  have hlines : WellFormed takesList (.lambda .any (.member (.property "Order") "Lines") "l"
      (.binary .isIn (.member (.property "l") "Tag")
        (.list [.literal (.string "it's"), .literal (.string "b) eq (c")]))) :=
    .lambda .any (.member (.property rfl) rfl) rfl
      (.listed rfl (.chain (.member (.property rfl) rfl)) hitems)
  have hminus : WellFormed takesList (.binary .sub (.property "a")
      (.binary .sub (.property "b") (.literal (.int32 1)))) :=
    .binary rfl (.chain (.property rfl))
      (.binary rfl (.chain (.property rfl)) (.int32 (by decide)))
  have h : WellFormed takesList openLines :=
    .binary rfl (.unary .not hlines)
      (.binary rfl (.unary .negate hminus) (.call rfl (List.forall_mem_nil _)))
  have hs : ((openLines.write .query).run {}).1 =
      .ok "not Order/Lines/any(l:l/Tag in ('it''s','b) eq (c')) or -(a sub (b sub 1)) eq f()" := rfl
  obtain ⟨s, hw, hr, -⟩ := write_unambiguous h {}
  obtain rfl := Except.ok.inj (hs.symm.trans hw)
  exact ⟨hs, hr⟩

end RequestUri
