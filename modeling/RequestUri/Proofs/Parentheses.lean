import RequestUri.Proofs.Nesting
import RequestUri.Proofs.Unambiguous

/-! No parentheses too many. A text of names, operators and parentheses is read as an expression
that is written with as many parentheses at most. So an expression is not read back from its own
text once a pair is gone. -/

namespace RequestUri

inductive IsFormula : Expr → Prop
  | name {w : String} (h : isName w) : IsFormula (.property w)
  | unary (op : UnaryOp) {e : Expr} (h : IsFormula e) : IsFormula (.unary op e)
  | binary (op : BinaryOp) {left right : Expr} (hl : IsFormula left) (hr : IsFormula right) :
    IsFormula (.binary op left right)

/-- No operator takes a list: parentheses do nothing but hold together. -/
def takesNoList (_ : BinaryOp) : Bool := false

theorem IsFormula.wellFormed {e : Expr} (h : IsFormula e) : WellFormed takesNoList e := by
  induction h with
  | name h => exact .chain (.property h)
  | unary op _ ih => exact .unary op ih
  | binary op _ _ hl hr => exact .binary rfl hl hr

theorem IsFormula.text_eq {e : Expr} (h : IsFormula e) (place : Place) :
    e.text place = e.text .query := by
  induction h with
  | name h => rfl
  | unary op _ ih => simp only [Expr.text, ih]
  | binary op _ _ hl hr => simp only [Expr.text, hl, hr]

inductive Lexeme where
  | name (w : String) (h : isName w)
  | lead (op : UnaryOp)
  | link (op : BinaryOp)
  | opening
  | closing
deriving DecidableEq

namespace Lexeme

def text : Lexeme → String
  | name w _ => w
  | lead op => op.lead
  | link op => " " ++ op.keyword ++ " "
  | opening => "("
  | closing => ")"

def token : Lexeme → Token
  | name w _ => .word w
  | lead .not => .word "not"
  | lead .negate => .minus
  | link op => .word op.keyword
  | opening => .opening
  | closing => .closing

def chars (ls : List Lexeme) : List Char := ls.flatMap fun l => l.text.toList

theorem chars_cons (l : Lexeme) (ls : List Lexeme) : chars (l :: ls) = l.text.toList ++ chars ls :=
  rfl

theorem chars_append (ls more : List Lexeme) : chars (ls ++ more) = chars ls ++ chars more := by
  simp [chars]

inductive Due where
  | operand
  | operator
deriving DecidableEq

/-- Operands and operators take turns; a parenthesis opens before an operand and closes behind
one. -/
def turn : Due → Lexeme → Option Due
  | .operand, name _ _ => some .operator
  | .operand, lead _ => some .operand
  | .operand, opening => some .operand
  | .operator, link _ => some .operand
  | .operator, closing => some .operator
  | _, _ => none

def Passes {σ : Type} (step : σ → Lexeme → Option σ) (s : σ) (ls : List Lexeme) (s' : σ) : Prop :=
  ls.foldlM step s = some s'

section Passes
variable {σ : Type} {step : σ → Lexeme → Option σ} {s s' : σ} {l : Lexeme} {ls more : List Lexeme}

theorem passes_cons :
    Passes step s (l :: ls) s' ↔ ∃ next, step s l = some next ∧ Passes step next ls s' := by
  rw [Passes, List.foldlM_cons]
  exact Option.bind_eq_some_iff

theorem passes_append :
    Passes step s (ls ++ more) s' ↔ ∃ next, Passes step s ls next ∧ Passes step next more s' := by
  rw [Passes, List.foldlM_append]
  exact Option.bind_eq_some_iff

end Passes

theorem not_mem_of_isName {w : String} (h : isName w) {c : Char} (hc : isWordChar c = false) :
    c ∉ w.toList := by
  intro hin
  have hword := (isWord_of_isName h).1.2 c hin
  simp [hc] at hword

theorem not_mem_of_ne_opening {l : Lexeme} (h : l ≠ opening) : '(' ∉ l.text.toList := by
  cases l with
  | name w hw => exact not_mem_of_isName hw rfl
  | lead op => cases op <;> decide
  | link op => cases op <;> decide
  | opening => exact absurd rfl h
  | closing => decide

theorem not_mem_of_ne_closing {l : Lexeme} (h : l ≠ closing) : ')' ∉ l.text.toList := by
  cases l with
  | name w hw => exact not_mem_of_isName hw rfl
  | lead op => cases op <;> decide
  | link op => cases op <;> decide
  | opening => decide
  | closing => exact absurd rfl h

theorem split_chars (sign : Lexeme) {c : Char} (hs : sign.text.toList = [c])
    (hne : ∀ l, l ≠ sign → c ∉ l.text.toList) {ls : List Lexeme} {before after : List Char}
    (h : chars ls = before ++ c :: after) :
    ∃ first last, ls = first ++ sign :: last ∧ chars first = before ∧ chars last = after := by
  induction ls generalizing before with
  | nil => simp [chars] at h
  | cons l ls ih =>
    -- either the sign is the first lexeme, or the whole first lexeme stands before it
    by_cases hl : l = sign ∧ before = []
    · obtain ⟨rfl, rfl⟩ := hl
      rw [chars_cons, hs] at h
      exact ⟨[], ls, rfl, rfl, List.cons.inj h |>.2⟩
    · have hbefore : ∃ more, before = l.text.toList ++ more ∧ chars ls = more ++ c :: after := by
        rw [chars_cons] at h
        obtain ⟨more, hb, hr⟩ | ⟨more, ht, hr⟩ := List.append_eq_append_iff.1 h
        · exact ⟨more, hb, hr⟩
        · by_cases he : l = sign
          · subst he
            have hb : before ≠ [] := fun hb => hl ⟨rfl, hb⟩
            rw [hs] at ht
            obtain ⟨d, ds, rfl⟩ := List.exists_cons_of_ne_nil hb
            simp_all
          · cases more with
            | nil => exact ⟨[], by simpa using ht.symm, by simpa using hr.symm⟩
            | cons d more =>
              obtain ⟨rfl, -⟩ := List.cons.inj hr
              exact absurd (by simp [ht]) (hne l he)
      obtain ⟨more, rfl, hr⟩ := hbefore
      obtain ⟨first, last, rfl, rfl, hlast⟩ := ih hr
      exact ⟨l :: first, last, rfl, rfl, hlast⟩

/-- How many parentheses are open behind a lexeme; none if it closes one that is not open. -/
def deepen : Nat → Lexeme → Option Nat
  | depth, opening => some (depth + 1)
  | 0, closing => none
  | depth + 1, closing => some depth
  | depth, _ => some depth

theorem isNested_of_ne {l : Lexeme} (ho : l ≠ opening) (hc : l ≠ closing) : IsNested l.text := by
  apply IsNested.of_signless
  cases l with
  | name w hw =>
    rw [List.all_eq_true]
    intro c hin
    have hne : ∀ sign, isWordChar sign = false → c ≠ sign := by
      rintro sign hsign rfl
      exact not_mem_of_isName hw hsign hin
    simp [isNestingSign, hne '\'' rfl, hne '(' rfl, hne ')' rfl]
  | lead op => cases op <;> rfl
  | link op => cases op <;> rfl
  | opening => exact absurd rfl ho
  | closing => exact absurd rfl hc

theorem scan_nesting (depth : Nat) (l : Lexeme) (rest : List Char) :
    Nesting.scan ⟨false, depth⟩ (l.text.toList ++ rest) =
      (l.deepen depth).bind fun depth => Nesting.scan ⟨false, depth⟩ rest := by
  cases l with
  | opening => exact Nesting.scan_cons rfl rest
  | closing =>
    cases depth with
    | zero => rfl
    | succ depth => exact Nesting.scan_cons rfl rest
  | name w hw => exact Nesting.scan_append (isNested_of_ne (by simp) (by simp) depth) rest
  | lead op => exact Nesting.scan_append (isNested_of_ne (by simp) (by simp) depth) rest
  | link op => exact Nesting.scan_append (isNested_of_ne (by simp) (by simp) depth) rest

theorem scan_nesting_chars (depth : Nat) (ls : List Lexeme) :
    Nesting.scan ⟨false, depth⟩ (chars ls) = (ls.foldlM deepen depth).map (Nesting.mk false) := by
  induction ls generalizing depth with
  | nil => rfl
  | cons l ls ih =>
    rw [chars_cons, scan_nesting, List.foldlM_cons]
    cases h : l.deepen depth with
    | none => rfl
    | some depth' => exact ih depth'

theorem passes_deepen_of_isNested {ls : List Lexeme} {s : String} (hs : chars ls = s.toList)
    (h : IsNested s) (depth : Nat) : Passes deepen depth ls depth := by
  have hscan := h depth
  rw [← hs, scan_nesting_chars] at hscan
  obtain ⟨depth', hd, he⟩ := Option.map_eq_some_iff.1 hscan
  cases he
  exact hd

end Lexeme

namespace Expr

def surround (precedence : Nat) (e : Expr) (ls : List Lexeme) : List Lexeme :=
  if e.isLoose precedence then .opening :: (ls ++ [.closing]) else ls

def lexemes : Expr → List Lexeme
  | property w => if h : isName w then [.name w h] else []
  | unary op operand => .lead op :: operand.surround UnaryOp.precedence (lexemes operand)
  | binary op left right =>
    left.surround op.precedence (lexemes left) ++
      .link op :: right.surround (op.precedence + 1) (lexemes right)
  | _ => []

end Expr

open Lexeme

theorem chars_surround (precedence : Nat) (e : Expr) {ls : List Lexeme} {text : String}
    (h : chars ls = text.toList) :
    chars (e.surround precedence ls) = (e.enclose precedence text).toList := by
  by_cases hl : e.isLoose precedence
  · simp [Expr.surround, Expr.enclose, hl, Lexeme.text, chars, ← h]
  · simp [Expr.surround, Expr.enclose, hl, h]

theorem IsFormula.chars_lexemes {e : Expr} (h : IsFormula e) :
    chars e.lexemes = (e.text .query).toList := by
  induction h with
  | name h => simp [Expr.lexemes, h, chars, Lexeme.text, Expr.text]
  | @unary op e h ih =>
    rw [Expr.lexemes, chars_cons, chars_surround _ e ih, Expr.text, String.toList_append]
    rfl
  | @binary op left right _ _ hl hr =>
    rw [Expr.lexemes, chars_append, chars_cons, chars_surround _ left hl,
      chars_surround _ right hr]
    simp [Expr.text, Lexeme.text]

theorem IsFormula.lexemesInduction {P : List Lexeme → Prop} (name : ∀ w h, P [.name w h])
    (lead : ∀ op ls, P ls → P (.lead op :: ls))
    (link : ∀ op ls more, P ls → P more → P (ls ++ .link op :: more))
    (parentheses : ∀ ls, P ls → P (.opening :: (ls ++ [.closing])))
    {e : Expr} (h : IsFormula e) : P e.lexemes := by
  have surround : ∀ (precedence : Nat) (e : Expr), P e.lexemes →
      P (e.surround precedence e.lexemes) := by
    intro precedence e he
    rw [Expr.surround]
    split
    · exact parentheses _ he
    · exact he
  induction h with
  | @name w h =>
    rw [Expr.lexemes, dif_pos h]
    exact name w h
  | unary op _ ih => exact lead op _ (surround _ _ ih)
  | binary op _ _ hl hr => exact link op _ _ (surround _ _ hl) (surround _ _ hr)

theorem IsFormula.passes_turn_lexemes {e : Expr} (h : IsFormula e) :
    Passes turn .operand e.lexemes .operator := by
  refine h.lexemesInduction (P := (Passes turn .operand · .operator)) ?name ?lead ?link ?parentheses
  case name => exact fun w h => rfl
  case lead => exact fun op ls ih => passes_cons.2 ⟨.operand, rfl, ih⟩
  case link =>
    intro op ls more hl hr
    exact passes_append.2 ⟨.operator, hl, passes_cons.2 ⟨.operand, rfl, hr⟩⟩
  case parentheses =>
    intro ls ih
    exact passes_cons.2 ⟨.operand, rfl, passes_append.2 ⟨.operator, ih, rfl⟩⟩

theorem IsFormula.passes_deepen_lexemes {e : Expr} (h : IsFormula e) :
    ∀ depth, Passes deepen depth e.lexemes depth := by
  refine h.lexemesInduction (P := fun ls => ∀ depth, Passes deepen depth ls depth)
    ?name ?lead ?link ?parentheses
  case name => exact fun w h depth => rfl
  case lead => exact fun op ls ih depth => passes_cons.2 ⟨depth, rfl, ih depth⟩
  case link =>
    intro op ls more hl hr depth
    exact passes_append.2 ⟨depth, hl depth, passes_cons.2 ⟨depth, rfl, hr depth⟩⟩
  case parentheses =>
    intro ls ih depth
    exact passes_cons.2 ⟨depth + 1, rfl, passes_append.2 ⟨depth + 1, ih (depth + 1), rfl⟩⟩

section Scan

theorem breaks_of_passes {ls : List Lexeme} {due : Due} (h : Passes turn .operator ls due) :
    Breaks (chars ls) := by
  cases ls with
  | nil => trivial
  | cons l ls =>
    obtain ⟨next, hturn, -⟩ := passes_cons.1 h
    cases l with
    | link op => simp [chars_cons, Lexeme.text, Breaks]
    | closing => simp [chars_cons, Lexeme.text, Breaks]
    | name w hw => simp [turn] at hturn
    | lead op => simp [turn] at hturn
    | opening => simp [turn] at hturn

theorem scan_lexeme (l : Lexeme) {rest : List Char}
    (h : turn .operand l = some .operator → Breaks rest) :
    scan .between (l.text.toList ++ rest) = (scan .between rest).map (l.token :: ·) := by
  cases l with
  | name w hw => exact scan_word (isWord_of_isName hw).1 (h rfl)
  | lead op =>
    cases op with
    | not =>
      have hw : IsWord "not".toList := isWord_of_all rfl rfl
      have hr : Breaks (' ' :: rest) := by simp [Breaks]
      change scan .between ("not".toList ++ ' ' :: rest) = _
      rw [scan_word hw hr, scan_blank]
      rfl
    | negate => exact scan_sign rfl rest
  | link op =>
    have hr : Breaks (' ' :: rest) := by simp [Breaks]
    have ht : (Lexeme.link op).text.toList ++ rest = ' ' :: (op.keyword.toList ++ ' ' :: rest) := by
      simp [Lexeme.text]
    rw [ht, scan_blank, scan_word (isWord_keyword op) hr, scan_blank]
    rfl
  | opening => exact scan_sign rfl rest
  | closing => exact scan_sign rfl rest

/-- Lexemes that take turns are told apart in the text. -/
theorem scan_chars {ls : List Lexeme} {due due' : Due} (h : Passes turn due ls due') :
    scan .between (chars ls) = some (ls.map Lexeme.token) := by
  induction ls generalizing due with
  | nil => rfl
  | cons l ls ih =>
    obtain ⟨next, hturn, hrest⟩ := passes_cons.1 h
    have hbreaks : turn .operand l = some .operator → Breaks (chars ls) := by
      intro hname
      cases due with
      | operand =>
        obtain rfl : Due.operator = next := Option.some.inj (hname.symm.trans hturn)
        exact breaks_of_passes hrest
      | operator => cases l <;> simp_all [turn]
    rw [chars_cons, scan_lexeme l hbreaks, ih hrest]
    rfl

end Scan

def openings (precedence : Nat) (e : Expr) : Nat :=
  (e.surround precedence e.lexemes).count .opening

section Openings

theorem openings_eq (precedence : Nat) (e : Expr) :
    openings precedence e = e.lexemes.count .opening + if e.isLoose precedence then 1 else 0 := by
  by_cases h : e.isLoose precedence <;> simp [openings, Expr.surround, h]

theorem openings_unary (precedence : Nat) (op : UnaryOp) (e : Expr) :
    openings precedence (.unary op e) = openings UnaryOp.precedence e := by
  rw [openings_eq, Expr.lexemes]
  simp [Expr.isLoose, openings]

theorem openings_binary {precedence : Nat} {op : BinaryOp} (h : precedence ≤ op.precedence)
    (left right : Expr) : openings precedence (.binary op left right) =
      openings op.precedence left + openings (op.precedence + 1) right := by
  rw [openings_eq, Expr.lexemes]
  simp [Expr.isLoose, Nat.not_lt.2 h, openings]

theorem openings_le {p q : Nat} (h : p ≤ q) (e : Expr) : openings p e ≤ openings q e := by
  rw [openings_eq, openings_eq]
  have hloose : e.isLoose p → e.isLoose q := by
    cases e <;> simp [Expr.isLoose]
    omega
  by_cases hp : e.isLoose p
  · simp [hp, hloose hp]
  · simp [hp]

theorem openings_le_succ (p : Nat) (e : Expr) : openings p e ≤ openings 0 e + 1 := by
  rw [openings_eq, openings_eq]
  split <;> omega

end Openings

namespace Pending

/-- A stack of operators and parentheses on which each binary operator binds tighter than what it
lies on. -/
inductive IsOrdered : List Pending → Prop
  | nil : IsOrdered []
  | unary (op : UnaryOp) {stack : List Pending} (h : IsOrdered stack) :
    IsOrdered (unary op :: stack)
  | binary (op : BinaryOp) (left : Expr) {stack : List Pending}
    (hd : demand stack ≤ op.precedence) (h : IsOrdered stack) : IsOrdered (binary op left :: stack)
  | parenthesis {stack : List Pending} (h : IsOrdered stack) : IsOrdered (parenthesis :: stack)

def depth : List Pending → Nat
  | parenthesis :: stack => depth stack + 1
  | _ :: stack => depth stack
  | [] => 0

/-- The parentheses that are needed to get to a stack. -/
def toll : List Pending → Nat
  | parenthesis :: stack => toll stack + 1
  | binary op left :: stack => toll stack + openings op.precedence left
  | _ :: stack => toll stack
  | [] => 0

theorem demand_le (stack : List Pending) : demand stack ≤ UnaryOp.precedence := by
  cases stack with
  | nil => exact Nat.zero_le _
  | cons top stack =>
    cases top with
    | unary op => exact Nat.le_refl _
    | binary op left => exact precedence_lt op
    | _ => exact Nat.zero_le _

section Settle
variable {stack : List Pending} (h : IsOrdered stack) (q : Nat) (e : Expr)
include h

theorem isOrdered_settle : IsOrdered (settle q stack e).1 := by
  induction h generalizing e with
  | nil => exact .nil
  | unary op _ ih => exact ih _
  | binary op left hd h ih =>
    rw [settle]
    split
    · exact ih _
    · exact .binary op left hd h
  | parenthesis h _ => exact .parenthesis h

theorem depth_settle : depth (settle q stack e).1 = depth stack := by
  induction h generalizing e with
  | nil => rfl
  | unary op _ ih => exact ih _
  | binary op left hd h ih =>
    rw [settle]
    split
    · exact ih _
    · rfl
  | parenthesis h _ => rfl

theorem demand_settle_le : demand (settle q stack e).1 ≤ q := by
  induction h generalizing e with
  | nil => exact Nat.zero_le q
  | unary op _ ih => exact ih _
  | binary op left hd h ih =>
    rw [settle]
    split
    · exact ih _
    · next hq => exact Nat.not_le.1 hq
  | parenthesis h _ => exact Nat.zero_le q

/-- An operand that the whole stack takes as it is costs no more as a part of a larger one. -/
theorem toll_settle_le {p : Nat} (hq : q ≤ p) (hp : demand stack ≤ p) :
    toll (settle q stack e).1 + openings q (settle q stack e).2 ≤ toll stack + openings p e := by
  induction h generalizing e p with
  | nil => exact Nat.add_le_add_left (openings_le hq e) _
  | @unary op stack _ ih =>
    have hu : openings UnaryOp.precedence e ≤ openings p e := openings_le hp e
    have hs := ih (.unary op e) hq ((demand_le stack).trans hp)
    rw [openings_unary] at hs
    exact hs.trans (Nat.add_le_add_left hu _)
  | @binary op left stack hd h ih =>
    rw [settle]
    split
    · next hle =>
      have hr : openings (op.precedence + 1) e ≤ openings p e := openings_le hp e
      have hs := ih (.binary op left e) hle hd
      rw [openings_binary (Nat.le_refl _)] at hs
      simp only [toll]
      omega
    · exact Nat.add_le_add_left (openings_le hq e) _
  | parenthesis h _ => exact Nat.add_le_add_left (openings_le hq e) _

end Settle

theorem eq_of_demand_eq_zero {stack : List Pending} (h : IsOrdered stack) (hd : demand stack = 0) :
    (stack = [] ∧ depth stack = 0) ∨
      ∃ rest, stack = parenthesis :: rest ∧ IsOrdered rest ∧ depth stack = depth rest + 1 := by
  cases h with
  | nil => exact .inl ⟨rfl, rfl⟩
  | unary op h => simp [demand, UnaryOp.precedence] at hd
  | binary op left _ h => simp [demand] at hd
  | parenthesis h => exact .inr ⟨_, rfl, h, rfl⟩

end Pending

section Reading
open Pending State

/-- Where the reader stands after `n` opening parentheses, `depth` of which are still open: what it
holds needs no more than these. -/
inductive Holds (n depth : Nat) : Due → State → Prop
  | operand {stack : List Pending} (ho : IsOrdered stack) (hd : Pending.depth stack = depth)
    (ht : toll stack ≤ n) : Holds n depth .operand (.operand stack)
  | operator {stack : List Pending} {e : Expr} (ho : IsOrdered stack)
    (hd : Pending.depth stack = depth)
    (ht : toll stack + openings UnaryOp.precedence e ≤ n) :
    Holds n depth .operator (.operator stack e)

theorem atom?_of_isName {w : String} (h : isName w) : atom? w = some (.property w) ∧ w ≠ "not" := by
  refine ⟨if_pos h, ?_⟩
  rintro rfl
  exact absurd h (by decide)

theorem openings_property (precedence : Nat) (w : String) :
    openings precedence (.property w) = 0 := by
  rw [openings_eq, Expr.lexemes]
  split <;> simp [Expr.isLoose]

section Operator
variable {n depth : Nat} {stack : List Pending} {e : Expr} (ho : IsOrdered stack)
  (ht : toll stack + openings UnaryOp.precedence e ≤ n)
include ho ht

theorem step_link (hd : Pending.depth stack = depth) (op : BinaryOp) :
    ∃ st, step takesNoList (.operator stack e) (.word op.keyword) = some st ∧
      Holds n depth .operand st := by
  have htoll := toll_settle_le ho op.precedence e (precedence_lt op).le (demand_le stack)
  refine ⟨.operand (.binary op (settle op.precedence stack e).2 ::
    (settle op.precedence stack e).1), ?_, .operand ?_ ?_ (htoll.trans ht)⟩
  · simp [step, ofKeyword?_keyword, await, takesNoList]
  · exact .binary op _ (demand_settle_le ho _ e) (isOrdered_settle ho _ e)
  · exact (depth_settle ho _ e).trans hd

theorem settle_zero : ∃ e', openings 0 e' + toll (settle 0 stack e).1 ≤ n ∧
    ((Pending.depth stack = 0 ∧ settle 0 stack e = ([], e')) ∨
      ∃ rest, Pending.depth stack = Pending.depth rest + 1 ∧ IsOrdered rest ∧
        settle 0 stack e = (.parenthesis :: rest, e')) := by
  have htoll := toll_settle_le ho 0 e (Nat.zero_le _) (demand_le stack)
  have hdepth := depth_settle ho 0 e
  refine ⟨(settle 0 stack e).2, by omega, ?_⟩
  obtain ⟨hnil, hd⟩ | ⟨rest, hcons, hrest, hd⟩ := eq_of_demand_eq_zero (isOrdered_settle ho 0 e)
    (Nat.le_zero.1 (demand_settle_le ho 0 e))
  · exact .inl ⟨hdepth.symm.trans hd, Prod.ext hnil rfl⟩
  · exact .inr ⟨rest, hdepth.symm.trans hd, hrest, Prod.ext hcons rfl⟩

theorem step_closing (hd : Pending.depth stack = depth + 1) :
    ∃ st, step takesNoList (.operator stack e) .closing = some st ∧ Holds n depth .operator st := by
  obtain ⟨e', htoll, ⟨hzero, -⟩ | ⟨rest, hdepth, hrest, hs⟩⟩ := settle_zero ho ht
  · omega
  · rw [hs, toll] at htoll
    have hle := openings_le_succ UnaryOp.precedence e'
    refine ⟨.operator rest e', by simp [step, hs, close], .operator hrest ?_ ?_⟩
    · omega
    · omega

theorem finish_operator (hd : Pending.depth stack = 0) :
    ∃ e', finish (.operator stack e) = some e' ∧ openings 0 e' ≤ n := by
  obtain ⟨e', htoll, ⟨-, hs⟩ | ⟨rest, hdepth, -, -⟩⟩ := settle_zero ho ht
  · exact ⟨e', by simp [finish, hs], by omega⟩
  · omega

end Operator

theorem step_lexeme {n depth depth' : Nat} {due due' : Due} {st : State} (h : Holds n depth due st)
    {l : Lexeme} (hturn : turn due l = some due') (hdepth : l.deepen depth = some depth') :
    ∃ st', step takesNoList st l.token = some st' ∧
      Holds (n + [l].count .opening) depth' due' st' := by
  cases h with
  | @operand stack ho hd ht =>
    cases l with
    | name w hw =>
      cases hturn
      cases hdepth
      obtain ⟨hatom, hnot⟩ := atom?_of_isName hw
      refine ⟨.operator stack (.property w), by simp [step, token, hnot, hatom], .operator ho hd ?_⟩
      rw [openings_property]
      exact ht
    | lead op =>
      cases hturn
      cases hdepth
      refine ⟨.operand (.unary op :: stack), ?_, .operand (.unary op ho) hd ht⟩
      cases op <;> rfl
    | opening =>
      cases hturn
      cases hdepth
      exact ⟨.operand (.parenthesis :: stack), rfl,
        .operand (.parenthesis ho) (congrArg (· + 1) hd) (Nat.succ_le_succ ht)⟩
    | link op => cases hturn
    | closing => cases hturn
  | @operator stack e ho hd ht =>
    cases l with
    | link op =>
      cases hturn
      cases hdepth
      exact step_link ho ht hd op
    | closing =>
      cases hturn
      cases depth with
      | zero => cases hdepth
      | succ depth =>
        cases hdepth
        exact step_closing ho ht hd
    | name w hw => cases hturn
    | lead op => cases hturn
    | opening => cases hturn

/-- Lexemes that take turns and whose parentheses are closed are read, and not as an expression that
needs more parentheses. -/
theorem run_lexemes {ls : List Lexeme} {n depth : Nat} {due : Due} {st : State}
    (h : Holds n depth due st) (hturns : Passes turn due ls .operator)
    (hnested : Passes deepen depth ls 0) :
    ∃ e, run takesNoList st (ls.map token) = some e ∧ openings 0 e ≤ n + ls.count .opening := by
  induction ls generalizing n depth due st with
  | nil =>
    cases hturns
    cases hnested
    cases h with
    | operator ho hd ht => exact finish_operator ho ht hd
  | cons l ls ih =>
    obtain ⟨next, hturn, hrest⟩ := passes_cons.1 hturns
    obtain ⟨depth', hdepth, hnested'⟩ := passes_cons.1 hnested
    obtain ⟨st', hstep, hst'⟩ := step_lexeme h hturn hdepth
    obtain ⟨e, hrun, hle⟩ := ih hst' hrest hnested'
    refine ⟨e, ?_, ?_⟩
    · rw [List.map_cons, run, hstep]
      exact hrun
    · rw [List.count_cons]
      rw [List.count_cons, List.count_nil] at hle
      omega

theorem readExpr_lexemes {ls : List Lexeme} (hturns : Passes turn .operand ls .operator)
    (hnested : Passes deepen 0 ls 0) :
    ∃ e, readExpr takesNoList (String.ofList (chars ls)) = some e ∧
      openings 0 e ≤ ls.count .opening := by
  have hstart : Holds 0 0 .operand (.operand []) := .operand .nil rfl (Nat.le_refl 0)
  obtain ⟨e, hrun, hle⟩ := run_lexemes hstart hturns hnested
  refine ⟨e, ?_, by omega⟩
  rw [readExpr, State.read, String.toList_ofList, scan_chars hturns]
  exact hrun

end Reading

section Removal
variable {first inside last : List Lexeme}

theorem passes_turn_remove
    (h : Passes turn .operand (first ++ .opening :: (inside ++ .closing :: last)) .operator) :
    Passes turn .operand (first ++ (inside ++ last)) .operator := by
  obtain ⟨due, hfirst, hrest⟩ := passes_append.1 h
  obtain ⟨next, hopen, hrest⟩ := passes_cons.1 hrest
  obtain ⟨due', hinside, hrest⟩ := passes_append.1 hrest
  obtain ⟨next', hclose, hlast⟩ := passes_cons.1 hrest
  cases due with
  | operand =>
    cases hopen
    cases due' with
    | operand => cases hclose
    | operator =>
      cases hclose
      exact passes_append.2 ⟨.operand, hfirst, passes_append.2 ⟨.operator, hinside, hlast⟩⟩
  | operator => cases hopen

theorem passes_deepen_remove (hin : ∀ depth, Passes deepen depth inside depth)
    (h : Passes deepen 0 (first ++ .opening :: (inside ++ .closing :: last)) 0) :
    Passes deepen 0 (first ++ (inside ++ last)) 0 := by
  obtain ⟨depth, hfirst, hrest⟩ := passes_append.1 h
  obtain ⟨next, hopen, hrest⟩ := passes_cons.1 hrest
  cases hopen
  obtain ⟨depth', hinside, hrest⟩ := passes_append.1 hrest
  obtain rfl : depth + 1 = depth' := Option.some.inj ((hin (depth + 1)).symm.trans hinside)
  obtain ⟨next', hclose, hlast⟩ := passes_cons.1 hrest
  cases hclose
  exact passes_append.2 ⟨depth, hfirst, passes_append.2 ⟨depth, hin depth, hlast⟩⟩

end Removal

theorem IsFormula.write_eq {e : Expr} (h : IsFormula e) (place : Place) (j : Journal) :
    ((e.write place).run j).1 = .ok (e.text .query) := by
  rw [e.write_takes place j, ← h.text_eq place]
  exact congrArg Prod.fst (carry_of_faultless _ e.marks j (faultless_of_wellFormed h.wellFormed))

/-- A formula is read back from its text, and without any one pair of matching parentheses the text
is read as another expression. -/
theorem parentheses_needed {e : Expr} (h : IsFormula e) (place : Place) (j : Journal) :
    ∃ s, ((e.write place).run j).1 = .ok s ∧ readExpr takesNoList s = some e ∧
      ∀ before inside after, s = before ++ "(" ++ inside ++ ")" ++ after → IsNested inside →
        ∃ e', readExpr takesNoList (before ++ inside ++ after) = some e' ∧ e' ≠ e := by
  refine ⟨e.text .query, h.write_eq place j, readExpr_text h.wellFormed, ?_⟩
  intro before inside after hs hinside
  have hchars : chars e.lexemes =
      before.toList ++ '(' :: (inside.toList ++ ')' :: after.toList) := by
    rw [h.chars_lexemes, hs]
    simp
  obtain ⟨first, rest, hls, hfirst, hrest⟩ :=
    split_chars .opening rfl (fun _ => not_mem_of_ne_opening) hchars
  obtain ⟨middle, last, rfl, hmiddle, hlast⟩ :=
    split_chars .closing rfl (fun _ => not_mem_of_ne_closing) hrest
  have hturns := h.passes_turn_lexemes
  have hnested := h.passes_deepen_lexemes 0
  rw [hls] at hturns hnested
  obtain ⟨e', hread, hle⟩ := readExpr_lexemes (passes_turn_remove hturns)
    (passes_deepen_remove (passes_deepen_of_isNested hmiddle hinside) hnested)
  refine ⟨e', ?_, ?_⟩
  · have htext : String.ofList (chars (first ++ (middle ++ last))) = before ++ inside ++ after := by
      rw [← String.toList_inj, String.toList_ofList, chars_append, chars_append, hfirst, hmiddle,
        hlast]
      simp
    rw [← htext]
    exact hread
  · -- what is read without the pair needs one pair less than `e` is written with
    rintro rfl
    have hcount : openings 0 e' = e'.lexemes.count .opening := by
      rw [openings_eq]
      cases e' <;> simp [Expr.isLoose]
    rw [hcount, hls] at hle
    have hclosing : (closing :: last).count opening = last.count opening :=
      List.count_cons_of_ne (by decide)
    simp only [List.count_append, List.count_cons_self, hclosing] at hle
    omega

/-- The text is `(Price add Tax) mul -(Rate sub Cut)`. -/
def taxedShare : Expr :=
  .binary .mul (.binary .add (.property "Price") (.property "Tax"))
    (.unary .negate (.binary .sub (.property "Rate") (.property "Cut")))

theorem isFormula_taxedShare : IsFormula taxedShare :=
  .binary .mul (.binary .add (.name rfl) (.name rfl))
    (.unary .negate (.binary .sub (.name rfl) (.name rfl)))

theorem parentheses_needed_in_taxedShare : ∃ e,
    readExpr takesNoList "(Price add Tax) mul -Rate sub Cut" = some e ∧ e ≠ taxedShare := by
  obtain ⟨s, hs, -, hremove⟩ := parentheses_needed isFormula_taxedShare .query {}
  refine hremove "(Price add Tax) mul -" "Rate sub Cut" "" ?_ (.of_signless rfl)
  exact (Except.ok.inj hs).symm

end RequestUri
