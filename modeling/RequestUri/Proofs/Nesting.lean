import RequestUri.Proofs.Operand
import RequestUri.Proofs.PathText
import RequestUri.Proofs.PlainText

/-! Quotes and parentheses in the text of an expression. Whatever the strings in it hold, every
quote is closed again, and so is every parenthesis that stands outside of quotes. -/

namespace RequestUri

structure Nesting where
  quoted : Bool
  depth : Nat
deriving DecidableEq

namespace Nesting

/-- Each quote begins or ends quoted text. Outside of it parentheses are counted, and the scan fails
if one closes that was not opened. -/
def step (n : Nesting) (c : Char) : Option Nesting :=
  if c = '\'' then some { n with quoted := !n.quoted }
  else if n.quoted then some n
  else if c = '(' then some { n with depth := n.depth + 1 }
  else if c = ')' then if n.depth = 0 then none else some { n with depth := n.depth - 1 }
  else some n

def scan (n : Nesting) (cs : List Char) : Option Nesting := cs.foldlM step n

theorem scan_cons {n m : Nesting} {c : Char} (h : n.step c = some m) (cs : List Char) :
    n.scan (c :: cs) = m.scan cs := by
  rw [scan, List.foldlM_cons, h]
  rfl

theorem scan_append {n m : Nesting} {cs : List Char} (h : n.scan cs = some m) (rest : List Char) :
    n.scan (cs ++ rest) = m.scan rest := by
  rw [scan, List.foldlM_append]
  change (n.scan cs).bind _ = _
  rw [h]
  rfl

theorem scan_doubleQuotes (depth : Nat) (cs : List Char) :
    scan ⟨true, depth⟩ (Text.doubleQuotes cs) = some ⟨true, depth⟩ := by
  induction cs with
  | nil => rfl
  | cons c cs ih =>
    rw [Text.doubleQuotes]
    split
    · have hend : step ⟨true, depth⟩ '\'' = some ⟨false, depth⟩ := rfl
      have hbegin : step ⟨false, depth⟩ '\'' = some ⟨true, depth⟩ := rfl
      rw [scan_cons hend, scan_cons hbegin, ih]
    · next h =>
      have hc : step ⟨true, depth⟩ c = some ⟨true, depth⟩ := by simp [step, h]
      rw [scan_cons hc, ih]

end Nesting

def isNestingSign (c : Char) : Bool := c == '\'' || c == '(' || c == ')'

/-- From any depth, the scan of the text comes back to it, outside of quotes, and never falls below
zero on the way. -/
def IsNested (s : String) : Prop :=
  ∀ depth, Nesting.scan ⟨false, depth⟩ s.toList = some ⟨false, depth⟩

namespace IsNested

theorem append {s t : String} (hs : IsNested s) (ht : IsNested t) : IsNested (s ++ t) := by
  intro depth
  rw [String.toList_append, Nesting.scan_append (hs depth)]
  exact ht depth

theorem of_signless {s : String} (h : s.toList.all (!isNestingSign ·)) : IsNested s := by
  intro depth
  have hstep : ∀ c ∈ s.toList, Nesting.step ⟨false, depth⟩ c = some ⟨false, depth⟩ := by
    intro c hc
    have hsign := List.all_eq_true.1 h c hc
    simp_all [isNestingSign, Nesting.step]
  generalize s.toList = cs at hstep
  induction cs with
  | nil => rfl
  | cons c cs ih =>
    obtain ⟨hc, hcs⟩ := List.forall_mem_cons.1 hstep
    rw [Nesting.scan_cons hc]
    exact ih hcs

theorem parenthesized {s : String} (h : IsNested s) : IsNested ("(" ++ s ++ ")") := by
  intro depth
  have hs : ("(" ++ s ++ ")").toList = '(' :: (s.toList ++ [')']) := by simp
  have hopen : Nesting.step ⟨false, depth⟩ '(' = some ⟨false, depth + 1⟩ := rfl
  rw [hs, Nesting.scan_cons hopen, Nesting.scan_append (h (depth + 1))]
  rfl

theorem quote (s : String) : IsNested (Text.quote s) := by
  intro depth
  have hs : (Text.quote s).toList = '\'' :: (Text.doubleQuotes s.toList ++ ['\'']) := by
    simp [Text.quote]
  have hbegin : Nesting.step ⟨false, depth⟩ '\'' = some ⟨true, depth⟩ := rfl
  rw [hs, Nesting.scan_cons hbegin, Nesting.scan_append (Nesting.scan_doubleQuotes depth s.toList)]
  rfl

theorem of_isPlain {s : String} (h : Text.isPlain s) : IsNested s := by
  apply of_signless
  rw [List.all_eq_true]
  intro c hc
  have hne : ∀ sign, Text.isPlainChar sign = false → c ≠ sign := by
    rintro sign hsign rfl
    exact Text.not_mem_of_isPlain h hsign hc
  simp [isNestingSign, hne '\'' rfl, hne '(' rfl, hne ')' rfl]

theorem intercalate {texts : List String} (h : ∀ text ∈ texts, IsNested text) :
    IsNested (String.intercalate "," texts) := by
  induction texts with
  | nil => exact of_signless rfl
  | cons text texts ih =>
    obtain ⟨htext, htexts⟩ := List.forall_mem_cons.1 h
    cases texts with
    | nil => simpa using htext
    | cons next texts =>
      rw [String.intercalate_cons_cons]
      exact (htext.append (of_signless rfl)).append (ih htexts)

end IsNested

def Literal.bareTexts : Literal → List String
  | guid text => [text]
  | dateTime text => [text]
  | enum typeName _ => [typeName]
  | _ => []

/-- Strings and members of enumerations may hold anything. JSON would not do: its strings hold
single quotes as they are. -/
theorem Literal.isNested_textAt (place : Place) {v : Literal} (h : v.isPrimitive)
    (hb : ∀ text ∈ v.bareTexts, text.toList.all (!isNestingSign ·)) :
    IsNested (v.textAt place) := by
  cases v with
  | string s =>
    cases place with
    | path =>
      rw [textAt, Text.pathSafe_quote]
      exact IsNested.quote (Text.pathSafe s)
    | query => exact IsNested.quote s
  | guid text => cases place <;> exact IsNested.of_signless (hb text List.mem_cons_self)
  | dateTime text => cases place <;> exact IsNested.of_signless (hb text List.mem_cons_self)
  | enum typeName member =>
    have htype := IsNested.of_signless (hb typeName List.mem_cons_self)
    cases place <;> exact htype.append (IsNested.quote member)
  | json value => cases h
  | _ =>
    rw [textAt_of_isSimple rfl]
    exact IsNested.of_isPlain (isPlain_text rfl)

namespace Expr

def bareTexts : Expr → List String
  | literal value => value.bareTexts
  | property name => [name]
  | member _ name => [name]
  | parameter name => [name]
  | call function _ => [function]
  | lambda _ _ bound _ => [bound]
  | _ => []

def isPrimitive : Expr → Bool
  | literal value => value.isPrimitive
  | _ => true

structure IsTame (e : Expr) : Prop where
  primitive : e.isPrimitive
  bareTexts : ∀ text ∈ e.bareTexts, text.toList.all (!isNestingSign ·)

theorem isNested_enclose {text : String} (h : IsNested text) (precedence : Nat) (e : Expr) :
    IsNested (e.enclose precedence text) := by
  rw [enclose]
  split
  · exact h.parenthesized
  · exact h

theorem isNested_texts (place : Place) {es : List Expr}
    (h : ∀ e ∈ es, IsNested (e.text place)) :
    IsNested (String.intercalate "," (texts place es)) := by
  rw [texts_eq_map]
  exact IsNested.intercalate (List.forall_mem_map.2 h)

theorem isNested_text (place : Place) (e : Expr) (h : ∀ part ∈ e.parts, part.IsTame) :
    IsNested (e.text place) := by
  induction e using walkInduction with
  | literal value =>
    have he := List.forall_mem_singleton.1 h
    exact Literal.isNested_textAt place he.primitive he.bareTexts
  | property name =>
    exact .of_signless ((List.forall_mem_singleton.1 h).bareTexts name List.mem_cons_self)
  | member object name ih =>
    obtain ⟨he, hobject⟩ := List.forall_mem_cons.1 h
    exact ((ih hobject).append (.of_signless rfl)).append
      (.of_signless (he.bareTexts name List.mem_cons_self))
  | parameter name =>
    exact .of_signless ((List.forall_mem_singleton.1 h).bareTexts name List.mem_cons_self)
  | unary op operand ih =>
    have hlead : IsNested op.lead := .of_signless (by cases op <;> rfl)
    exact hlead.append (isNested_enclose (ih (List.forall_mem_cons.1 h).2) _ operand)
  | binary op left right hl hr =>
    obtain ⟨-, hoperands⟩ := List.forall_mem_cons.1 h
    obtain ⟨hleft, hright⟩ := List.forall_mem_append.1 hoperands
    have hword : IsNested op.keyword := .of_signless (by cases op <;> rfl)
    have hblank : IsNested " " := .of_signless rfl
    have hl' := isNested_enclose (hl hleft) op.precedence left
    have hr' := isNested_enclose (hr hright) (op.precedence + 1) right
    exact (((hl'.append hblank).append hword).append hblank).append hr'
  | call function args ih =>
    obtain ⟨he, hargs⟩ := List.forall_mem_cons.1 h
    rw [partsOfAll_eq_flatMap, List.forall_mem_flatMap] at hargs
    have hfunction : IsNested function :=
      .of_signless (he.bareTexts function List.mem_cons_self)
    have hlist := isNested_texts place fun e hin => ih e hin (hargs e hin)
    have htext : (call function args).text place =
        function ++ ("(" ++ String.intercalate "," (texts place args) ++ ")") := by
      simp only [text, String.append_assoc]
    rw [htext]
    exact hfunction.append hlist.parenthesized
  | lambda quantifier collection bound body hc hb =>
    obtain ⟨he, hoperands⟩ := List.forall_mem_cons.1 h
    obtain ⟨hcollection, hbody⟩ := List.forall_mem_append.1 hoperands
    have hbound : IsNested bound := .of_signless (he.bareTexts bound List.mem_cons_self)
    have hword : IsNested quantifier.keyword := .of_signless (by cases quantifier <;> rfl)
    have hpath := ((hc hcollection).append (.of_signless (s := "/") rfl)).append hword
    have hinner := (hbound.append (.of_signless (s := ":") rfl)).append (hb hbody)
    have htext : (lambda quantifier collection bound body).text place =
        collection.text place ++ "/" ++ quantifier.keyword ++
          ("(" ++ (bound ++ ":" ++ body.text place) ++ ")") := by
      simp only [text, String.append_assoc]
    rw [htext]
    exact hpath.append hinner.parenthesized
  | list items ih =>
    obtain ⟨-, hitems⟩ := List.forall_mem_cons.1 h
    rw [partsOfAll_eq_flatMap, List.forall_mem_flatMap] at hitems
    exact (isNested_texts place fun e hin => ih e hin (hitems e hin)).parenthesized
  | textless e ht =>
    have htext : e.text place = "" := by
      cases e <;> simp_all [text, kind, Kind.isTextless]
    rw [htext]
    exact .of_signless rfl

/-- If an expression is written, no string in it can close what was opened around it: the scan of
the text never closes a parenthesis that is not open, and ends outside of quotes with all of them
closed. -/
theorem write_isNested (place : Place) (e : Expr) (j j' : Journal) (text : String)
    (h : (e.write place).run j = (.ok text, j')) (hp : ∀ part ∈ e.parts, part.isPrimitive)
    (hn : ∀ part ∈ e.parts, ∀ name ∈ part.bareTexts, name.toList.all (!isNestingSign ·)) :
    Nesting.scan ⟨false, 0⟩ text.toList = some ⟨false, 0⟩ := by
  obtain rfl : text = e.text place := eq_of_carry_ok ((write_takes place e j).symm.trans h)
  exact isNested_text place e (fun part hin => ⟨hp part hin, hn part hin⟩) 0

/-- Strings that would close the quotes and parentheses around them, in a call, in a list and behind
operators of different precedence. -/
def hostileSearch : Expr :=
  binary .mul
    (binary .or (unary .not (call "contains" [property "Name", literal (.string "') or ('/")]))
      (lambda .any (property "Tags") "t"
        (binary .isIn (member (parameter "t") "Kind")
          (list [literal (.enum "NS.Kind" "a'))"), literal (.string "''("), literal .null]))))
    (literal (.double 0xC004000000000000))

def hostileText : String :=
  "(not contains(Name,''') or (''%2F') or " ++
    "Tags/any(t:t/Kind in (NS.Kind'a''))','''''(',null))) mul -2.5"

theorem hostileSearch_isNested :
    (hostileSearch.write .path).run {} = (.ok hostileText, Journal.raise {} .v401) ∧
      Nesting.scan ⟨false, 0⟩ hostileText.toList = some ⟨false, 0⟩ := by
  have h : (hostileSearch.write .path).run {} = (.ok hostileText, Journal.raise {} .v401) := rfl
  exact ⟨h, write_isNested .path hostileSearch _ _ _ h (by decide) (by decide)⟩

end Expr

end RequestUri
