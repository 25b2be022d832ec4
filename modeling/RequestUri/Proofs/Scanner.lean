import Mathlib.Tactic.FinCases
import RequestUri.Text.Quote

/-! The words, strings and signs that make up the text of an expression. -/

namespace RequestUri

inductive Token where
  | word (w : String)
  /-- A word and the parenthesis that opens right behind it. -/
  | head (w : String)
  /-- A word and the colon right behind it. -/
  | bound (w : String)
  | string (s : String)
  | opening
  | closing
  | comma
  | slash
  | minus
deriving DecidableEq

def isWordChar (c : Char) : Bool := c.isAlphanum || c == '_'

def IsWord (w : List Char) : Prop := w ≠ [] ∧ ∀ c ∈ w, isWordChar c

theorem isWord_of_all {w : List Char} (hne : w.isEmpty = false) (h : w.all isWordChar = true) :
    IsWord w :=
  ⟨by simpa using hne, List.all_eq_true.1 h⟩

/-- Where the scan of a text stands. -/
inductive Mode where
  | between
  | word (w : List Char)
  | string (s : List Char)
  /-- In a string and behind a quote, which ends it unless another quote follows. -/
  | quote (s : List Char)

namespace Mode

def sign? : Char → Option Token
  | '(' => some .opening
  | ')' => some .closing
  | ',' => some .comma
  | '/' => some .slash
  | '-' => some .minus
  | _ => none

def enter (c : Char) : Option (List Token × Mode) :=
  if isWordChar c then some ([], word [c])
  else if c = ' ' then some ([], between)
  else if c = '\'' then some ([], string [])
  else (sign? c).map fun t => ([t], between)

def enterAfter (t : Token) (c : Char) : Option (List Token × Mode) :=
  (enter c).map fun (ts, m) => (t :: ts, m)

def step : Mode → Char → Option (List Token × Mode)
  | between, c => enter c
  | word w, c =>
    if isWordChar c then some ([], word (w ++ [c]))
    else if c = '(' then some ([.head (String.ofList w)], between)
    else if c = ':' then some ([.bound (String.ofList w)], between)
    else enterAfter (.word (String.ofList w)) c
  | string s, c => some ([], if c = '\'' then quote s else string (s ++ [c]))
  | quote s, c =>
    if c = '\'' then some ([], string (s ++ ['\''])) else enterAfter (.string (String.ofList s)) c

def finish : Mode → Option (List Token)
  | between => some []
  | word w => some [.word (String.ofList w)]
  | string _ => none
  | quote s => some [.string (String.ofList s)]

end Mode

open Mode (between)

def scan : Mode → List Char → Option (List Token)
  | m, [] => m.finish
  | m, c :: cs => (m.step c).bind fun (ts, m) => (scan m cs).map (ts ++ ·)

/-- What may follow an operand: nothing, or a character that ends words and strings. -/
def Breaks : List Char → Prop
  | [] => True
  | c :: _ => c ∈ [' ', ')', ',', '/']

theorem scan_quiet {m m' : Mode} {c : Char} (h : m.step c = some ([], m')) (cs : List Char) :
    scan m (c :: cs) = scan m' cs := by
  rw [scan, h]
  simp

theorem scan_blank (rest : List Char) : scan between (' ' :: rest) = scan between rest :=
  scan_quiet rfl rest

theorem scan_sign {c : Char} {t : Token} (h : Mode.step between c = some ([t], between))
    (rest : List Char) : scan between (c :: rest) = (scan between rest).map (t :: ·) := by
  rw [scan, h]
  rfl

theorem scan_word_append {v : List Char} (hv : ∀ c ∈ v, isWordChar c) (w rest : List Char) :
    scan (.word w) (v ++ rest) = scan (.word (w ++ v)) rest := by
  induction v generalizing w with
  | nil => simp
  | cons c v ih =>
    have hc : Mode.step (.word w) c = some ([], .word (w ++ [c])) := by
      simp [Mode.step, hv c List.mem_cons_self]
    have hr := ih (fun d hd => hv d (List.mem_cons_of_mem c hd)) (w ++ [c])
    rw [List.append_assoc] at hr
    rw [List.cons_append, scan_quiet hc, hr]
    rfl

theorem scan_enter_word {w : List Char} (hw : IsWord w) (rest : List Char) :
    scan between (w ++ rest) = scan (.word w) rest := by
  cases w with
  | nil => exact absurd rfl hw.1
  | cons c v =>
    have hc : Mode.step between c = some ([], .word [c]) := by
      simp [Mode.step, Mode.enter, hw.2 c List.mem_cons_self]
    have hr := scan_word_append (fun d hd => hw.2 d (List.mem_cons_of_mem c hd)) [c] rest
    rw [List.cons_append, scan_quiet hc, hr]
    rfl

/- A character that breaks words and strings is read as it is between them. -/
theorem scan_of_breaks {m : Mode} {t : Token} (hf : m.finish = some [t])
    (hs : ∀ c ∈ [' ', ')', ',', '/'], m.step c = Mode.enterAfter t c) {rest : List Char}
    (h : Breaks rest) : scan m rest = (scan between rest).map (t :: ·) := by
  cases rest with
  | nil => rw [scan, hf]; rfl
  | cons c cs =>
    rw [scan, scan, hs c h, Mode.enterAfter]
    change (Option.map _ (Mode.enter c)).bind _ = Option.map _ ((Mode.enter c).bind _)
    cases Mode.enter c with
    | none => rfl
    | some next =>
      obtain ⟨ts, m'⟩ := next
      cases h : scan m' cs <;> simp [h]

section Word
variable {w : String} (hw : IsWord w.toList)
include hw

theorem scan_word {rest : List Char} (h : Breaks rest) :
    scan between (w.toList ++ rest) = (scan between rest).map (Token.word w :: ·) := by
  have hb : scan (.word w.toList) rest =
      (scan between rest).map (Token.word (String.ofList w.toList) :: ·) := by
    refine scan_of_breaks rfl ?_ h
    intro c hc
    fin_cases hc <;> rfl
  rw [scan_enter_word hw, hb, String.ofList_toList]

theorem scan_head (rest : List Char) :
    scan between (w.toList ++ '(' :: rest) = (scan between rest).map (Token.head w :: ·) := by
  have hs : scan (.word w.toList) ('(' :: rest) =
      (scan between rest).map (Token.head (String.ofList w.toList) :: ·) := rfl
  rw [scan_enter_word hw, hs, String.ofList_toList]

theorem scan_bound (rest : List Char) :
    scan between (w.toList ++ ':' :: rest) = (scan between rest).map (Token.bound w :: ·) := by
  have hs : scan (.word w.toList) (':' :: rest) =
      (scan between rest).map (Token.bound (String.ofList w.toList) :: ·) := rfl
  rw [scan_enter_word hw, hs, String.ofList_toList]

end Word

theorem scan_doubleQuotes (s cs rest : List Char) :
    scan (.string s) (Text.doubleQuotes cs ++ rest) = scan (.string (s ++ cs)) rest := by
  induction cs generalizing s with
  | nil => simp [Text.doubleQuotes]
  | cons c cs ih =>
    have hr := ih (s ++ [c])
    rw [List.append_assoc] at hr
    by_cases h : c = '\''
    · subst h
      have hq : Mode.step (.string s) '\'' = some ([], .quote s) := rfl
      have hs : Mode.step (.quote s) '\'' = some ([], .string (s ++ ['\''])) := rfl
      rw [Text.doubleQuotes, if_pos rfl, List.cons_append, List.cons_append, scan_quiet hq,
        scan_quiet hs, hr]
      rfl
    · have hs : Mode.step (.string s) c = some ([], .string (s ++ [c])) := by
        rw [Mode.step, if_neg h]
      rw [Text.doubleQuotes, if_neg h, List.cons_append, scan_quiet hs, hr]
      rfl

theorem scan_quote (s : String) {rest : List Char} (h : Breaks rest) :
    scan between ((Text.quote s).toList ++ rest) =
      (scan between rest).map (Token.string s :: ·) := by
  have hq : (Text.quote s).toList ++ rest =
      '\'' :: (Text.doubleQuotes s.toList ++ '\'' :: rest) := by
    simp [Text.quote]
  have hstring : scan (.string []) (Text.doubleQuotes s.toList ++ '\'' :: rest) =
      scan (.string s.toList) ('\'' :: rest) :=
    scan_doubleQuotes [] s.toList ('\'' :: rest)
  have hend : scan (.quote s.toList) rest =
      (scan between rest).map (Token.string (String.ofList s.toList) :: ·) := by
    refine scan_of_breaks rfl ?_ h
    intro c hc
    fin_cases hc <;> rfl
  rw [String.ofList_toList] at hend
  have henter : Mode.step between '\'' = some ([], .string []) := rfl
  have hquote : Mode.step (.string s.toList) '\'' = some ([], .quote s.toList) := rfl
  rw [hq, scan_quiet henter, hstring, scan_quiet hquote, hend]

end RequestUri
