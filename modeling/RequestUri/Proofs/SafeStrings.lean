import Mathlib.Data.List.Basic
import RequestUri.Proofs.Obstacle
import RequestUri.Proofs.PathText

/-! The text of an expression in a path. It is the text that the expression has in a query once its
strings are made safe; all that is written around the strings is the same in both places. -/

namespace RequestUri

/-- What the text of an expression is put together from. -/
inductive Piece where
  /-- The same text in every place. -/
  | fixed (text : String)
  | string (s : String)

namespace Piece

/-- A string stands in quotes, and in a path it is made safe before. -/
@[simp]
def text : Place → Piece → String
  | _, fixed text => text
  | .path, string s => Text.quote (Text.pathSafe s)
  | .query, string s => Text.quote s

@[simp]
def string? : Piece → Option String
  | fixed _ => none
  | string s => some s

@[simp]
def join (place : Place) : List Piece → String
  | [] => ""
  | piece :: pieces => piece.text place ++ join place pieces

@[simp]
theorem join_append (place : Place) (pieces more : List Piece) :
    join place (pieces ++ more) = join place pieces ++ join place more := by
  induction pieces with
  | nil => simp
  | cons piece pieces ih => simp [ih, String.append_assoc]

def separated (items : List (List Piece)) : List Piece := [fixed ","].intercalate items

theorem separated_cons_cons (item next : List Piece) (items : List (List Piece)) :
    separated (item :: next :: items) = item ++ fixed "," :: separated (next :: items) := by
  rw [separated, List.intercalate_cons_cons]
  simp [separated]

theorem join_separated (place : Place) (items : List (List Piece)) :
    join place (separated items) = String.intercalate "," (items.map (join place)) := by
  induction items with
  | nil => rfl
  | cons item items ih =>
    cases items with
    | nil => simp [separated]
    | cons next items =>
      rw [separated_cons_cons, join_append, join, ih]
      simp [String.append_assoc]

theorem filterMap_separated (items : List (List Piece)) :
    (separated items).filterMap string? = items.flatMap (List.filterMap string?) := by
  induction items with
  | nil => rfl
  | cons item items ih =>
    cases items with
    | nil => simp [separated]
    | cons next items =>
      have hcomma : string? (fixed ",") = none := rfl
      rw [separated_cons_cons, List.filterMap_append, List.filterMap_cons_none hcomma, ih]
      simp

end Piece

def Literal.pieces : Literal → List Piece
  | string s => [.string s]
  | value => [.fixed value.text]

theorem Literal.join_pieces (place : Place) (value : Literal) :
    Piece.join place value.pieces = value.textAt place := by
  cases value with
  | string s =>
    cases place <;> simp [pieces, textAt, text, Text.pathSafe_quote]
  | _ => cases place <;> simp [pieces, textAt]

namespace Expr

def string? : Expr → Option String
  | literal (.string s) => some s
  | _ => none

def enclosePieces (precedence : Nat) (e : Expr) (pieces : List Piece) : List Piece :=
  if e.isLoose precedence then .fixed "(" :: (pieces ++ [.fixed ")"]) else pieces

mutual
def pieces : Expr → List Piece
  | literal value => value.pieces
  | property name => [.fixed name]
  | member object name => pieces object ++ [.fixed ("/" ++ name)]
  | parameter name => [.fixed name]
  | unary op operand => .fixed op.lead :: operand.enclosePieces UnaryOp.precedence (pieces operand)
  | binary op left right =>
    left.enclosePieces op.precedence (pieces left) ++ .fixed (" " ++ op.keyword ++ " ") ::
      right.enclosePieces (op.precedence + 1) (pieces right)
  | call function args =>
    .fixed (function ++ "(") :: (Piece.separated (piecesOfAll args) ++ [.fixed ")"])
  | lambda quantifier collection bound body =>
    pieces collection ++ .fixed ("/" ++ quantifier.keyword ++ "(" ++ bound ++ ":") ::
      (pieces body ++ [.fixed ")"])
  | list items => .fixed "(" :: (Piece.separated (piecesOfAll items) ++ [.fixed ")"])
  | _ => []

def piecesOfAll : List Expr → List (List Piece)
  | [] => []
  | e :: rest => pieces e :: piecesOfAll rest
end

mutual
/-- The expression with other strings in it, as far as they are met when it is written. -/
def mapStrings (f : String → String) : Expr → Expr
  | literal (.string s) => literal (.string (f s))
  | member object name => member (mapStrings f object) name
  | unary op operand => unary op (mapStrings f operand)
  | binary op left right => binary op (mapStrings f left) (mapStrings f right)
  | call function args => call function (mapStringsOfAll f args)
  | lambda quantifier collection bound body =>
    lambda quantifier (mapStrings f collection) bound (mapStrings f body)
  | list items => list (mapStringsOfAll f items)
  | e => e

def mapStringsOfAll (f : String → String) : List Expr → List Expr
  | [] => []
  | e :: rest => mapStrings f e :: mapStringsOfAll f rest
end

theorem piecesOfAll_eq_map (es : List Expr) : piecesOfAll es = es.map pieces := by
  induction es with
  | nil => rfl
  | cons e es ih => rw [piecesOfAll, ih, List.map_cons]

theorem mapStringsOfAll_eq_map (f : String → String) (es : List Expr) :
    mapStringsOfAll f es = es.map (mapStrings f) := by
  induction es with
  | nil => rfl
  | cons e es ih => rw [mapStringsOfAll, ih, List.map_cons]

theorem isLoose_mapStrings (f : String → String) (e : Expr) (precedence : Nat) :
    (e.mapStrings f).isLoose precedence = e.isLoose precedence := by
  cases e with
  | literal value => cases value <;> simp [mapStrings, isLoose]
  | _ => simp [mapStrings, isLoose]

@[simp]
theorem join_enclosePieces (place : Place) (precedence : Nat) (e : Expr) (pieces : List Piece) :
    Piece.join place (e.enclosePieces precedence pieces) =
      e.enclose precedence (Piece.join place pieces) := by
  by_cases h : e.isLoose precedence
  · simp [enclosePieces, enclose, h, String.append_assoc]
  · simp [enclosePieces, enclose, h]

@[simp]
theorem filterMap_enclosePieces (precedence : Nat) (e : Expr) (pieces : List Piece) :
    (e.enclosePieces precedence pieces).filterMap Piece.string? =
      pieces.filterMap Piece.string? := by
  by_cases h : e.isLoose precedence
  · simp [enclosePieces, h, List.filterMap_cons]
  · simp [enclosePieces, h]

theorem join_piecesOfAll (place : Place) {es : List Expr}
    (h : ∀ e ∈ es, Piece.join place e.pieces = e.text place) :
    Piece.join place (Piece.separated (piecesOfAll es)) =
      String.intercalate "," (texts place es) := by
  rw [Piece.join_separated, piecesOfAll_eq_map, texts_eq_map, List.map_map]
  exact congrArg (String.intercalate ",") (List.map_congr_left h)

theorem join_pieces (place : Place) (e : Expr) : Piece.join place e.pieces = e.text place := by
  induction e using walkInduction with
  | literal value => exact value.join_pieces place
  | property name => simp [pieces, text]
  | member object name ih => simp [pieces, text, ih, String.append_assoc]
  | parameter name => simp [pieces, text]
  | unary op operand ih => simp [pieces, text, ih]
  | binary op left right hl hr => simp [pieces, text, hl, hr, String.append_assoc]
  | call function args ih => simp [pieces, text, join_piecesOfAll place ih, String.append_assoc]
  | lambda quantifier collection bound body hc hb =>
    simp [pieces, text, hc, hb, String.append_assoc]
  | list items ih => simp [pieces, text, join_piecesOfAll place ih, String.append_assoc]
  | textless e h => cases e <;> simp_all [pieces, text, kind, Kind.isTextless]

theorem filterMap_piecesOfAll {es : List Expr}
    (h : ∀ e ∈ es, e.pieces.filterMap Piece.string? = e.parts.filterMap string?) :
    (Piece.separated (piecesOfAll es)).filterMap Piece.string? =
      (partsOfAll es).filterMap string? := by
  rw [Piece.filterMap_separated, piecesOfAll_eq_map, List.flatMap_map, partsOfAll_eq_flatMap,
    List.filterMap_flatMap]
  exact List.flatMap_congr h

theorem filterMap_pieces (e : Expr) :
    e.pieces.filterMap Piece.string? = e.parts.filterMap string? := by
  induction e using walkInduction with
  | literal value =>
    cases value <;> simp [pieces, Literal.pieces, parts, List.filterMap_cons, string?]
  | property name => simp [pieces, parts, List.filterMap_cons, string?]
  | member object name ih => simp [pieces, parts, List.filterMap_cons, string?, ih]
  | parameter name => simp [pieces, parts, List.filterMap_cons, string?]
  | unary op operand ih => simp [pieces, parts, List.filterMap_cons, string?, ih]
  | binary op left right hl hr => simp [pieces, parts, List.filterMap_cons, string?, hl, hr]
  | call function args ih =>
    simp [pieces, parts, List.filterMap_cons, string?, filterMap_piecesOfAll ih]
  | lambda quantifier collection bound body hc hb =>
    simp [pieces, parts, List.filterMap_cons, string?, hc, hb]
  | list items ih =>
    simp [pieces, parts, List.filterMap_cons, string?, filterMap_piecesOfAll ih]
  | textless e h => cases e <;> simp_all [pieces, parts, string?, kind, Kind.isTextless]

-- The walk is the same in both places, so the equation is one of computations and not of outcomes.
theorem writeAll_path {es : List Expr}
    (h : ∀ e ∈ es, e.write .path = (e.mapStrings Text.pathSafe).write .query) :
    writeAll .path es = writeAll .query (mapStringsOfAll Text.pathSafe es) := by
  rw [writeAll_eq_mapM, writeAll_eq_mapM, mapStringsOfAll_eq_map]
  induction es with
  | nil => rfl
  | cons e es ih =>
    obtain ⟨he, hes⟩ := List.forall_mem_cons.1 h
    rw [List.map_cons, List.mapM_cons, List.mapM_cons, he, ih hes]

/-- Writing an expression into a path is writing it elsewhere with its strings made safe. -/
theorem write_path (e : Expr) : e.write .path = (e.mapStrings Text.pathSafe).write .query := by
  induction e using walkInduction with
  | literal value =>
    cases value with
    | string s => simp [write, mapStrings, Literal.textAt, Literal.text, Text.pathSafe_quote]
    | _ => rfl
  | property name => rfl
  | member object name ih => simp only [write, mapStrings, ih]
  | parameter name => rfl
  | unary op operand ih => simp only [write, mapStrings, ih, enclose, isLoose_mapStrings]
  | binary op left right hl hr =>
    simp only [write, mapStrings, hl, hr, enclose, isLoose_mapStrings]
  | call function args ih => simp only [write, mapStrings, writeAll_path ih]
  | lambda quantifier collection bound body hc hb => simp only [write, mapStrings, hc, hb]
  | list items ih => simp only [write, mapStrings, writeAll_path ih]
  | textless e h => cases e <;> simp_all [write, mapStrings, kind, Kind.isTextless]

/-- In a path an expression gives the text or the fault, and leaves the journal, that it would in a
query if its strings had been made safe. The two texts have the same pieces, which differ in these
strings alone. -/
theorem write_in_path (e : Expr) :
    (∀ j, (e.write .path).run j = ((e.mapStrings Text.pathSafe).write .query).run j) ∧
    (∀ place j, (e.write place).run j =
      (verdict (Piece.join place e.pieces) (obstacle? e.parts), journalAfter e.parts j)) ∧
    e.pieces.filterMap Piece.string? = e.parts.filterMap string? := by
  refine ⟨?_, ?_, filterMap_pieces e⟩
  · intro j
    rw [write_path]
  · intro place j
    rw [write_run, join_pieces]

end Expr

end RequestUri
