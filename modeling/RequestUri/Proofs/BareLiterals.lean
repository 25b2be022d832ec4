import RequestUri.Proofs.DocumentTrees
import RequestUri.Proofs.Shapes

/-! Identifiers and time stamps that a document gives are written as they stand. They have been
checked character by character, but the digits of a time stamp may be those of any script. -/

namespace RequestUri

namespace Literal

def isBare : Literal → Bool
  | guid text => text.length == 36 && text.toList.all Text.isGuidChar
  | dateTime text => text.toList.all Text.isStampChar
  | _ => true

/-- What can be written anywhere: as `isBare`, but only with the digits 0 to 9. -/
def isAscii : Literal → Bool
  | guid text => text.length == 36 && text.toList.all Text.isGuidChar
  | dateTime text => text.toList.all fun c => c.isDigit || Text.isStampSign c
  | _ => true

def hasForeignDigit : Literal → Bool
  | dateTime text => text.toList.any fun c => Text.isDecimalDigit c && !c.isDigit
  | _ => false

theorem isBare_of_isTagged {v : Literal} (h : v.IsTagged) : v.isBare := by
  cases v with
  | guid text =>
    have hlength : text.length = 36 := Text.length_of_isGuid h
    rw [isBare, hlength, Text.all_isGuidChar_of_isGuid h]
    rfl
  | dateTime text => exact Text.all_isStampChar_of_isDateTime h
  | _ => rfl

theorem isAscii_eq {v : Literal} (h : v.isBare) : v.isAscii = !v.hasForeignDigit := by
  cases v with
  | guid text => exact h
  | dateTime text =>
    rw [isAscii, hasForeignDigit, List.not_any_eq_all_not, Bool.eq_iff_iff, List.all_eq_true,
      List.all_eq_true]
    refine forall₂_congr fun c hc => ?_
    have hchar := List.all_eq_true.1 h c hc
    rw [Text.isStampChar] at hchar
    cases hs : Text.isStampSign c with
    | true => simp [Text.not_isDecimalDigit_of_isStampSign hs]
    | false => simp_all
  | _ => rfl

end Literal

namespace Document

theorem literal_isBare (given : Json) : Ensures (literal given) fun v => v.isBare = true := by
  cases given with
  | number n =>
    refine Ensures.ok ?_
    rw [number.eq_def]
    split
    · rfl
    · split_ifs <;> rfl
  | object fields => exact fun v hv => Literal.isBare_of_isTagged (tagged_ensures fields v hv)
  | _ => exact Ensures.ok rfl

end Document

namespace Expr

/-- The literals that an expression holds by itself, and not in a part. -/
def literals : Expr → List Literal
  | literal v => [v]
  | root _ node => node.key.map Prod.snd
  | follow _ _ node => node.key.map Prod.snd
  | _ => []

end Expr

theorem Decoration.IsReadFrom.isBare {fields : Json.Fields} {node : Decoration Expr}
    (h : node.IsReadFrom fields) : ∀ v ∈ node.key.map Prod.snd, v.isBare := by
  refine List.forall_mem_map.2 fun entry hin => ?_
  obtain ⟨given, hgiven⟩ := Document.keyField_given fields node.key h.key entry hin
  exact Document.literal_isBare given entry.2 hgiven

theorem Document.keeps_isBare : Keeps fun e => ∀ v ∈ e.literals, v.isBare where
  literal h := List.forall_mem_singleton.2 (literal_isBare _ _ h)
  path {e} h := by cases e <;> simp_all [Expr.literals, Expr.IsPath, Expr.IsSegments]
  operator {e} h := by cases e <;> simp_all [Expr.kind, Expr.literals]
  lambda _ _ _ _ _ := List.forall_mem_nil _
  root _ h := h.isBare
  follow _ _ h := h.isBare

namespace Text

def stampOf (c : Char) : String :=
  String.ofList [c, c, c, c, '-', c, c, '-', c, c, 'T', c, c, ':', c, c, 'Z']

theorem isDateTime_stampOf {c : Char} (h : isDecimalDigit c) : isDateTime (stampOf c).toList := by
  simp [stampOf, isDateTime, Shape.minute, Shape.digits, Shape.just, Shape.rest?, isOffset, h]

/-- Each of the characters that a time stamp can have is in some time stamp. -/
theorem exists_isDateTime {c : Char} (h : isStampChar c) :
    ∃ text : String, isDateTime text.toList ∧ c ∈ text.toList := by
  cases hd : isDecimalDigit c with
  | true => exact ⟨stampOf c, isDateTime_stampOf hd, by simp [stampOf]⟩
  | false =>
    have hsign : isStampSign c := by simpa [isStampChar, hd] using h
    by_cases hz : c = 'Z'
    · exact ⟨stampOf '0', isDateTime_stampOf (by decide), by simp [stampOf, hz]⟩
    · refine ⟨"2024-05-01T10:00:00.5+02:00", by decide, ?_⟩
      have hother : c = '-' ∨ c = ':' ∨ c = 'T' ∨ c = '.' ∨ c = '+' := by
        simpa [isStampSign, hz] using hsign
      rcases hother with rfl | rfl | rfl | rfl | rfl <;> decide

end Text

theorem Document.tree_of_dateTime {text : String} (h : Text.isDateTime text.toList) :
    tree (.object [("dateTimeOffset", .string text)]) = .ok (.literal (.dateTime text)) := by
  have hstamp : dateTime (.string text) = .ok (.dateTime text) := if_pos h
  have hread : tree (.object [("dateTimeOffset", .string text)]) =
      Expr.literal <$> dateTime (.string text) := rfl
  rw [hread, hstamp]
  rfl

theorem Document.isBare_of_tree {value : Json} {tree : Expr} (h : Document.tree value = .ok tree)
    {part : Expr} (hpart : tree.Contains part) : ∀ v ∈ part.literals, v.isBare :=
  within_keeps keeps_isBare value.depth value tree h part hpart

/-- Every identifier and every time stamp in the tree of a document has passed its check, whether it
stands in a key or in an operand at any depth, and so has one that is given as an argument. It has
nothing but ASCII in it unless it is a time stamp with a digit of another script; and every digit of
every script gets into the tree of some document. -/
theorem bare_literals_of_document (value : Json) :
    (∀ tree, Document.tree value = .ok tree → ∀ part, tree.Contains part →
      ∀ v ∈ part.literals, v.isBare ∧ v.isAscii = !v.hasForeignDigit) ∧
    (∀ a, Document.argument value = .ok a →
      (∀ fields, value = .object fields → fields.lookup "raw" = none) →
        ∃ v, Document.literal value = .ok v ∧ a = .ofLiteral v ∧ v.isBare ∧
          v.isAscii = !v.hasForeignDigit) ∧
    ∀ c, Text.isStampChar c ↔ ∃ document text,
      Document.tree document = .ok (.literal (.dateTime text)) ∧ c ∈ text.toList := by
  refine ⟨?_, ?_, ?_⟩
  · intro tree h part hpart v hv
    have hbare := Document.isBare_of_tree h hpart v hv
    exact ⟨hbare, Literal.isAscii_eq hbare⟩
  · intro a h hraw
    rw [Document.argument_of_literal hraw] at h
    cases hv : Document.literal value with
    | error fault => simp [hv] at h
    | ok v =>
      have hbare := Document.literal_isBare value v hv
      have ha : Argument.ofLiteral v = a := by simpa [hv] using h
      exact ⟨v, rfl, ha.symm, hbare, Literal.isAscii_eq hbare⟩
  · intro c
    constructor
    · intro hc
      obtain ⟨text, htext, hin⟩ := Text.exists_isDateTime hc
      exact ⟨_, text, Document.tree_of_dateTime htext, hin⟩
    · rintro ⟨document, text, h, hc⟩
      have hbare := Document.isBare_of_tree h (.self _) _ (List.mem_singleton.2 rfl)
      exact List.all_eq_true.1 hbare c hc

def stampedDocument : Json :=
  .object
    [("entitySet", .string "Orders"),
      ("key", .array [.array [.string "Id",
        .object [("guid", .string "01234567-89ab-cdef-0123-456789ABCDEF")]]]),
      ("options", .array [.object [("filter", .object
        [("left", .object [("property", .string "Due")]), ("op", .string "gt"),
          ("right", .object [("dateTimeOffset", .string "2024-05-01T10:00:00.5+02:00")])])]])]

def stampedTree : Expr :=
  .root (.entitySet "Orders")
    { key := [("Id", .guid "01234567-89ab-cdef-0123-456789ABCDEF")]
      options := [.filter (.binary .gt (.property "Due")
        (.literal (.dateTime "2024-05-01T10:00:00.5+02:00")))] }

theorem bare_literals_of_stampedDocument :
    Document.tree stampedDocument = .ok stampedTree ∧
      (Literal.guid "01234567-89ab-cdef-0123-456789ABCDEF").isBare ∧
      (Literal.dateTime "2024-05-01T10:00:00.5+02:00").isAscii ∧
      ∃ v, Document.literal (.object [("dateTimeOffset", .string (Text.stampOf '7'))]) = .ok v ∧
        v.isAscii := by
  have ht : Document.tree stampedDocument = .ok stampedTree := rfl
  have htree := (bare_literals_of_document stampedDocument).1 _ ht
  have hkey := htree _ (.self _) _ (List.mem_singleton.2 rfl)
  have hfilter := htree (.literal (.dateTime "2024-05-01T10:00:00.5+02:00"))
    (.inside (List.mem_singleton.2 rfl) (.inside (List.mem_cons_of_mem _ (List.mem_singleton.2 rfl))
      (.self _))) _ (List.mem_singleton.2 rfl)
  obtain ⟨v, hv, -, -, hascii⟩ := (bare_literals_of_document
    (.object [("dateTimeOffset", .string (Text.stampOf '7'))])).2.1 _ rfl (by rintro _ ⟨⟩; rfl)
  refine ⟨ht, hkey.1, hfilter.2.trans (by decide), v, hv, hascii.trans ?_⟩
  cases hv
  decide

theorem foreign_digits_in_dateTime :
    Document.tree (.object [("dateTimeOffset", .string "\u0662\u0660\u0662\u0664-05-01T10:00Z")]) =
        .ok (.literal (.dateTime "\u0662\u0660\u0662\u0664-05-01T10:00Z")) ∧
      (Literal.dateTime "\u0662\u0660\u0662\u0664-05-01T10:00Z").isAscii = false :=
  ⟨rfl, by decide⟩

end RequestUri
