import RequestUri.Proofs.PlainText

/-! An argument is moved out of the path or not: by the kind of its literal, or, if only its text is
known, by what the text begins with. The two agree but for JSON that is neither an array nor an
object, and for texts of other literals that look like JSON. -/

namespace RequestUri

def OpensStructure (cs : List Char) : Prop :=
  ∃ blanks bracket rest, cs = blanks ++ bracket :: rest ∧ (∀ c ∈ blanks, Text.isBlank c) ∧
    (bracket = '[' ∨ bracket = '{')

namespace OpensStructure

theorem mem {cs : List Char} (h : OpensStructure cs) : '[' ∈ cs ∨ '{' ∈ cs := by
  obtain ⟨blanks, bracket, rest, rfl, -, rfl | rfl⟩ := h
  · simp
  · simp

theorem cons_iff (c : Char) (cs : List Char) :
    OpensStructure (c :: cs) ↔ (c = '[' ∨ c = '{') ∨ Text.isBlank c ∧ OpensStructure cs := by
  constructor
  · rintro ⟨blanks, bracket, rest, hcs, hblanks, hbracket⟩
    cases blanks with
    | nil =>
      obtain ⟨rfl, rfl⟩ := List.cons.inj hcs
      exact .inl hbracket
    | cons blank blanks =>
      obtain ⟨rfl, rfl⟩ := List.cons.inj hcs
      obtain ⟨hblank, hblanks⟩ := List.forall_mem_cons.1 hblanks
      exact .inr ⟨hblank, blanks, bracket, rest, rfl, hblanks, hbracket⟩
  · rintro (hc | ⟨hc, blanks, bracket, rest, rfl, hblanks, hbracket⟩)
    · exact ⟨[], c, cs, rfl, List.forall_mem_nil _, hc⟩
    · exact ⟨c :: blanks, bracket, rest, rfl, List.forall_mem_cons.2 ⟨hc, hblanks⟩, hbracket⟩

end OpensStructure

theorem Argument.isStructuredText_iff (cs : List Char) :
    isStructuredText cs ↔ OpensStructure cs := by
  induction cs with
  | nil => simp [isStructuredText, OpensStructure]
  | cons c cs ih =>
    rw [OpensStructure.cons_iff, ← ih, isStructuredText, isStructuredText, List.dropWhile_cons]
    by_cases hc : Text.isBlank c
    · -- no bracket is a blank
      have hbracket : c ≠ '[' ∧ c ≠ '{' := by
        refine ⟨?_, ?_⟩ <;> (rintro rfl; exact absurd hc (by decide))
      simp [hc, hbracket]
    · simp [hc]

theorem not_opensStructure_of_isPlain {s : String} (h : Text.isPlain s) :
    ¬ OpensStructure s.toList := by
  intro hopens
  rcases hopens.mem with hin | hin
  · exact Text.not_mem_of_isPlain h (by decide) hin
  · exact Text.not_mem_of_isPlain h (by decide) hin

theorem not_opensStructure_quote (s : String) : ¬ OpensStructure (Text.quote s).toList := by
  have hquote : (Text.quote s).toList = '\'' :: (Text.doubleQuotes s.toList ++ ['\'']) := by
    simp [Text.quote]
  rw [hquote, OpensStructure.cons_iff]
  simp [Text.isBlank]

namespace Json

theorem opensStructure_text (value : Json) :
    OpensStructure value.text.toList ↔ value.isAtom = false := by
  cases value with
  | null =>
    have hplain : Text.isPlain null.text := rfl
    simpa [isAtom] using not_opensStructure_of_isPlain hplain
  | bool b =>
    have hplain : Text.isPlain (bool b).text := by cases b <;> rfl
    simpa [isAtom] using not_opensStructure_of_isPlain hplain
  | number n => simpa [isAtom, text] using not_opensStructure_of_isPlain n.isPlain_text
  | string s =>
    have hquote : (string s).text.toList = '"' :: (s.toList.flatMap stringChar ++ ['"']) := by
      simp [text, stringText]
    rw [hquote, OpensStructure.cons_iff]
    simp [Text.isBlank, isAtom]
  | array items => simp [text, isAtom, OpensStructure.cons_iff]
  | object fields => simp [text, isAtom, OpensStructure.cons_iff]

end Json

namespace Literal

/-- The kind of the literal says one thing and the beginning of its text another. -/
def IsMisleading : Literal → Prop
  | json value => value.isAtom
  | guid text => OpensStructure text.toList
  | dateTime text => OpensStructure text.toList
  | enum typeName member => OpensStructure (typeName ++ Text.quote member).toList
  | _ => False

theorem isMisleading_iff (v : Literal) :
    v.IsMisleading ↔ ¬ (OpensStructure v.text.toList ↔ v.isPrimitive = false) := by
  have hsimple : v.isSimple → ¬ OpensStructure v.text.toList :=
    fun h => not_opensStructure_of_isPlain (isPlain_text h)
  cases v with
  | json value => simp [IsMisleading, text, isPrimitive, Json.opensStructure_text]
  | string s => simpa [IsMisleading, isPrimitive, text] using not_opensStructure_quote s
  | guid text => simp [IsMisleading, isPrimitive, Literal.text]
  | dateTime text => simp [IsMisleading, isPrimitive, Literal.text]
  | enum typeName member => simp [IsMisleading, isPrimitive, text]
  | _ => simpa [IsMisleading, isPrimitive] using hsimple rfl

end Literal

theorem Argument.ofSerialized_eq_ofLiteral_iff (v : Literal) :
    ofSerialized v.text = ofLiteral v ↔
      (OpensStructure v.text.toList ↔ v.isPrimitive = false) := by
  rw [ofSerialized, ofLiteral, ← isStructuredText_iff]
  cases isStructuredText v.text.toList <;> cases v.isPrimitive <;> simp

/-- A literal is classified by its text as by its kind just if it is not misleading. So it is for
all literals with neither a text of their own nor JSON, for strings, and for JSON arrays and
objects. -/
theorem classified_alike_iff (v : Literal) :
    (Argument.ofSerialized v.text = .ofLiteral v ↔ ¬ v.IsMisleading) ∧
    (v.isSimple ∨ (∃ s, v = .string s) ∨ (∃ items, v = .json (.array items)) ∨
        (∃ fields, v = .json (.object fields)) →
      Argument.ofSerialized v.text = .ofLiteral v) := by
  have hiff : Argument.ofSerialized v.text = .ofLiteral v ↔ ¬ v.IsMisleading := by
    rw [Argument.ofSerialized_eq_ofLiteral_iff, v.isMisleading_iff, Classical.not_not]
  refine ⟨hiff, fun hkind => hiff.2 ?_⟩
  rcases hkind with hsimple | ⟨s, rfl⟩ | ⟨items, rfl⟩ | ⟨fields, rfl⟩
  · cases v <;> simp_all [Literal.isSimple, Literal.IsMisleading]
  · simp [Literal.IsMisleading]
  · simp [Literal.IsMisleading, Json.isAtom]
  · simp [Literal.IsMisleading, Json.isAtom]

theorem classified_alike_of_list :
    let list := Literal.json (.array [.string "it's", .number (.whole (-3))])
    Argument.ofSerialized "[\"it's\",-3]" = .ofLiteral list ∧
      Argument.ofSerialized "-3" ≠ .ofLiteral (.json (.number (.whole (-3)))) ∧
      Argument.ofSerialized "\u3000\x7b'" ≠ .ofLiteral (.guid "\u3000\x7b'") := by
  intro list
  have hguid : OpensStructure "\u3000\x7b'".toList :=
    ⟨['\u3000'], '{', ['\''], rfl, by simp [Text.isBlank], .inr rfl⟩
  refine ⟨(classified_alike_iff list).2 (.inr (.inr (.inl ⟨_, rfl⟩))), ?_, ?_⟩
  · have htext : (Literal.json (.number (.whole (-3)))).text = "-3" := by decide
    intro h
    rw [← htext] at h
    exact (classified_alike_iff (.json (.number (.whole (-3))))).1.1 h rfl
  · exact fun h => (classified_alike_iff (.guid "\u3000\x7b'")).1.1 h hguid

end RequestUri
