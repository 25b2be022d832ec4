import RequestUri.Proofs.DocumentTrees
import RequestUri.Proofs.PathEnd
import RequestUri.Proofs.PlainText
import RequestUri.Proofs.Shapes

/-! The values of keys in a path. Strings are made safe, and are read back whatever they hold. Of
the other values that a document can give, only members of enumerations and JSON can bring in a
character that ends a segment. -/

namespace RequestUri

/-- The characters at which a path segment ends. -/
def EndsSegment (c : Char) : Prop := c = '/' ∨ EndsPath c

theorem keyed_string (base : String) (style : KeyStyle) (name s : String) (d : Draft) :
    (Draft.keyed (.ofBase base style) [(name, .string s)]).run d =
      (.ok (), d.push (style.text [(name, Text.pathSafe (Text.quote s))])) :=
  keyed_takes (Service.ofBase_writes base style) [(name, .string s)] d

/-- A string key goes into the path without a character that ends its segment, and is read back from
there: as a segment of its own by undoing the codes, and in quotes by undoing first the codes and
then the doubling of quotes. -/
theorem string_key_read_back (base name s : String) (d : Draft) :
    (∃ t, (Draft.keyed (.ofBase base .slash) [(name, .string s)]).run d =
        (.ok (), d.push ("/" ++ t)) ∧
      (∀ c, EndsSegment c → c ∉ t.toList) ∧ Text.unescape t.toList = s.toList) ∧
    ∃ u, (Draft.keyed (.ofBase base .parentheses) [(name, .string s)]).run d =
        (.ok (), d.push ("('" ++ u ++ "')")) ∧
      (∀ c, EndsSegment c → c ∉ u.toList) ∧
      Text.mergeQuotes (Text.unescape u.toList) = s.toList := by
  constructor
  · refine ⟨Text.pathSafe s, ?_, fun c hc => Text.not_mem_pathSafe hc s, Text.unescape_pathSafe s⟩
    rw [keyed_string, Text.pathSafe_quote, KeyStyle.text, Text.unquote_quote]
  · refine ⟨Text.pathSafe (String.ofList (Text.doubleQuotes s.toList)), ?_,
      fun c hc => Text.not_mem_pathSafe hc _, ?_⟩
    · have hopen : "('" = "(" ++ "'" := rfl
      have hclose : "')" = "'" ++ ")" := rfl
      rw [keyed_string, KeyStyle.text, Text.pathSafe_quote_eq, hopen, hclose]
      simp only [String.append_assoc]
    · rw [Text.unescape_pathSafe, String.toList_ofList, Text.mergeQuotes_doubleQuotes]

namespace Json

theorem itemTexts_eq_map (items : List Json) : itemTexts items = items.map text := by
  induction items with
  | nil => rfl
  | cons item rest ih => rw [itemTexts, ih, List.map_cons]

theorem fieldTexts_eq_map (fields : Fields) :
    fieldTexts fields = fields.map fun field => stringText field.1 ++ ":" ++ field.2.text := by
  induction fields with
  | nil => rfl
  | cons field rest ih => rw [fieldTexts, ih, List.map_cons]

mutual
def strings : Json → List String
  | string s => [s]
  | array items => itemStrings items
  | object fields => fieldStrings fields
  | _ => []

def itemStrings : List Json → List String
  | [] => []
  | item :: rest => item.strings ++ itemStrings rest

def fieldStrings : List (String × Json) → List String
  | [] => []
  | (key, value) :: rest => key :: value.strings ++ fieldStrings rest
end

theorem itemStrings_eq_flatMap (items : List Json) : itemStrings items = items.flatMap strings := by
  induction items with
  | nil => rfl
  | cons item rest ih => rw [itemStrings, ih, List.flatMap_cons]

theorem fieldStrings_eq_flatMap (fields : Fields) :
    fieldStrings fields = fields.flatMap fun field => field.1 :: field.2.strings := by
  induction fields with
  | nil => rfl
  | cons field rest ih => rw [fieldStrings, ih, List.flatMap_cons]

end Json

theorem Document.isSimple_number (n : Json.Number) : (number n).isSimple := by
  cases n with
  | double bits => rfl
  | whole k =>
    rw [number]
    split_ifs <;> rfl

/-- The character is in one of the texts that the literal brings into a path as they are. -/
def Literal.Carries (c : Char) : Literal → Prop
  | enum typeName member => c ∈ typeName.toList ∨ c ∈ member.toList
  | json value => ∃ s ∈ value.strings, c ∈ s.toList
  | _ => False

section Texts
variable {c : Char} (hc : EndsSegment c)
include hc

theorem EndsSegment.not_mem_of_isPlain {s : String} (h : Text.isPlain s) : c ∉ s.toList := by
  apply Text.not_mem_of_isPlain h
  rcases hc with rfl | rfl | rfl <;> rfl

theorem EndsSegment.ne_valueSigns : c ≠ '\'' ∧ c ≠ '"' ∧ c ≠ ':' ∧ c ≠ ',' ∧ c ≠ '[' ∧ c ≠ ']' ∧
    c ≠ '{' ∧ c ≠ '}' := by
  rcases hc with rfl | rfl | rfl <;> decide

namespace Json

theorem not_mem_hexDigits {n : Nat} (h : n < 32) : c ∉ Nat.toDigits 16 n := by
  rcases hc with rfl | rfl | rfl <;> revert n <;> decide

/-- No code has a character in it that ends a segment, so it stands for itself only. -/
theorem mem_stringChar (d : Char) : c ∈ stringChar d ↔ c = d := by
  constructor
  · have hcode : c ∉ ['\\', 'u', '0', '"', 'n', 'r', 't', 'b', 'f'] := by
      rcases hc with rfl | rfl | rfl <;> decide
    simp only [List.mem_cons, List.not_mem_nil, or_false, not_or] at hcode
    fun_cases stringChar d with
    | case8 _ _ _ _ _ _ _ h16 => simp [hcode, not_mem_hexDigits hc (by omega : d.toNat < 32)]
    | case9 _ _ _ _ _ _ _ _ h32 => simp [hcode, not_mem_hexDigits hc h32]
    | case10 => exact List.mem_singleton.1
    | _ => simp [hcode]
  · rintro rfl
    rcases hc with rfl | rfl | rfl <;> decide

theorem mem_stringText (s : String) : c ∈ (stringText s).toList ↔ c ∈ s.toList := by
  have hsigns := hc.ne_valueSigns
  simp [stringText, hsigns, mem_stringChar hc]

theorem mem_listed {ι : Type} {is : List ι} {t : ι → String} {u : ι → List String}
    (h : ∀ i ∈ is, c ∈ (t i).toList ↔ ∃ s ∈ u i, c ∈ s.toList) :
    c ∈ (String.intercalate "," (is.map t)).toList ↔ ∃ s ∈ is.flatMap u, c ∈ s.toList := by
  have hcomma : c ∉ ",".toList := by simp [hc.ne_valueSigns]
  rw [Text.mem_intercalate hcomma]
  constructor
  · rintro ⟨text, ht, hin⟩
    obtain ⟨i, hi, rfl⟩ := List.mem_map.1 ht
    obtain ⟨s, hs, hin⟩ := (h i hi).1 hin
    exact ⟨s, List.mem_flatMap.2 ⟨i, hi, hs⟩, hin⟩
  · rintro ⟨s, hs, hin⟩
    obtain ⟨i, hi, hs⟩ := List.mem_flatMap.1 hs
    exact ⟨t i, List.mem_map.2 ⟨i, hi, rfl⟩, (h i hi).2 ⟨s, hs, hin⟩⟩

theorem mem_text (value : Json) : c ∈ value.text.toList ↔ ∃ s ∈ value.strings, c ∈ s.toList := by
  have hsigns := hc.ne_valueSigns
  induction value using valueInduction with
  | null =>
    have hn : Text.isPlain null.text := rfl
    simpa [strings] using hc.not_mem_of_isPlain hn
  | bool b =>
    have hb : Text.isPlain (bool b).text := by cases b <;> rfl
    simpa [strings] using hc.not_mem_of_isPlain hb
  | number n => simpa [strings, text] using hc.not_mem_of_isPlain n.isPlain_text
  | string s => simpa [strings, text] using mem_stringText hc s
  | array items ih =>
    rw [strings, itemStrings_eq_flatMap, ← mem_listed hc ih, text, itemTexts_eq_map]
    simp [hsigns]
  | object fields ih =>
    have hfield : ∀ field ∈ fields, c ∈ (stringText field.1 ++ ":" ++ field.2.text).toList ↔
        ∃ s ∈ field.1 :: field.2.strings, c ∈ s.toList := by
      intro field hin
      have hvalue : c ∈ field.2.text.toList ↔ ∃ s ∈ field.2.strings, c ∈ s.toList := ih field hin
      rw [List.exists_mem_cons_iff, ← hvalue, ← mem_stringText hc field.1]
      simp [hsigns]
    rw [strings, fieldStrings_eq_flatMap, ← mem_listed hc hfield, text, fieldTexts_eq_map]
    simp [hsigns]

end Json

namespace Text

theorem not_mem_of_isGuid {cs : List Char} (h : isGuid cs) : c ∉ cs := by
  have hclass : isGuidChar c = false := by
    rcases hc with rfl | rfl | rfl <;> decide
  exact not_mem_of_all (all_isGuidChar_of_isGuid h) hclass

theorem not_mem_of_isDateTime {cs : List Char} (h : isDateTime cs) : c ∉ cs := by
  have hclass : isStampChar c = false := by
    rcases hc with rfl | rfl | rfl <;> decide
  exact not_mem_of_all (all_isStampChar_of_isDateTime h) hclass

end Text

theorem Literal.mem_textAt_of_isSimple {v : Literal} (h : v.isSimple) :
    c ∈ (v.textAt .path).toList ↔ v.Carries c := by
  have hnot := hc.not_mem_of_isPlain (isPlain_text h)
  rw [textAt_of_isSimple h]
  cases v <;> simp_all [Carries, isSimple]

theorem Literal.mem_textAt_of_isTagged {v : Literal} (h : v.IsTagged) :
    c ∈ (v.textAt .path).toList ↔ v.Carries c := by
  cases v with
  | guid text => simpa [Carries, textAt, Literal.text] using Text.not_mem_of_isGuid hc h
  | dateTime text => simpa [Carries, textAt, Literal.text] using Text.not_mem_of_isDateTime hc h
  | decimal d => exact mem_textAt_of_isSimple hc rfl
  | enum typeName member =>
    simp [Carries, textAt, Literal.text, Text.quote, Text.mem_doubleQuotes, hc.ne_valueSigns]
  | json value => exact Json.mem_text hc value
  | _ => cases h

theorem Document.literal_carries (value : Json) : Ensures (literal value) fun v =>
    (c ∈ (v.textAt .path).toList ↔ v.Carries c) := by
  cases value with
  | null => exact Ensures.ok (Literal.mem_textAt_of_isSimple hc rfl)
  | bool b => exact Ensures.ok (Literal.mem_textAt_of_isSimple hc rfl)
  | number n => exact Ensures.ok (Literal.mem_textAt_of_isSimple hc (isSimple_number n))
  | string s =>
    have hsafe := Text.not_mem_pathSafe hc (Text.quote s)
    exact Ensures.ok (by simpa [Literal.Carries, Literal.textAt] using hsafe)
  | array items => exact Ensures.ok (Json.mem_text hc (.array items))
  | object fields =>
    exact fun v hv => Literal.mem_textAt_of_isTagged hc (tagged_ensures fields v hv)

end Texts

/-- A literal that a document gives is written into a path, and the text holds a character that ends
a segment just if the literal is a member of an enumeration or JSON and has that character in a text
of its own. -/
theorem literal_in_path (value : Json) (v : Literal) (h : Document.literal value = .ok v)
    (j : Journal) : ∃ text, ((Expr.literal v).write .path).run j = (.ok text, j) ∧
      ∀ c, EndsSegment c → (c ∈ text.toList ↔ v.Carries c) :=
  ⟨v.textAt .path, rfl, fun _ hc => Document.literal_carries hc value v h⟩

def slashedField : Json := .object [("a/b", .array [.string "it's", .number (.whole (-3))])]

theorem literal_in_path_of_slashedField :
    Document.literal (.object [("json", slashedField)]) = .ok (.json slashedField) ∧
      ∀ c, EndsSegment c →
        (c ∈ "\x7b\"a/b\":[\"it's\",-3]\x7d".toList ↔ (Literal.json slashedField).Carries c) := by
  have h : Document.literal (.object [("json", slashedField)]) = .ok (.json slashedField) := rfl
  obtain ⟨text, hrun, hmem⟩ := literal_in_path _ _ h {}
  obtain rfl : text = "\x7b\"a/b\":[\"it's\",-3]\x7d" :=
    (Except.ok.inj (congrArg Prod.fst hrun)).symm
  exact ⟨h, hmem⟩

theorem slash_carried_by_member :
    Document.literal (.object [("enum", .string "NS.Color"), ("member", .string "Red/Blue")]) =
        .ok (.enum "NS.Color" "Red/Blue") ∧
      ((Expr.literal (.enum "NS.Color" "Red/Blue")).write .path).run {} =
        (.ok "NS.Color'Red/Blue'", {}) ∧
      EndsSegment '/' ∧ '/' ∈ "NS.Color'Red/Blue'".toList :=
  ⟨rfl, rfl, .inl rfl, by decide⟩

end RequestUri
