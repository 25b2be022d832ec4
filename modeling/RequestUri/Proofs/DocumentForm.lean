import RequestUri.Proofs.DocumentTrees

/-! A document for every tree that can have one. Each node is written with all its fields; what
stands inside it is left to `write`. -/

namespace RequestUri

namespace Json

namespace Fields

theorem lookup_insert (fields : Fields) (key : String) (value : Json) (k : String) :
    (fields.insert key value).lookup k = if k = key then some value else fields.lookup k := by
  induction fields with
  | nil =>
    by_cases h : k = key
    · simp [insert, h]
    · simp [insert, List.lookup_cons, beq_false_of_ne h, h]
  | cons field rest ih =>
    obtain ⟨k', v⟩ := field
    rw [insert]
    split
    · by_cases h : k = key
      · simp [h]
      · simp [List.lookup_cons, beq_false_of_ne h, h]
    split
    · next hk =>
      by_cases h : k = key
      · simp [h]
      · simp [List.lookup_cons, beq_false_of_ne h, h, ← hk]
    · next hk =>
      by_cases h : k = k'
      · simp [h, Ne.symm hk]
      · simp [List.lookup_cons, beq_false_of_ne h, ih]

def given (entries : List (String × Option Json)) : Fields :=
  entries.foldr (fun entry fields => entry.2.elim fields (fields.insert entry.1)) []

@[simp]
theorem lookup_given_nil (key : String) : (given []).lookup key = none := rfl

@[simp]
theorem lookup_given_cons (k : String) (found : Option Json) (rest : List (String × Option Json))
    (key : String) : (given ((k, found) :: rest)).lookup key =
      if key = k then found.or ((given rest).lookup key) else (given rest).lookup key := by
  cases found with
  | none => simp [given]
  | some value =>
    rw [given, List.foldr_cons, Option.elim_some, lookup_insert, ← given, Option.some_or]

theorem mem_insert {fields : Fields} {key : String} {value : Json} {field : String × Json}
    (h : field ∈ fields.insert key value) : field = (key, value) ∨ field ∈ fields := by
  induction fields with
  | nil => exact .inl (List.mem_singleton.1 h)
  | cons first rest ih =>
    obtain ⟨k, v⟩ := first
    rw [insert] at h
    split at h
    · exact List.mem_cons.1 h
    split at h
    · rcases List.mem_cons.1 h with h | h
      · exact .inl h
      · exact .inr (List.mem_cons_of_mem _ h)
    · rcases List.mem_cons.1 h with h | h
      · exact .inr (h ▸ List.mem_cons_self)
      · rcases ih h with h | h
        · exact .inl h
        · exact .inr (List.mem_cons_of_mem _ h)

theorem pairwise_insert {fields : Fields} (h : fields.Pairwise fun a b => a.1 < b.1) (key : String)
    (value : Json) : (fields.insert key value).Pairwise fun a b => a.1 < b.1 := by
  induction fields with
  | nil => exact List.pairwise_singleton _ _
  | cons first rest ih =>
    obtain ⟨k, v⟩ := first
    obtain ⟨hfirst, hrest⟩ := List.pairwise_cons.1 h
    rw [insert]
    split
    · next hk =>
      refine List.pairwise_cons.2 ⟨List.forall_mem_cons.2 ⟨hk, ?_⟩, h⟩
      exact fun field hf => String.lt_trans hk (hfirst field hf)
    split
    · next hk => exact List.pairwise_cons.2 ⟨hk ▸ hfirst, hrest⟩
    · next hlt hne =>
      refine List.pairwise_cons.2 ⟨fun field hf => ?_, ih hrest⟩
      rcases mem_insert hf with rfl | hf
      · exact Std.lt_of_le_of_ne hlt (Ne.symm hne)
      · exact hfirst field hf

end Fields

/-- At every depth, the fields of an object stand in the order of their names. -/
inductive IsOrdered : Json → Prop
  | null : IsOrdered null
  | bool (b : Bool) : IsOrdered (bool b)
  | number (n : Number) : IsOrdered (number n)
  | string (s : String) : IsOrdered (string s)
  | array {items : List Json} (h : ∀ item ∈ items, IsOrdered item) : IsOrdered (array items)
  | object {fields : Fields} (hf : (fields.map Prod.fst).Pairwise (· < ·))
    (h : ∀ field ∈ fields, IsOrdered field.2) : IsOrdered (object fields)

theorem isOrdered_given {entries : List (String × Option Json)}
    (h : ∀ entry ∈ entries, ∀ value ∈ entry.2, value.IsOrdered) :
    (object (Fields.given entries)).IsOrdered := by
  have hgiven : (Fields.given entries).Pairwise (fun a b => a.1 < b.1) ∧
      ∀ field ∈ Fields.given entries, field.2.IsOrdered := by
    induction entries with
    | nil => exact ⟨List.Pairwise.nil, List.forall_mem_nil _⟩
    | cons entry rest ih =>
      obtain ⟨hentry, hrest⟩ := List.forall_mem_cons.1 h
      obtain ⟨hp, hall⟩ := ih hrest
      obtain ⟨key, found⟩ := entry
      cases found with
      | none => exact ⟨hp, hall⟩
      | some value =>
        refine ⟨Fields.pairwise_insert hp key value, fun field hf => ?_⟩
        rcases Fields.mem_insert hf with rfl | hf
        · exact hentry value rfl
        · exact hall field hf
  exact .object (List.pairwise_map.2 hgiven.1) hgiven.2

def pairs {α : Type} (write : α → Json) (entries : List (String × α)) : Json :=
  array (entries.map fun entry => array [string entry.1, write entry.2])

def texts (values : List String) : Json := array (values.map string)

theorem isOrdered_map {α : Type} {write : α → Json} {values : List α}
    (h : ∀ value ∈ values, (write value).IsOrdered) : (array (values.map write)).IsOrdered :=
  .array (List.forall_mem_map.2 h)

theorem isOrdered_pairs {α : Type} {write : α → Json} {entries : List (String × α)}
    (h : ∀ entry ∈ entries, (write entry.2).IsOrdered) : (pairs write entries).IsOrdered := by
  refine isOrdered_map fun entry he => .array ?_
  simpa using ⟨.string entry.1, h entry he⟩

theorem isOrdered_texts (values : List String) : (texts values).IsOrdered :=
  isOrdered_map fun value _ => .string value

end Json

/-- Floating-point numbers have no form of their own. -/
def Literal.IsExpressible (v : Literal) : Prop :=
  v.IsDocumented ∧ match v with
    | double _ => False
    | decimal _ => False
    | guid text => Text.isGuid text.toList
    | dateTime text => Text.isDateTime text.toList
    | _ => True

def Argument.IsExpressible (a : Argument) : Prop :=
  (∃ text, a = ofSerialized text) ∨ ∃ v : Literal, v.IsExpressible ∧ a = ofLiteral v

/-- The operands that may also be given as the text of a path. -/
def QueryOption.pathOperands : QueryOption Expr → List Expr
  | apply clause => clause.grouping ++ clause.aggregations.flatMap (·.operand.toList)
  | _ => []

structure Decoration.IsExpressible (node : Decoration Expr) : Prop extends node.IsDocumented where
  keyValues : ∀ entry ∈ node.key, entry.2.IsExpressible
  arguments : ∀ operation ∈ node.operation, ∀ entry ∈ operation.parameters, entry.2.IsExpressible
  paths : ∀ option ∈ node.options, ∀ s, .literal (.string s) ∉ option.pathOperands

def Expr.IsExpressible (e : Expr) : Prop :=
  e.IsDocumented ∧ match e with
    | root _ node => node.IsExpressible
    | follow _ _ node => node.IsExpressible
    | literal v => v.IsExpressible
    | _ => True

section Forms

def Literal.document : Literal → Json
  | null => .null
  | bool b => .bool b
  | int32 n => .number (.whole n.toInt)
  | int64 n => .number (.whole n.toInt)
  | string s => .string s
  | guid text => .object [("guid", .string text)]
  | dateTime text => .object [("dateTimeOffset", .string text)]
  | enum typeName member => .object [("enum", .string typeName), ("member", .string member)]
  | json value => .object [("json", value)]
  | _ => .null

instance : Inhabited Literal := ⟨.null⟩

/-- The text itself, unless an argument of another kind would come of it; then some literal that has
this text. -/
noncomputable def Argument.document (a : Argument) : Json :=
  if ofSerialized a.text = a then .object [("raw", .string a.text)]
  else (Classical.epsilon fun v : Literal => v.IsExpressible ∧ a = ofLiteral v).document

def Cast.document (cast : Cast) : Json :=
  .object [("name", .string cast.typeName), ("version", .string cast.version.text)]

def Count.document : Count → Option Json
  | none => .none
  | segment => some (.string "segment")
  | option b => some (.bool b)

def Method.word (m : Method) : String := m.token?.getD m.name

variable (write : Expr → Json)

def Selector.document (s : Selector Expr) : Json :=
  .object [("desc", .bool s.descending), ("expr", write s.operand)]

def Aggregation.document (a : Aggregation Expr) : Json :=
  .object (Json.Fields.given
    [("method", some (.string a.method.word)), ("property", a.operand.map write),
      ("as", a.given.map .string)])

def Apply.document (clause : Apply Expr) : Json :=
  .object (Json.Fields.given
    [("groupBy", some (.array (clause.grouping.map write))),
      ("aggregate", some (.array (clause.aggregations.map (Aggregation.document write)))),
      ("filter", clause.predicate.map write)])

def QueryOption.document : QueryOption Expr → Json
  | skip amount => .object [("skip", write amount)]
  | top amount => .object [("top", write amount)]
  | orderBy selectors => .object [("orderBy", .array (selectors.map (Selector.document write)))]
  | filter predicate => .object [("filter", write predicate)]
  | apply clause => .object [("apply", clause.document write)]

noncomputable def Operation.entries (operation : Option Operation) : List (String × Option Json) :=
  [("function", (operation.filter (!·.isAction)).map fun o => .string o.name),
    ("parameters", (operation.filter (!·.isAction)).map fun o =>
      .pairs Argument.document o.parameters),
    ("action", (operation.filter (·.isAction)).map fun o => .string o.name)]

noncomputable def Decoration.document (node : Decoration Expr) : List (String × Option Json) :=
  Operation.entries node.operation ++
    [("version", some (.string node.version.text)),
      ("key", some (.pairs Literal.document node.key)),
      ("cast", node.cast.map Cast.document),
      ("count", node.count.document),
      ("options", some (.array (node.options.map (QueryOption.document write)))),
      ("expand", some (.texts node.expand)),
      ("select", some (.texts node.select)),
      ("custom", some (.pairs .string node.custom))]

def Start.entry : Start → String × Option Json
  | entitySet name => ("entitySet", some (.string name))
  | serviceRoot => ("serviceRoot", some (.bool true))

def Link.entry : Link → String × Option Json
  | navigation member => ("navigation", some (.string member))
  | singleton member => ("singleton", some (.string member))

namespace Expr

noncomputable def documentBy : Expr → Json
  | root start node => .object (Json.Fields.given (start.entry :: node.document write))
  | follow source link node =>
    .object (Json.Fields.given
      (link.entry :: ("source", some (write source)) :: node.document write))
  | literal v => v.document
  | parameter name => .object [("param", .string name)]
  | unary .not operand => .object [("not", write operand)]
  | unary .negate operand => .object [("negate", write operand)]
  | binary op left right =>
    .object [("left", write left), ("op", .string op.keyword), ("right", write right)]
  | call function args => .object [("args", .array (args.map write)), ("call", .string function)]
  | lambda quantifier collection bound body =>
    .object [(quantifier.keyword, .string (collection.text .query)), ("body", write body),
      ("var", .string bound)]
  | list items => .object [("list", .array (items.map write))]
  | e => .object [("property", .string (e.text .query))]

noncomputable def documentWithin : Nat → Expr → Json
  | 0, _ => .null
  | n + 1, e => e.documentBy (documentWithin n)

noncomputable def document (e : Expr) : Json := documentWithin (sizeOf e) e

end Expr

end Forms

theorem Argument.text_ofSerialized (text : String) : (ofSerialized text).text = text := by
  rw [ofSerialized]
  split <;> rfl

/- A literal stands for an argument only where the text alone would be taken for the other kind. -/
theorem Argument.document_cases {a : Argument} (h : a.IsExpressible) :
    (ofSerialized a.text = a ∧ a.document = .object [("raw", .string a.text)]) ∨
      ∃ v : Literal, v.IsExpressible ∧ a = ofLiteral v ∧ ofSerialized a.text ≠ a ∧
        a.document = v.document := by
  by_cases hraw : ofSerialized a.text = a
  · exact .inl ⟨hraw, if_pos hraw⟩
  · have hv : ∃ v : Literal, v.IsExpressible ∧ a = ofLiteral v := by
      rcases h with ⟨text, rfl⟩ | hv
      · exact absurd (by rw [text_ofSerialized]) hraw
      · exact hv
    obtain ⟨he, ha⟩ := Classical.epsilon_spec hv
    exact .inr ⟨_, he, ha, hraw, if_neg hraw⟩

def Literal.IsOrdered : Literal → Prop
  | json value => value.IsOrdered
  | _ => True

def Expr.IsOrdered : Expr → Prop
  | root _ node => ∀ entry ∈ node.key, entry.2.IsOrdered
  | follow _ _ node => ∀ entry ∈ node.key, entry.2.IsOrdered
  | literal v => v.IsOrdered
  | _ => True

section Order
open Json (isOrdered_given isOrdered_map isOrdered_pairs isOrdered_texts)

theorem Json.isOrdered_field {key : String} {value : Json} (h : value.IsOrdered) :
    (object [(key, value)]).IsOrdered :=
  .object (List.pairwise_singleton _ _) (by simpa using h)

theorem Literal.isOrdered_document {v : Literal} (h : v.IsOrdered) : v.document.IsOrdered := by
  cases v with
  | json value => exact Json.isOrdered_field h
  | guid text => exact Json.isOrdered_field (.string text)
  | dateTime text => exact Json.isOrdered_field (.string text)
  | enum typeName member =>
    have hnames : ["enum", "member"].Pairwise (· < ·) := by decide
    exact .object hnames (by simp [Json.IsOrdered.string])
  | string s => exact .string s
  | bool b => exact .bool b
  | int32 n => exact .number _
  | int64 n => exact .number _
  | _ => exact .null

theorem Argument.ofSerialized_of_bracket {text : String} {c : Char} {cs : List Char}
    (ht : text.toList = c :: cs) (hc : c = '[' ∨ c = '{') :
    ofSerialized text = structured text := by
  have hs : isStructuredText text.toList := by
    rcases hc with rfl | rfl <;> simp [ht, isStructuredText, Text.isBlank]
  rw [ofSerialized, if_pos hs]

/- The text of an array or an object opens with a bracket, so it goes as it is. -/
theorem Argument.isOrdered_document {a : Argument} (h : a.IsExpressible) :
    a.document.IsOrdered := by
  rcases document_cases h with ⟨-, hd⟩ | ⟨v, -, rfl, hraw, hd⟩
  · rw [hd]
    exact Json.isOrdered_field (.string _)
  · rw [hd]
    apply Literal.isOrdered_document
    cases v with
    | json value =>
      cases value with
      | null => exact .null
      | bool b => exact .bool b
      | number n => exact .number n
      | string s => exact .string s
      | array items =>
        obtain ⟨cs, ht⟩ : ∃ cs, (Json.array items).text.toList = '[' :: cs := by
          rw [Json.text, String.append_assoc, String.toList_append]
          exact ⟨_, rfl⟩
        exact absurd (ofSerialized_of_bracket ht (.inl rfl)) hraw
      | object fields =>
        obtain ⟨cs, ht⟩ : ∃ cs, (Json.object fields).text.toList = '{' :: cs := by
          rw [Json.text, String.append_assoc, String.toList_append]
          exact ⟨_, rfl⟩
        exact absurd (ofSerialized_of_bracket ht (.inr rfl)) hraw
    | _ => trivial

section Nodes
variable {write : Expr → Json}

theorem Aggregation.isOrdered_document {a : Aggregation Expr}
    (h : ∀ e ∈ a.operand, (write e).IsOrdered) : (a.document write).IsOrdered := by
  apply isOrdered_given
  simpa [Json.IsOrdered.string] using h

theorem QueryOption.isOrdered_document {option : QueryOption Expr}
    (h : ∀ e ∈ option.contents, (write e).IsOrdered) : (option.document write).IsOrdered := by
  cases option with
  | skip amount => exact Json.isOrdered_field (h amount (List.mem_singleton.2 rfl))
  | top amount => exact Json.isOrdered_field (h amount (List.mem_singleton.2 rfl))
  | filter predicate => exact Json.isOrdered_field (h predicate (List.mem_singleton.2 rfl))
  | orderBy selectors =>
    have hnames : ["desc", "expr"].Pairwise (· < ·) := by decide
    refine Json.isOrdered_field (isOrdered_map fun s hs => .object hnames ?_)
    have hs := h s.operand (List.mem_map_of_mem hs)
    simp [Json.IsOrdered.bool, hs]
  | apply clause =>
    obtain ⟨hg, ha, hp⟩ : (∀ e ∈ clause.grouping, (write e).IsOrdered) ∧
        (∀ a ∈ clause.aggregations, ∀ e ∈ a.operand, (write e).IsOrdered) ∧
        ∀ e ∈ clause.predicate, (write e).IsOrdered := by
      simp only [contents, List.mem_append, List.mem_flatMap, Option.mem_toList] at h
      exact ⟨fun e he => h e (.inl he), fun a ha e he => h e (.inr (.inl ⟨a, ha, he⟩)),
        fun e he => h e (.inr (.inr he))⟩
    refine Json.isOrdered_field (isOrdered_given ?_)
    have hgrouping := isOrdered_map hg
    have haggregations := isOrdered_map fun a hmem => Aggregation.isOrdered_document (ha a hmem)
    simpa [hgrouping, haggregations] using hp

theorem Operation.isOrdered_entries {operation : Option Operation}
    (h : ∀ o ∈ operation, ∀ entry ∈ o.parameters, entry.2.IsExpressible) :
    ∀ entry ∈ entries operation, ∀ value ∈ entry.2, value.IsOrdered := by
  cases operation with
  | none => simp [entries]
  | some o =>
    have hp := isOrdered_pairs fun entry he => Argument.isOrdered_document (h o rfl entry he)
    cases ha : o.isAction <;> simp [entries, ha, hp, Json.IsOrdered.string]

theorem Decoration.isOrdered_document {node : Decoration Expr} (hn : node.IsExpressible)
    (hk : ∀ entry ∈ node.key, entry.2.IsOrdered) (h : ∀ e ∈ node.contents, (write e).IsOrdered) :
    ∀ entry ∈ node.document write, ∀ value ∈ entry.2, value.IsOrdered := by
  have hkey := isOrdered_pairs fun entry he => Literal.isOrdered_document (hk entry he)
  have hoptions := isOrdered_map fun option ho =>
    QueryOption.isOrdered_document fun e he => h e (List.mem_flatMap.2 ⟨option, ho, he⟩)
  have hcustom : (Json.pairs .string node.custom).IsOrdered :=
    isOrdered_pairs fun entry _ => .string entry.2
  have hcast : ∀ cast : Cast, cast.document.IsOrdered := by
    have hnames : ["name", "version"].Pairwise (· < ·) := by decide
    exact fun cast => .object hnames (by simp [Json.IsOrdered.string])
  have hcount : ∀ value ∈ node.count.document, value.IsOrdered := by
    cases node.count <;> simp [Count.document, Json.IsOrdered.string, Json.IsOrdered.bool]
  refine List.forall_mem_append.2 ⟨Operation.isOrdered_entries hn.arguments, ?_⟩
  simpa [hkey, hoptions, hcustom, hcast, isOrdered_texts, Json.IsOrdered.string] using hcount

theorem Expr.isOrdered_documentBy {e : Expr} (he : e.IsExpressible) (ho : e.IsOrdered)
    (h : ∀ child ∈ e.children, (write child).IsOrdered) : (e.documentBy write).IsOrdered := by
  have hstring := Json.IsOrdered.string
  cases e with
  | root start node =>
    refine isOrdered_given (List.forall_mem_cons.2 ⟨?_, Decoration.isOrdered_document he.2 ho h⟩)
    cases start <;> simp [Start.entry, hstring, Json.IsOrdered.bool]
  | follow source link node =>
    obtain ⟨hs, hc⟩ := List.forall_mem_cons.1 h
    refine isOrdered_given (List.forall_mem_cons.2 ⟨?_, List.forall_mem_cons.2
      ⟨by simpa using hs, Decoration.isOrdered_document he.2 ho hc⟩⟩)
    cases link <;> simp [Link.entry, hstring]
  | literal v => exact Literal.isOrdered_document ho
  | unary op operand =>
    have hoperand := h operand List.mem_cons_self
    cases op <;> exact Json.isOrdered_field hoperand
  | binary op left right =>
    have hnames : ["left", "op", "right"].Pairwise (· < ·) := by decide
    exact .object hnames (by simpa [children, hstring] using h)
  | call function args =>
    have hargs : (Json.array (args.map write)).IsOrdered := isOrdered_map h
    have hnames : ["args", "call"].Pairwise (· < ·) := by decide
    exact .object hnames (by simp [hstring, hargs])
  | lambda quantifier collection bound body =>
    have hbody : (write body).IsOrdered := h body (by simp [children])
    have hnames : [quantifier.keyword, "body", "var"].Pairwise (· < ·) := by
      cases quantifier <;> decide
    exact .object hnames (by simp [hstring, hbody])
  | list items => exact Json.isOrdered_field (isOrdered_map h)
  | _ => exact Json.isOrdered_field (.string _)

end Nodes

end Order

end RequestUri
