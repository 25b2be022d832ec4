import RequestUri.Proofs.DocumentForm
import RequestUri.Proofs.VersionText

/-! The document of a tree is read back as that tree: no field of a node is lost or mistaken for
another, if only what stands inside the node is read back. -/

namespace RequestUri

namespace Document

open Json (Fields)

variable {ε α β : Type}

theorem ok_bind (a : α) (f : α → Except ε β) : (Except.ok a >>= f) = f a := rfl

theorem map_ok (f : α → β) (a : α) : f <$> (Except.ok a : Except ε α) = .ok (f a) := rfl

section Lists
variable {f : Json → Except Fault α} {write : α → Json}

theorem mapM_map {values : List α} (h : ∀ a ∈ values, f (write a) = .ok a) :
    (values.map write).mapM f = .ok values := by
  induction values with
  | nil => rfl
  | cons a rest ih =>
    obtain ⟨ha, hrest⟩ := List.forall_mem_cons.1 h
    rw [List.map_cons, List.mapM_cons, ha, ih hrest]
    rfl

theorem listed_map (field : String) {values : List α} (h : ∀ a ∈ values, f (write a) = .ok a) :
    listed field f (some (.array (values.map write))) = .ok values := mapM_map h

theorem optional_map {found : Option α} (h : ∀ a ∈ found, f (write a) = .ok a) :
    (found.map write).mapM f = .ok found := by
  cases found with
  | none => rfl
  | some a => rw [Option.map_some, Option.mapM_some, h a rfl, map_ok]

theorem listed_pairs (field : String) {entries : List (String × α)}
    (h : ∀ entry ∈ entries, f (write entry.2) = .ok entry.2) :
    listed field (fun entry => do
      let (name, value) ← pair field entry
      return (name, ← f value)) (some (.pairs write entries)) = .ok entries := by
  refine listed_map field fun entry he => ?_
  simp only [pair, text, ok_bind, pure_bind, h entry he]
  rfl

theorem listed_texts (field : String) (values : List String) :
    listed field (text field) (some (.texts values)) = .ok values := listed_map field fun _ _ => rfl

end Lists

section Values
variable {fields : Fields}

theorem version_text (v : Version) : version (.string v.text) = .ok v := by
  simp only [version, text, ok_bind, Version.ofText?_text]

theorem number_int32 (n : Int32) : number (.whole n.toInt) = .int32 n := by
  have hle := n.le_toInt
  have hlt := n.toInt_lt
  rw [number, if_pos (by omega), Int32.ofInt_toInt]

theorem number_int64 {n : Int64} (h : (Literal.int64 n).IsDocumented) :
    number (.whole n.toInt) = .int64 n := by
  have hle := n.le_toInt
  have hlt := n.toInt_lt
  rw [number, if_neg h, if_pos (by omega), Int64.ofInt_toInt]

theorem literal_document {v : Literal} (h : v.IsExpressible) : literal v.document = .ok v := by
  cases v with
  | int32 n => rw [Literal.document, literal, number_int32]
  | int64 n => rw [Literal.document, literal, number_int64 h.1]
  | guid s =>
    have hs : Text.isGuid s.toList := h.2
    simp [Literal.document, literal, tagged, guid, text, ok_bind, hs]
    rfl
  | dateTime s =>
    have hs : Text.isDateTime s.toList := h.2
    simp [Literal.document, literal, tagged, dateTime, text, ok_bind, hs]
    rfl
  | single bits => exact absurd h.1 id
  | double bits => exact absurd h.2 id
  | decimal d => exact absurd h.2 id
  | _ => rfl

theorem argument_document {a : Argument} (h : a.IsExpressible) : argument a.document = .ok a := by
  rcases Argument.document_cases h with ⟨hraw, hd⟩ | ⟨v, hv, rfl, -, hd⟩
  · rw [hd]
    exact congrArg Except.ok hraw
  · have hnot : ∀ fields, v.document = .object fields → fields.lookup "raw" = none := by
      intro fields hf
      cases v <;> cases hf <;> simp [List.lookup_cons]
    rw [hd, argument_of_literal hnot, literal_document hv, map_ok]

theorem cast_document (c : Cast) : cast c.document = .ok c := by
  simp [cast, Cast.document, requiredText, versionField, List.lookup_cons, version_text, text,
    ok_bind]

theorem method_word {m : Method} (h : m.IsDocumented) : method m.word = m := by
  cases m with
  | custom name =>
    have hn : lowered name ∉ methodNames := h
    change method name = _
    simp only [methodNames, List.mem_cons, List.not_mem_nil, or_false, not_or] at hn
    simp [method_eq, hn]
  | _ => decide

end Values

section Nodes
variable {read : Json → Except Fault Expr} {write : Expr → Json}

/- What is not a text is read as a node. -/
theorem operand_eq_read {value : Json} (h : ∀ s, value ≠ .string s) :
    operand read value = read value := by
  cases value with
  | string s => exact absurd rfl (h s)
  | _ => rfl

theorem selector_document {s : Selector Expr} (h : read (write s.operand) = .ok s.operand) :
    selector read (s.document write) = .ok s := by
  simp [selector, Selector.document, List.lookup_cons, h]

theorem aggregation_document {a : Aggregation Expr} (hm : a.method.IsDocumented)
    (h : ∀ e ∈ a.operand, operand read (write e) = .ok e) :
    aggregation read (a.document write) = .ok a := by
  have hg : (a.given.map Json.string).mapM (text "aggregate.as") = .ok a.given :=
    optional_map fun _ _ => rfl
  rw [Aggregation.document, aggregation_object, requiredText]
  simp [text, ok_bind, optional_map h, hg, method_word hm]

theorem apply_document {clause : Apply Expr} (hm : ∀ a ∈ clause.aggregations, a.method.IsDocumented)
    (hg : ∀ e ∈ clause.grouping, operand read (write e) = .ok e)
    (ha : ∀ a ∈ clause.aggregations, ∀ e ∈ a.operand, operand read (write e) = .ok e)
    (hp : ∀ e ∈ clause.predicate, read (write e) = .ok e) :
    apply read (clause.document write) = .ok clause := by
  have hgrouping := listed_map "groupBy" hg
  have haggregations := listed_map "aggregate" fun a hmem =>
    aggregation_document (hm a hmem) (ha a hmem)
  rw [Apply.document, apply_object]
  simp [hgrouping, haggregations, optional_map hp, ok_bind]

/-- An option is read back if its operands are. The operands that could be paths are no texts. -/
theorem queryOption_document {option : QueryOption Expr}
    (hm : ∀ a ∈ option.aggregations, a.method.IsDocumented)
    (hpath : ∀ e ∈ option.pathOperands, ∀ s, write e ≠ .string s)
    (h : ∀ e ∈ option.contents, read (write e) = .ok e) :
    queryOption read (option.document write) = .ok option := by
  cases option with
  | skip amount => simp [queryOption, QueryOption.document, h amount (List.mem_singleton.2 rfl)]
  | top amount => simp [queryOption, QueryOption.document, h amount (List.mem_singleton.2 rfl)]
  | filter predicate =>
    simp [queryOption, QueryOption.document, h predicate (List.mem_singleton.2 rfl)]
  | orderBy selectors =>
    have hs : (selectors.map (Selector.document write)).mapM (selector read) = .ok selectors :=
      mapM_map fun s hs => selector_document (h s.operand (List.mem_map_of_mem hs))
    simp [queryOption, QueryOption.document, items, ok_bind, hs]
  | apply clause =>
    have hoperand : ∀ e ∈ (QueryOption.apply clause).pathOperands, read (write e) = .ok e →
        operand read (write e) = .ok e := by
      intro e he hr
      rw [operand_eq_read (hpath e he), hr]
    simp only [QueryOption.contents, QueryOption.pathOperands, List.mem_append, List.mem_flatMap,
      Option.mem_toList] at h hoperand
    have hclause := apply_document hm (fun e he => hoperand e (.inl he) (h e (.inl he)))
      (fun a ha e he => hoperand e (.inr ⟨a, ha, he⟩) (h e (.inr (.inl ⟨a, ha, he⟩))))
      fun e he => h e (.inr (.inr he))
    simp [queryOption, QueryOption.document, hclause]

end Nodes

section Decorations
variable {fields : Fields}

theorem operationField_eq {operation : Option Operation}
    (haction : ∀ o ∈ operation, o.isAction → o.parameters = [])
    (hargs : ∀ o ∈ operation, ∀ entry ∈ o.parameters, entry.2.IsExpressible)
    (hf : fields.lookup "function" =
      (operation.filter (!·.isAction)).map fun o => .string o.name)
    (hp : fields.lookup "parameters" =
      (operation.filter (!·.isAction)).map fun o => .pairs Argument.document o.parameters)
    (ha : fields.lookup "action" = (operation.filter (·.isAction)).map fun o => .string o.name) :
    operationField fields = .ok operation := by
  cases operation with
  | none =>
    rw [operationField, hf, ha]
    rfl
  | some o =>
    obtain ⟨name, isAction, arguments⟩ := o
    cases isAction with
    | true =>
      obtain rfl : arguments = [] := haction _ rfl rfl
      rw [operationField, hf, ha]
      rfl
    | false =>
      have harguments : parameters fields = .ok arguments := by
        change listed "parameters" _ (fields.lookup "parameters") = _
        rw [hp]
        exact listed_pairs "parameters" fun entry he => argument_document (hargs _ rfl entry he)
      rw [operationField, hf, harguments]
      rfl

theorem countField_eq {c : Count} (h : fields.lookup "count" = c.document) :
    countField fields = .ok c := by
  rw [countField, h]
  cases c <;> rfl

theorem castField_eq {c : Option Cast} (h : fields.lookup "cast" = c.map Cast.document) :
    castField fields = .ok c := by
  rw [castField, h]
  cases c with
  | none => rfl
  | some c =>
    simp only [Option.map_some, cast_document, ok_bind]
    rfl

def addressKeys : List String := ["entitySet", "serviceRoot", "navigation", "singleton", "source"]

variable {read : Json → Except Fault Expr} {write : Expr → Json}

theorem decoration_document {node : Decoration Expr} (hn : node.IsExpressible)
    (hw : ∀ e s, write e = .string s → e = .literal (.string s))
    (h : ∀ e ∈ node.contents, read (write e) = .ok e)
    (hf : ∀ key ∉ addressKeys,
      fields.lookup key = (Fields.given (node.document write)).lookup key) :
    decoration read fields = .ok node := by
  -- no two fields have the same name, so each is found under its own, whatever else is there
  simp only [Decoration.document, Operation.entries, List.cons_append, List.nil_append,
    Fields.lookup_given_cons, Fields.lookup_given_nil] at hf
  have hversion : versionField fields = .ok node.version := by
    rw [versionField, hf "version" (by decide)]
    exact version_text node.version
  have hkey : keyField fields = .ok node.key := by
    change listed "key" _ (fields.lookup "key") = _
    rw [hf "key" (by decide)]
    exact listed_pairs "key" fun entry he => literal_document (hn.keyValues entry he)
  have hcast : castField fields = .ok node.cast := by
    apply castField_eq
    rw [hf "cast" (by decide)]
    simp
  have hoperation : operationField fields = .ok node.operation := by
    apply operationField_eq hn.action hn.arguments
    · rw [hf "function" (by decide)]
      simp
    · rw [hf "parameters" (by decide)]
      simp
    · rw [hf "action" (by decide)]
      simp
  have hcount : countField fields = .ok node.count := by
    apply countField_eq
    rw [hf "count" (by decide)]
    simp
  have hoptions : listed "options" (queryOption read) (fields.lookup "options") =
      .ok node.options := by
    rw [hf "options" (by decide)]
    refine listed_map "options" fun option ho => queryOption_document (hn.methods option ho) ?_ ?_
    · exact fun e he s hs => hn.paths option ho s (hw e s hs ▸ he)
    · exact fun e he => h e (List.mem_flatMap.2 ⟨option, ho, he⟩)
  have hexpand : textsField fields "expand" = .ok node.expand := by
    change listed "expand" _ (fields.lookup "expand") = _
    rw [hf "expand" (by decide)]
    exact listed_texts "expand" node.expand
  have hselect : textsField fields "select" = .ok node.select := by
    change listed "select" _ (fields.lookup "select") = _
    rw [hf "select" (by decide)]
    exact listed_texts "select" node.select
  have hcustom : customField fields = .ok node.custom := by
    change listed "custom" _ (fields.lookup "custom") = _
    rw [hf "custom" (by decide)]
    exact listed_pairs "custom" fun entry _ => rfl
  rw [decoration_eq, hversion, hkey, hcast, hoperation, hcount, hoptions, hexpand, hselect, hcustom]
  rfl

section Addresses
variable (write : Expr → Json) (node : Decoration Expr)

theorem lookup_address : ∀ key ∈ addressKeys,
    (Fields.given (node.document write)).lookup key = none := by
  simp [addressKeys, Decoration.document, Operation.entries]

omit write node in
theorem lookup_given_of_address {entry : String × Option Json} (he : entry.1 ∈ addressKeys)
    (rest : List (String × Option Json)) {key : String} (hk : key ∉ addressKeys) :
    (Fields.given (entry :: rest)).lookup key = (Fields.given rest).lookup key := by
  obtain ⟨k, found⟩ := entry
  rw [Fields.lookup_given_cons, if_neg]
  rintro rfl
  exact hk he

theorem address?_root (start : Start) :
    address? read (.given (start.entry :: node.document write)) = some (.ok (.root start)) := by
  have hnone := lookup_address write node
  simp only [addressKeys, List.forall_mem_cons] at hnone
  cases start <;>
    simp [address?, Start.entry, Fields.has, hnone, text]

theorem address?_follow {source : Expr} (hs : read (write source) = .ok source) (link : Link) :
    address? read (.given (link.entry :: ("source", some (write source)) :: node.document write)) =
      some (.ok (.follow source link)) := by
  have hnone := lookup_address write node
  simp only [addressKeys, List.forall_mem_cons] at hnone
  cases link <;>
    simp [address?, Link.entry, Fields.has, hnone, text, Document.source, hs, ok_bind]

end Addresses

section Scalars
variable (read)

theorem node_scalar (h : ∀ key ∈ addressKeys, fields.lookup key = none) :
    node read (.object fields) = scalar read fields := by
  simp only [addressKeys, List.forall_mem_cons] at h
  simp [node, address?, Fields.has, h]

def scalarKeys : List String :=
  ["property", "param", "op", "not", "negate", "call", "list", "any", "all"]

theorem node_literal {value : Json} (ha : ∀ items, value ≠ .array items)
    (h : ∀ fields, value = .object fields →
      ∀ key ∈ addressKeys ++ scalarKeys, fields.lookup key = none) :
    node read value = .literal <$> literal value := by
  cases value with
  | array items => exact absurd rfl (ha items)
  | object fields =>
    obtain ⟨haddress, hscalar⟩ := List.forall_mem_append.1 (h fields rfl)
    rw [node_scalar read haddress]
    simp only [scalarKeys, List.forall_mem_cons] at hscalar
    simp [scalar, hscalar, literal]
  | _ => rfl

theorem node_path {e : Expr} (h : e.IsPath) :
    node read (.object [("property", .string (e.text .query))]) = .ok e := by
  rw [node_scalar read (by simp [addressKeys, List.lookup_cons])]
  simp [scalar, text, h.ofPath_text]

end Scalars

theorem eq_string_of_documentBy {e : Expr} {s : String} (h : e.documentBy write = .string s) :
    e = .literal (.string s) := by
  cases e with
  | literal v => cases v <;> simp_all [Expr.documentBy, Literal.document]
  | unary op operand => cases op <;> cases h
  | _ => cases h

/- A resource is read from the fields of its address and those of its decoration. -/
theorem node_resource {node : Decoration Expr} {resource : Decoration Expr → Expr}
    (ha : address? read fields = some (.ok resource)) (hd : decoration read fields = .ok node) :
    Document.node read (.object fields) = .ok (resource node) := by
  simp only [Document.node, ha, hd, ok_bind]
  rfl

/-- One node is read back if all that stands inside it is. -/
theorem node_documentBy {e : Expr} (he : e.IsExpressible)
    (hw : ∀ child s, write child = .string s → child = .literal (.string s))
    (h : ∀ child ∈ e.children, read (write child) = .ok child) :
    node read (e.documentBy write) = .ok e := by
  -- a node without an address is a scalar, and one without the field of an operator a literal
  cases e with
  | root start node =>
    have hentry : start.entry.1 ∈ addressKeys := by
      cases start <;> simp [Start.entry, addressKeys]
    refine node_resource (address?_root write node start) (decoration_document he.2 hw h ?_)
    exact fun key hk => lookup_given_of_address hentry _ hk
  | follow source link node =>
    have hentry : link.entry.1 ∈ addressKeys := by
      cases link <;> simp [Link.entry, addressKeys]
    obtain ⟨hs, hc⟩ := List.forall_mem_cons.1 h
    refine node_resource (address?_follow write node hs link) (decoration_document he.2 hw hc ?_)
    intro key hk
    rw [lookup_given_of_address hentry _ hk, lookup_given_of_address (by simp [addressKeys]) _ hk]
  | literal v =>
    have hv : node read v.document = .literal <$> literal v.document := by
      apply node_literal
      · cases v <;> simp [Literal.document]
      · cases v <;> rintro fields ⟨⟩ <;> simp [addressKeys, scalarKeys, List.lookup_cons]
    rw [Expr.documentBy, hv, literal_document he.2, map_ok]
  | property name => exact node_path read he.1
  | member object name => exact node_path read he.1
  | parameter name => rfl
  | unary op operand =>
    have ho := h operand List.mem_cons_self
    cases op with
    | not =>
      rw [Expr.documentBy, node_scalar read (by simp [addressKeys, List.lookup_cons])]
      simp [scalar, List.lookup_cons, ho]
    | negate =>
      rw [Expr.documentBy, node_scalar read (by simp [addressKeys, List.lookup_cons])]
      simp [scalar, List.lookup_cons, ho]
  | binary op left right =>
    have hl := h left List.mem_cons_self
    have hr := h right (List.mem_cons_of_mem _ List.mem_cons_self)
    rw [Expr.documentBy, node_scalar read (by simp [addressKeys, List.lookup_cons])]
    simp [scalar, List.lookup_cons, binary, hl, hr, ok_bind, text, ofKeyword?_keyword]
  | call function args =>
    have hargs : (args.map write).mapM read = .ok args := mapM_map h
    rw [Expr.documentBy, node_scalar read (by simp [addressKeys, List.lookup_cons])]
    simp [scalar, List.lookup_cons, items, hargs, ok_bind, text]
  | lambda quantifier collection bound body =>
    have hb := h body (List.mem_cons_of_mem _ List.mem_cons_self)
    have hc : Expr.ofPath (collection.text .query) = collection := Expr.IsPath.ofPath_text he.1
    cases quantifier <;>
    · rw [Expr.documentBy, Quantifier.keyword,
        node_scalar read (by simp [addressKeys, List.lookup_cons])]
      simp [scalar, List.lookup_cons, lambda, requiredText, text, hb, hc, ok_bind]
  | list items =>
    have hitems : (items.map write).mapM read = .ok items := mapM_map h
    rw [Expr.documentBy, node_scalar read (by simp [addressKeys, List.lookup_cons])]
    simp [scalar, List.lookup_cons, Document.items, hitems, ok_bind]
  | conditional test ifTrue ifFalse => exact absurd he.1 id
  | typeTest operand typeName => exact absurd he.1 id
  | construction typeName args => exact absurd he.1 id
  | invocation target args => exact absurd he.1 id

end Decorations

end Document

namespace Expr

theorem eq_string_of_documentWithin {n : Nat} {e : Expr} {s : String}
    (h : e.documentWithin n = .string s) : e = .literal (.string s) := by
  cases n with
  | zero => cases h
  | succ n => exact Document.eq_string_of_documentBy h

theorem sizeOf_pos (e : Expr) : 0 < sizeOf e := by
  cases e <;> simp +arith

section Within
variable {n : Nat} {e : Expr} (hn : sizeOf e ≤ n) (he : e.Throughout IsExpressible)
include hn he

theorem tree_documentWithin : Document.tree (e.documentWithin n) = .ok e := by
  -- along the bound: what stands inside a node is smaller than the node
  induction n generalizing e with
  | zero => exact absurd e.sizeOf_pos (by omega)
  | succ n ih =>
    obtain ⟨hnode, hchildren⟩ := (throughout_iff _ _).1 he
    rw [documentWithin, Document.tree_eq]
    refine Document.node_documentBy hnode (fun _ _ => eq_string_of_documentWithin) ?_
    intro child hc
    have hlt := sizeOf_lt_of_mem_children hc
    exact ih (by omega) (hchildren child hc)

theorem isOrdered_documentWithin (ho : e.Throughout IsOrdered) :
    (e.documentWithin n).IsOrdered := by
  induction n generalizing e with
  | zero => exact .null
  | succ n ih =>
    obtain ⟨hnode, hchildren⟩ := (throughout_iff _ _).1 he
    obtain ⟨honode, hochildren⟩ := (throughout_iff _ _).1 ho
    refine isOrdered_documentBy hnode honode fun child hc => ?_
    have hlt := sizeOf_lt_of_mem_children hc
    exact ih (by omega) (hchildren child hc) (hochildren child hc)

end Within

end Expr

/-- Every tree that can have a document is read from it again, the whole of it; and the document is
in order, like all that is read from a text. -/
theorem tree_document (e : Expr) (h : e.Throughout Expr.IsExpressible) :
    Document.tree e.document = .ok e ∧ (e.Throughout Expr.IsOrdered → e.document.IsOrdered) :=
  ⟨Expr.tree_documentWithin (Nat.le_refl _) h,
    Expr.isOrdered_documentWithin (Nat.le_refl _) h⟩

/-- A node with a wide key, an argument that must not be taken for a number, a path and a text. -/
def nearbyNode : Decoration Expr where
  version := .v401
  key := [("Id", .int64 4294967296)]
  operation := some
    { name := "Near", isAction := false
      parameters := [("p", .structured "5"), ("q", .primitive "x")] }
  options := [.filter (.binary .eq (.property "a") (.literal (.string "it's")))]

def nearbyLines : Expr :=
  .follow (.root (.entitySet "Orders") nearbyNode) (.navigation "Lines") {}

theorem tree_document_nearbyLines :
    nearbyLines.Throughout Expr.IsExpressible ∧
      Document.tree nearbyLines.document = .ok nearbyLines ∧ nearbyLines.document.IsOrdered := by
  have hall : ∀ P : Expr → Prop, P nearbyLines → P (.root (.entitySet "Orders") nearbyNode) →
      P (.binary .eq (.property "a") (.literal (.string "it's"))) → P (.property "a") →
      P (.literal (.string "it's")) → nearbyLines.Throughout P := by
    intro P hlines horders htest hproperty htext
    have hleft := (Expr.throughout_iff P _).2 ⟨hproperty, List.forall_mem_nil _⟩
    have hright := (Expr.throughout_iff P _).2 ⟨htext, List.forall_mem_nil _⟩
    have hfilter := (Expr.throughout_iff P _).2
      ⟨htest, List.forall_mem_cons.2 ⟨hleft, List.forall_mem_singleton.2 hright⟩⟩
    have hsource := (Expr.throughout_iff P _).2 ⟨horders, List.forall_mem_singleton.2 hfilter⟩
    exact (Expr.throughout_iff P _).2 ⟨hlines, List.forall_mem_singleton.2 hsource⟩
  have hempty : Decoration.IsExpressible ({} : Decoration Expr) :=
    ⟨⟨by simp, by simp, by simp⟩, by simp, by simp, by simp⟩
  have hnode : nearbyNode.IsExpressible := by
    have hkey : (Literal.int64 4294967296).IsDocumented := by
      rw [Literal.IsDocumented]
      decide
    have hp : (Argument.structured "5").IsExpressible :=
      .inr ⟨.json (.number (.whole 5)), ⟨trivial, trivial⟩, rfl⟩
    have hq : (Argument.primitive "x").IsExpressible := .inl ⟨"x", rfl⟩
    refine ⟨⟨List.forall_mem_singleton.2 hkey, by simp [nearbyNode],
      by simp [nearbyNode, QueryOption.aggregations]⟩, List.forall_mem_singleton.2 ⟨hkey, trivial⟩,
      ?_, by simp [nearbyNode, QueryOption.pathOperands]⟩
    intro o ho
    cases ho
    exact List.forall_mem_cons.2 ⟨hp, List.forall_mem_singleton.2 hq⟩
  have he : nearbyLines.Throughout Expr.IsExpressible :=
    hall _ ⟨hempty.toIsDocumented, hempty⟩ ⟨hnode.toIsDocumented, hnode⟩ ⟨trivial, trivial⟩
      ⟨.inr ⟨by decide, by decide⟩, trivial⟩ ⟨trivial, trivial, trivial⟩
  have ho : nearbyLines.Throughout Expr.IsOrdered :=
    hall _ (List.forall_mem_nil _) (List.forall_mem_singleton.2 trivial) trivial trivial trivial
  exact ⟨he, (tree_document nearbyLines he).1, (tree_document nearbyLines he).2 ho⟩

end RequestUri
