import RequestUri.Command.Answer
import RequestUri.Proofs.DocumentNodes

/-! The trees that documents stand for have a few shapes throughout, and only a few faults are left
for their requests. -/

namespace RequestUri

def Literal.IsDocumented : Literal → Prop
  | single _ => False
  | int64 n => ¬ (-0x80000000 ≤ n.toInt ∧ n.toInt < 0x80000000)
  | _ => True

/-- All the names of the methods that have a word, in lower case. -/
def methodNames : List String :=
  ["sum", "average", "avg", "min", "max", "countdistinct", "count", "$count"]

def lowered (name : String) : String := String.ofList (name.toList.map Char.toLower)

def Method.IsDocumented : Method → Prop
  | custom name => lowered name ∉ methodNames
  | _ => True

structure Decoration.IsDocumented (node : Decoration Expr) : Prop where
  key : ∀ entry ∈ node.key, entry.2.IsDocumented
  action : ∀ operation ∈ node.operation, operation.isAction → operation.parameters = []
  methods : ∀ option ∈ node.options, ∀ a ∈ option.aggregations, a.method.IsDocumented

/-- An expression, but for what stands in it, as a document can give it. -/
def Expr.IsDocumented : Expr → Prop
  | root _ node => node.IsDocumented
  | follow _ _ node => node.IsDocumented
  | literal value => value.IsDocumented
  | property name => (property name).IsPath
  | member object name => (member object name).IsPath
  | lambda _ collection _ _ => collection.IsPath
  | conditional .. => False
  | typeTest .. => False
  | construction .. => False
  | invocation .. => False
  | _ => True

section Fields
open Document

theorem Document.method_eq (name : String) : method name =
    if lowered name = "sum" then .sum
    else if lowered name = "average" ∨ lowered name = "avg" then .average
    else if lowered name = "min" then .min
    else if lowered name = "max" then .max
    else if lowered name = "countdistinct" then .countDistinct
    else if lowered name = "$count" ∨ lowered name = "count" then .count
    else .custom name := rfl

theorem Document.method_isDocumented (name : String) : (method name).IsDocumented := by
  rw [method_eq]
  split_ifs with hsum haverage hmin hmax hdistinct hcount
  case neg =>
    -- none of the names, so it is a name of its own
    rw [not_or] at haverage hcount
    simp [Method.IsDocumented, methodNames, hsum, haverage, hmin, hmax, hdistinct, hcount]
  all_goals exact trivial

theorem Document.number_isDocumented (n : Json.Number) : (number n).IsDocumented := by
  cases n with
  | double bits => trivial
  | whole k =>
    rw [number]
    split_ifs with h32 h64
    · trivial
    · rw [Literal.IsDocumented, Int64.toInt_ofInt_of_le (by omega) (by omega)]
      exact h32
    · trivial

def Literal.IsTagged : Literal → Prop
  | guid text => Text.isGuid text.toList
  | dateTime text => Text.isDateTime text.toList
  | decimal _ => True
  | enum _ _ => True
  | json _ => True
  | _ => False

theorem Literal.IsTagged.isDocumented {v : Literal} (h : v.IsTagged) : v.IsDocumented := by
  cases v with
  | int64 n => cases h
  | single bits => cases h
  | _ => trivial

theorem Document.decimal_ensures (value : Json) : Ensures (decimal value) Literal.IsTagged := by
  rw [decimal.eq_def]
  dsimp only
  split
  all_goals
    refine (Ensures.any _).bind fun s _ => ?_
    split
    · exact Ensures.ok trivial
    · exact Ensures.error _

theorem Document.tagged_ensures (fields : Json.Fields) :
    Ensures (tagged fields) Literal.IsTagged := by
  rw [tagged_decided]
  refine .decided "guid" (fun value => (Ensures.any _).bind fun s _ => ?_) ?_
  · split
    · next h => exact Ensures.ok h
    · exact Ensures.error _
  refine .decided "dateTimeOffset" (fun value => (Ensures.any _).bind fun s _ => ?_) ?_
  · split
    · next h => exact Ensures.ok h
    · exact Ensures.error _
  refine .decided "decimal" (fun value => decimal_ensures value) ?_
  refine .decided "enum" (fun member => ?_) ?_
  · exact (Ensures.any _).bind fun member _ => (Ensures.any _).bind fun _ _ => Ensures.ok trivial
  exact .decided "json" (fun value => Ensures.ok trivial) (Ensures.ok trivial)

theorem Document.literal_ensures (value : Json) : Ensures (literal value) Literal.IsDocumented := by
  cases value with
  | number n => exact Ensures.ok (number_isDocumented n)
  | object fields => exact fun v hv => (tagged_ensures fields v hv).isDocumented
  | _ => exact Ensures.ok trivial

theorem Document.keyField_ensures (fields : Json.Fields) :
    Ensures (keyField fields) fun key => ∀ entry ∈ key, entry.2.IsDocumented := by
  intro key h entry hin
  obtain ⟨given, hgiven⟩ := keyField_given fields key h entry hin
  exact literal_ensures given entry.2 hgiven

theorem Document.operationField_ensures (fields : Json.Fields) :
    Ensures (operationField fields) fun found =>
      ∀ operation ∈ found, operation.isAction → operation.parameters = [] := by
  rw [operation_decided]
  refine .decided "function" (fun name => ?_) (.decided "action" (fun name => ?_) ?_)
  · exact (Ensures.any _).bind fun parameters _ => (Ensures.any _).bind fun name _ =>
      Ensures.ok (by simp)
  · exact (Ensures.any _).bind fun name _ => Ensures.ok (by simp)
  · exact Ensures.ok (by simp)

end Fields

theorem Decoration.IsReadFrom.isDocumented {fields : Json.Fields} {node : Decoration Expr}
    (h : node.IsReadFrom fields) : node.IsDocumented where
  key := Document.keyField_ensures fields node.key h.key
  action := Document.operationField_ensures fields node.operation h.operation
  methods := by
    intro option ho a ha
    obtain ⟨name, hname⟩ := h.methods option ho a ha
    rw [hname]
    exact Document.method_isDocumented name

namespace Document

theorem keeps_isDocumented : Keeps Expr.IsDocumented where
  literal h := literal_ensures _ _ h
  path {e} h := by
    cases e with
    | property name => exact h
    | member object name => exact h
    | _ => simp [Expr.IsPath, Expr.IsSegments] at h
  operator {e} h := by cases e <;> simp_all [Expr.kind, Expr.IsDocumented]
  lambda _ _ _ _ h := h
  root _ h := h.isDocumented
  follow _ _ h := h.isDocumented

theorem within_ensures (n : Nat) (value : Json) :
    Ensures (within n value) (Expr.Throughout Expr.IsDocumented) :=
  within_keeps keeps_isDocumented n value

end Document

def Fault.IsOfDocument : Fault → Prop
  | unsupportedKind kind => kind ∉ [.conditional, .typeTest, .construction, .invocation]
  | unsupportedMethod _ => True
  | nothingToAggregate method => method ∈ [.sum, .average, .min, .max, .countDistinct]
  | misplacedEntitySet .. => False
  | unbound _ => False

section Faults
variable {fault : Fault}

theorem Expr.IsDocumented.isOfDocument {e : Expr} (h : e.IsDocumented) :
    (Fault.unsupportedKind e.kind).IsOfDocument := by
  cases e <;> simp_all [Expr.IsDocumented, Fault.IsOfDocument, Expr.kind]

theorem Expr.isOfDocument_of_mem_writeFaults {e : Expr} (h : e.Throughout IsDocumented)
    (hf : fault ∈ e.writeFaults) : fault.IsOfDocument := by
  obtain ⟨part, hp, rfl⟩ := List.mem_map.1 hf
  exact (h part (contains_of_mem_parts (List.mem_filter.1 hp).1)).isOfDocument

theorem Aggregation.isOfDocument_of_mem_course {a : Aggregation Expr}
    (h : ∀ e ∈ a.operand, e.Throughout Expr.IsDocumented)
    (hf : fault ∈ a.course id Expr.writeFaults) : fault.IsOfDocument := by
  rw [course.eq_def] at hf
  split at hf
  · rw [List.mem_singleton.1 hf]
    trivial
  · cases hf
  · next operand ho _ _ => exact Expr.isOfDocument_of_mem_writeFaults (h operand ho) hf
  · next hcustom hcount =>
    rw [List.mem_singleton.1 hf, id, Fault.IsOfDocument]
    cases hm : a.method <;> simp_all

theorem QueryOption.isOfDocument_of_mem_course {option : QueryOption Expr}
    (h : ∀ e ∈ option.contents, e.Throughout Expr.IsDocumented)
    (hf : fault ∈ option.course id Expr.writeFaults) : fault.IsOfDocument := by
  have hone : ∀ e ∈ option.contents, fault ∈ e.writeFaults → fault.IsOfDocument :=
    fun e he hf => Expr.isOfDocument_of_mem_writeFaults (h e he) hf
  cases option with
  | skip amount => exact hone amount (List.mem_singleton.2 rfl) hf
  | top amount => exact hone amount (List.mem_singleton.2 rfl) hf
  | filter predicate => exact hone predicate (List.mem_singleton.2 rfl) hf
  | orderBy selectors =>
    obtain ⟨s, hs, hf⟩ := List.mem_flatMap.1 hf
    exact hone s.operand (List.mem_map_of_mem hs) hf
  | apply clause =>
    rw [course, Apply.course] at hf
    split at hf
    · cases hf
    · simp only [List.mem_append, List.mem_flatMap] at hf
      rcases hf with ⟨e, he, hf⟩ | ⟨a, ha, hf⟩ | ⟨e, he, hf⟩
      · exact hone e (by simp_all [contents]) hf
      · refine Aggregation.isOfDocument_of_mem_course (fun e he => h e ?_) hf
        simp only [contents, List.mem_append, List.mem_flatMap]
        exact .inr (.inl ⟨a, ha, Option.mem_toList.2 he⟩)
      · exact hone e (by simp_all [contents]) hf

theorem Expr.isOfDocument_of_mem_faults {tree : Expr} (h : tree.Throughout IsDocumented)
    (hf : fault ∈ tree.faults) : fault.IsOfDocument := by
  rcases List.mem_append.1 hf with hf | hf
  · split at hf
    · cases hf
    · rw [List.mem_singleton.1 hf]
      exact (h _ (contains_origin tree)).isOfDocument
  · obtain ⟨node, hn, hf⟩ := List.mem_flatMap.1 hf
    obtain ⟨option, ho, hf⟩ := List.mem_flatMap.1 hf
    refine QueryOption.isOfDocument_of_mem_course (fun e he part hp => h part ?_) hf
    exact (contains_of_mem_contents hn (List.mem_flatMap.2 ⟨option, ho, he⟩)).trans hp

end Faults

theorem Command.request_of_answer {service : Service} {checkOnly : Bool} {input : Option String}
    {fault : RequestUri.Fault} (h : (answer service checkOnly input).1 = .error (.request fault)) :
    ∃ value tree, Document.tree value = .ok tree ∧ service.request tree = .error fault := by
  cases input with
  | none => cases h
  | some text =>
    simp only [answer, Command.tree] at h
    cases hj : Json.ofText? text with
    | none => simp [hj] at h
    | some value =>
      refine ⟨value, ?_⟩
      cases ht : Document.tree value with
      | error cause => simp [hj, ht, Except.mapError] at h
      | ok tree =>
        refine ⟨tree, rfl, ?_⟩
        cases checkOnly with
        | true => simp [hj, ht, Except.mapError] at h
        | false =>
          simp only [hj, ht, Except.mapError] at h
          rw [Service.request]
          cases hl : service.logged tree with
          | mk result log => cases result <;> simp_all

/-- The tree of a document keeps to the documented shapes at every depth, and the request for it
fails with none but the documented faults. -/
theorem trees_of_documents :
    (∀ value tree, Document.tree value = .ok tree →
      ∀ part, tree.Contains part → part.IsDocumented) ∧
    ∀ base style checkOnly input fault,
      (Command.answer (.ofBase base style) checkOnly input).1 = .error (.request fault) →
        fault.IsOfDocument := by
  have htree : ∀ value, Ensures (Document.tree value) (Expr.Throughout Expr.IsDocumented) :=
    fun value => Document.within_ensures value.depth value
  refine ⟨htree, ?_⟩
  intro base style checkOnly input fault h
  obtain ⟨value, tree, ht, hr⟩ := Command.request_of_answer h
  have hf := (request_eq_error_iff (Service.ofBase_writes base style) rfl tree fault).1 hr
  exact Expr.isOfDocument_of_mem_faults (htree value tree ht) (List.mem_of_head? hf)

def untidyDocument : Json :=
  .object
    [("navigation", .string "Lines"),
      ("options", .array [.object [("apply", .object
        [("aggregate", .array [.object [("method", .string "SUM")]])])]]),
      ("source", .object
        [("entitySet", .string "Orders"),
          ("options", .array [.object [("filter", .object
            [("any", .string "/a//b"), ("body", .number (.whole 4294967296)),
              ("var", .string "x")])]])])]

def untidyTree : Expr :=
  .follow
    (.root (.entitySet "Orders")
      { options := [.filter (.lambda .any (.member (.property "a") "b") "x"
          (.literal (.int64 4294967296)))] })
    (.navigation "Lines")
    { options := [.apply { aggregations := [{ method := .sum }] }] }

def looseDocument : Json :=
  .object [("navigation", .string "Lines"), ("source", .object [("param", .string "x")])]

theorem tree_of_untidyDocument :
    Document.tree untidyDocument = .ok untidyTree ∧
      (∀ part, untidyTree.Contains part → part.IsDocumented) ∧
      (Command.answer (.ofBase "//h") false (some looseDocument.text)).1 =
        .error (.request (.unsupportedKind .parameter)) ∧
      (Fault.unsupportedKind .parameter).IsOfDocument := by
  have ht : Document.tree untidyDocument = .ok untidyTree := rfl
  have hj : Json.ofText? looseDocument.text = some looseDocument := by with_unfolding_all rfl
  have ha : (Command.answer (.ofBase "//h") false (some looseDocument.text)).1 =
      .error (.request (.unsupportedKind .parameter)) := by
    simp only [Command.answer, Command.tree, hj]
    rfl
  exact ⟨ht, trees_of_documents.1 _ _ ht, ha, trees_of_documents.2 _ _ _ _ _ ha⟩

end RequestUri
