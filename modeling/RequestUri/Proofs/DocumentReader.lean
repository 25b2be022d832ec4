import RequestUri.Document.Tree

/-! How a document is read: each node depends only on what stands inside it, so the depth that
reading starts with does not show, and a node is read from its parts with the same reader. -/

namespace RequestUri.Json

/-- Induction on a value, with all items of an array and all fields of an object at once. -/
@[elab_as_elim]
theorem valueInduction {motive : Json → Prop} (null : motive null) (bool : ∀ b, motive (bool b))
    (number : ∀ n, motive (number n)) (string : ∀ s, motive (string s))
    (array : ∀ items, (∀ item ∈ items, motive item) → motive (array items))
    (object : ∀ fields, (∀ field ∈ fields, motive field.2) → motive (object fields))
    (value : Json) : motive value := by
  refine text.induct motive (fun fields => ∀ field ∈ fields, motive field.2)
    (fun items => ∀ item ∈ items, motive item) null (bool true) (fun b _ => bool b) number string
    array object (List.forall_mem_nil _) ?_ (List.forall_mem_nil _) ?_ value
  · intro item rest hitem hrest
    exact List.forall_mem_cons.2 ⟨hitem, hrest⟩
  · intro key value rest hvalue hrest
    exact List.forall_mem_cons.2 ⟨hvalue, hrest⟩

@[elab_as_elim]
theorem objectInduction {motive : Json → Prop}
    (object : ∀ fields : Fields, (∀ value : Json, value.depth ≤ fieldDepth fields →
      motive value) → motive (object fields))
    (other : ∀ value, (∀ fields, value ≠ .object fields) → motive value) (value : Json) :
    motive value := by
  induction hn : value.depth using Nat.strongRecOn generalizing value with
  | ind n ih =>
    cases value with
    | object fields =>
      refine object fields fun value hv => ih value.depth ?_ value rfl
      rw [← hn]
      exact Nat.lt_succ_of_le hv
    | _ => exact other _ nofun

end RequestUri.Json

namespace RequestUri.Document

open Json (Fields)

variable {α : Type}

def listed (field : String) (f : Json → Except Fault α) (found : Option Json) :
    Except Fault (List α) := do
  (← items field found).mapM f

theorem argument_of_literal {value : Json}
    (h : ∀ fields, value = .object fields → fields.lookup "raw" = none) :
    argument value = .ofLiteral <$> literal value := by
  cases value with
  | object fields =>
    rw [argument, h fields rfl]
    rfl
  | _ => rfl

section Objects
variable (read : Json → Except Fault Expr) (fields : Fields)

theorem aggregation_object : aggregation read (.object fields) = (do
    let name ← requiredText fields "method" "aggregate.method"
    let operand ← (fields.lookup "property").mapM (operand read)
    let given ← (fields.lookup "as").mapM (text "aggregate.as")
    return { method := method name, operand, given }) := by
  rw [aggregation]
  cases fields.lookup "property" <;> cases fields.lookup "as" <;> rfl

theorem apply_object : apply read (.object fields) = (do
    let grouping ← listed "groupBy" (operand read) (fields.lookup "groupBy")
    let aggregations ← listed "aggregate" (aggregation read) (fields.lookup "aggregate")
    let predicate ← (fields.lookup "filter").mapM read
    return { grouping, aggregations, predicate }) := by
  simp only [apply, listed, bind_assoc]
  cases fields.lookup "filter" <;> rfl

theorem decoration_eq : decoration read fields = (do
    let version ← versionField fields
    let key ← keyField fields
    let cast ← castField fields
    let operation ← operationField fields
    let count ← countField fields
    let options ← listed "options" (queryOption read) (fields.lookup "options")
    let expand ← textsField fields "expand"
    let select ← textsField fields "select"
    let custom ← customField fields
    return { version, key, cast, operation, count, options, expand, select, custom }) := by
  simp only [decoration, listed, bind_assoc]

def isTrue : Json → Bool
  | .bool b => b
  | _ => false

/-- The first field that is there decides what an object is read as. -/
def decided (fields : Fields) (key : String) (there : Json → α) (missing : α) : α :=
  (fields.lookup key).elim missing there

theorem tagged_decided : tagged fields =
    decided fields "guid" guid (
    decided fields "dateTimeOffset" dateTime (
    decided fields "decimal" decimal (
    decided fields "enum" (enum fields) (
    decided fields "json" (fun value => .ok (.json value)) (
    .ok (.json (.object fields))))))) := by
  simp only [tagged, decided]
  cases fields.lookup "guid"
  case some => rfl
  cases fields.lookup "dateTimeOffset"
  case some => rfl
  cases fields.lookup "decimal"
  case some => rfl
  cases fields.lookup "enum"
  case some => rfl
  cases fields.lookup "json" <;> rfl

theorem operation_decided : operationField fields =
    decided fields "function" (fun name => do
      let parameters ← parameters fields
      return some { name := ← text "function" name, isAction := false, parameters }) (
    decided fields "action" (fun name => do
      return some { name := ← text "action" name, isAction := true }) (
    .ok none)) := by
  simp only [operationField, decided]
  cases fields.lookup "function"
  case some => rfl
  cases fields.lookup "action" <;> rfl

theorem argument_decided : argument (.object fields) =
    decided fields "raw" (fun raw => .ofSerialized <$> text "raw" raw)
      (.ofLiteral <$> tagged fields) := by
  rw [argument, decided]
  cases fields.lookup "raw" <;> rfl

theorem selector_decided : selector read (.object fields) =
    decided fields "expr" (fun value => do
      return { operand := ← read value, descending := (fields.lookup "desc").any isTrue }) (
    .error (.badSelector (.object fields))) := by
  rw [selector, decided]
  cases fields.lookup "expr"
  case none => rfl
  rcases fields.lookup "desc" with _ | flag
  · rfl
  · cases flag <;> rfl

theorem scalar_decided : scalar read fields =
    decided fields "property" (fun path => .ofPath <$> text "property" path) (
    decided fields "param" (fun name => .parameter <$> text "param" name) (
    decided fields "op" (binary read fields) (
    decided fields "not" (fun value => .unary .not <$> read value) (
    decided fields "negate" (fun value => .unary .negate <$> read value) (
    decided fields "call" (fun function => do
      let args ← listed "args" read (fields.lookup "args")
      return .call (← text "call" function) args) (
    decided fields "list" (fun value => .list <$> listed "list" read (some value)) (
    decided fields "any" (lambda read fields .any) (
    decided fields "all" (lambda read fields .all) (
    .literal <$> tagged fields))))))))) := by
  simp only [scalar, decided, listed, bind_assoc, map_eq_pure_bind]
  cases fields.lookup "property"
  case some => rfl
  cases fields.lookup "param"
  case some => rfl
  cases fields.lookup "op"
  case some => rfl
  cases fields.lookup "not"
  case some => rfl
  cases fields.lookup "negate"
  case some => rfl
  cases fields.lookup "call"
  case some => rfl
  cases fields.lookup "list"
  case some => rfl
  cases fields.lookup "any"
  case some => rfl
  cases fields.lookup "all" <;> rfl

theorem node_decided : node read (.object fields) =
    decided fields "entitySet" (fun name => do
      let name ← text "entitySet" name
      return .root (.entitySet name) (← decoration read fields)) (
    decided fields "serviceRoot" (fun _ => .root .serviceRoot <$> decoration read fields) (
    decided fields "navigation" (fun member => do
      let source ← source read fields
      let member ← text "navigation" member
      return .follow source (.navigation member) (← decoration read fields)) (
    decided fields "singleton" (fun member => do
      let source ← source read fields
      let member ← text "singleton" member
      return .follow source (.singleton member) (← decoration read fields)) (
    scalar read fields)))) := by
  rw [node, address?, Fields.has]
  simp only [decided]
  cases fields.lookup "entitySet"
  case some => simp
  cases fields.lookup "serviceRoot"
  case some => rfl
  cases fields.lookup "navigation"
  case some => simp
  cases fields.lookup "singleton"
  case some => simp
  rfl

end Objects

section Agreement
variable {n : Nat}

theorem decided_congr {fields : Fields} (key : String) {there there' : Json → α}
    {missing missing' : α}
    (hthere : ∀ value, fields.lookup key = some value → there value = there' value)
    (hmissing : missing = missing') :
    decided fields key there missing = decided fields key there' missing' := by
  rw [decided, decided]
  cases hkey : fields.lookup key with
  | none => exact hmissing
  | some value => exact hthere value hkey

theorem mapM_congr {f g : Json → Except Fault α} {values : List Json}
    (h : ∀ value ∈ values, f value = g value) : values.mapM f = values.mapM g := by
  induction values with
  | nil => rfl
  | cons value rest ih =>
    rw [List.mapM_cons, List.mapM_cons, h value List.mem_cons_self,
      ih fun value hv => h value (List.mem_cons_of_mem _ hv)]

theorem listed_congr {f g : Json → Except Fault α}
    (h : ∀ value : Json, value.depth ≤ n → f value = g value) (field : String)
    (found : Option Json) (hf : ∀ value ∈ found, value.depth ≤ n) :
    listed field f found = listed field g found := by
  cases found with
  | none => rfl
  | some value =>
    cases value with
    | array values =>
      refine mapM_congr fun value hv => h value ?_
      have hle := Json.depth_le_itemDepth hv
      have hd : Json.itemDepth values + 1 ≤ n := hf _ rfl
      omega
    | _ => rfl

theorem optional_congr {f g : Json → Except Fault α}
    (h : ∀ value : Json, value.depth ≤ n → f value = g value) {found : Option Json}
    (hf : ∀ value ∈ found, value.depth ≤ n) :
    found.mapM f = found.mapM g := by
  cases found with
  | none => rfl
  | some value => exact congrArg (some <$> ·) (h value (hf value rfl))

variable {read read' : Json → Except Fault Expr}
  (h : ∀ value : Json, value.depth ≤ n → read value = read' value)
include h

theorem operand_congr {value : Json} (hv : value.depth ≤ n) :
    operand read value = operand read' value := by
  cases value with
  | string path => rfl
  | _ => exact h _ hv

section Fields
variable {fields : Fields} (hf : Json.fieldDepth fields ≤ n)
include hf

omit h in
theorem depth_le_of_mem_lookup (key : String) : ∀ value ∈ fields.lookup key, value.depth ≤ n :=
  fun _ hv => Nat.le_trans (Fields.depth_le_of_lookup hv) hf

theorem source_congr : source read fields = source read' fields := by
  rw [source, source]
  cases hv : fields.lookup "source" with
  | none => rfl
  | some value => exact h value (depth_le_of_mem_lookup hf "source" value hv)

theorem binary_congr (op : Json) : binary read fields op = binary read' fields op := by
  rw [binary, binary]
  refine bind_congr fun keyword => ?_
  cases BinaryOp.ofKeyword? keyword with
  | none => rfl
  | some op =>
    cases hl : fields.lookup "left" with
    | none => rfl
    | some left =>
      cases hr : fields.lookup "right" with
      | none => rfl
      | some right =>
        dsimp only
        rw [h left (depth_le_of_mem_lookup hf "left" left hl),
          h right (depth_le_of_mem_lookup hf "right" right hr)]

theorem lambda_congr (quantifier : Quantifier) (collection : Json) :
    lambda read fields quantifier collection = lambda read' fields quantifier collection := by
  rw [lambda, lambda]
  refine bind_congr fun bound => ?_
  cases hb : fields.lookup "body" with
  | none => rfl
  | some body =>
    dsimp only
    rw [h body (depth_le_of_mem_lookup hf "body" body hb)]

end Fields

theorem selector_congr {value : Json} (hv : value.depth ≤ n) :
    selector read value = selector read' value := by
  cases value with
  | object fields =>
    have hf : Json.fieldDepth fields ≤ n := Nat.le_of_succ_le hv
    rw [selector_decided, selector_decided]
    refine decided_congr "expr" (fun value hexpr => ?_) rfl
    rw [h value (depth_le_of_mem_lookup hf "expr" value hexpr)]
  | _ => rfl

theorem aggregation_congr {value : Json} (hv : value.depth ≤ n) :
    aggregation read value = aggregation read' value := by
  cases value with
  | object fields =>
    have hf : Json.fieldDepth fields ≤ n := Nat.le_of_succ_le hv
    rw [aggregation_object, aggregation_object, optional_congr (fun value hv => operand_congr h hv)
      (depth_le_of_mem_lookup hf "property")]
  | _ => rfl

theorem apply_congr {value : Json} (hv : value.depth ≤ n) :
    apply read value = apply read' value := by
  cases value with
  | object fields =>
    have hf : Json.fieldDepth fields ≤ n := Nat.le_of_succ_le hv
    rw [apply_object, apply_object,
      listed_congr (fun value hv => operand_congr h hv) "groupBy" _
        (depth_le_of_mem_lookup hf "groupBy"),
      listed_congr (fun value hv => aggregation_congr h hv) "aggregate" _
        (depth_le_of_mem_lookup hf "aggregate"),
      optional_congr h (depth_le_of_mem_lookup hf "filter")]
  | _ => rfl

theorem queryOption_congr {value : Json} (hv : value.depth ≤ n) :
    queryOption read value = queryOption read' value := by
  match value, hv with
  | .object [(name, value)], hv =>
    have hvalue : value.depth ≤ n := by
      simp only [Json.depth, Json.fieldDepth] at hv
      omega
    have hs := listed_congr (fun value hv => selector_congr h hv) "orderBy" (some value)
      (by simpa using hvalue)
    simp only [listed] at hs
    simp only [queryOption, h value hvalue, apply_congr h hvalue, ← bind_assoc, hs]
  | .object [], _ => rfl
  | .object (_ :: _ :: _), _ => rfl
  | .null, _ => rfl
  | .bool _, _ => rfl
  | .number _, _ => rfl
  | .string _, _ => rfl
  | .array _, _ => rfl

section Fields
variable {fields : Fields} (hf : Json.fieldDepth fields ≤ n)
include hf

theorem decoration_congr : decoration read fields = decoration read' fields := by
  rw [decoration_eq, decoration_eq,
    listed_congr (fun value hv => queryOption_congr h hv) "options" _
      (depth_le_of_mem_lookup hf "options")]

theorem scalar_congr : scalar read fields = scalar read' fields := by
  have hone : ∀ key value, fields.lookup key = some value → read value = read' value :=
    fun key value hv => h value (depth_le_of_mem_lookup hf key value hv)
  have hargs := listed_congr h "args" _ (depth_le_of_mem_lookup hf "args")
  have hitems := listed_congr h "list" _ (depth_le_of_mem_lookup hf "list")
  rw [scalar_decided, scalar_decided]
  refine decided_congr "property" (fun path _ => rfl) ?_
  refine decided_congr "param" (fun name _ => rfl) ?_
  refine decided_congr "op" (fun op _ => binary_congr h hf op) ?_
  refine decided_congr "not" (fun value hv => ?_) ?_
  · rw [hone "not" value hv]
  refine decided_congr "negate" (fun value hv => ?_) ?_
  · rw [hone "negate" value hv]
  refine decided_congr "call" (fun name _ => ?_) ?_
  · rw [hargs]
  refine decided_congr "list" (fun value hv => ?_) ?_
  · rw [← hv, hitems]
  refine decided_congr "any" (fun collection _ => lambda_congr h hf .any collection) ?_
  exact decided_congr "all" (fun collection _ => lambda_congr h hf .all collection) rfl

end Fields

theorem node_congr {value : Json} (hv : value.depth ≤ n + 1) :
    node read value = node read' value := by
  cases value with
  | object fields =>
    have hf : Json.fieldDepth fields ≤ n := Nat.le_of_succ_le_succ hv
    rw [node_decided, node_decided, source_congr h hf, decoration_congr h hf, scalar_congr h hf]
  | _ => rfl

end Agreement

theorem within_succ {n : Nat} {value : Json} (h : value.depth ≤ n) :
    within (n + 1) value = within n value := by
  induction n generalizing value with
  | zero =>
    cases value with
    | array items => cases h
    | object fields => cases h
    | _ => rfl
  | succ n ih => exact node_congr (fun value hv => ih hv) h

theorem within_eq_tree {n : Nat} {value : Json} (h : value.depth ≤ n) :
    within n value = tree value := by
  induction h with
  | refl => rfl
  | step hn ih => exact (within_succ hn).trans ih

theorem tree_eq (value : Json) : tree value = node tree value := by
  rw [tree, ← within_succ (Nat.le_refl _)]
  exact node_congr (fun value hv => within_eq_tree hv) (Nat.le_succ _)

end RequestUri.Document
