import Mathlib.Data.List.Nodup
import RequestUri.Proofs.DocumentParts

/-! The two flags of a document that are not checked: whether a selector is descending, and that a
node is the service root. Whatever stands there, the document is read as if the flag had been a
truth value, and the service root had been marked as such. -/

namespace RequestUri.Document

open Json (Fields)
open Slot (may must)

def Slot.roleOf? (slots : List Slot) (key : String) : Option Role :=
  (slots.find? (·.key = key)).map Slot.role

def Slot.Distinct (slots : List Slot) : Prop := (slots.map Slot.key).Nodup

instance (slots : List Slot) : Decidable (Slot.Distinct slots) :=
  inferInstanceAs (Decidable (List.Nodup _))

theorem Slot.Distinct.ite {c : Prop} [Decidable c] {slots rest : List Slot}
    (h : Slot.Distinct slots) (hrest : Slot.Distinct rest) :
    Slot.Distinct (if c then slots else rest) := by
  split
  · exact h
  · exact hrest

mutual
/-- Puts a truth value in place of each flag that is visited: a mark is one whatever it is, and only
`true` is descending. All else stays as it is. -/
def mend : Role → Json → Json
  | .direction, value => .bool (isTrue value)
  | .mark, _ => .bool true
  | .list role, .array values => .array (mendItems role values)
  | .pair role, .array values => .array (mendSecond role values)
  | role, .object fields => .object (mendFields (role.slots fields) fields)
  | _, value => value

def mendItems (role : Role) : List Json → List Json
  | [] => []
  | value :: rest => mend role value :: mendItems role rest

def mendSecond (role : Role) : List Json → List Json
  | [name, value] => [name, mend role value]
  | values => values

def mendFields (slots : List Slot) : List (String × Json) → List (String × Json)
  | [] => []
  | (key, value) :: rest =>
    match Slot.roleOf? slots key with
    | some role => (key, mend role value) :: mendFields slots rest
    | none => (key, value) :: mendFields slots rest
end

def mendAt (slots : List Slot) (key : String) (value : Json) : Json :=
  ((Slot.roleOf? slots key).map (mend · value)).getD value

section Fields
variable (slots : List Slot) (fields : Fields)

theorem mendItems_eq_map (role : Role) (values : List Json) :
    mendItems role values = values.map (mend role) := by
  induction values with
  | nil => rfl
  | cons value rest ih => rw [mendItems, ih, List.map_cons]

theorem mendFields_eq_map :
    mendFields slots fields = fields.map fun field => (field.1, mendAt slots field.1 field.2) := by
  induction fields with
  | nil => rfl
  | cons field rest ih =>
    rw [mendFields, List.map_cons, mendAt, ← ih]
    cases Slot.roleOf? slots field.1 <;> rfl

theorem mendFields_eq_self
    (h : ∀ field ∈ fields, mendAt slots field.1 field.2 = field.2) :
    mendFields slots fields = fields := by
  rw [mendFields_eq_map]
  refine (List.map_congr_left fun field hf => ?_).trans (List.map_id fields)
  rw [h field hf]
  rfl

theorem lookup_mendFields (key : String) :
    (mendFields slots fields).lookup key = (fields.lookup key).map (mendAt slots key) := by
  rw [mendFields_eq_map]
  induction fields with
  | nil => rfl
  | cons field rest ih =>
    rw [List.map_cons, List.lookup_cons, List.lookup_cons]
    by_cases h : key = field.1
    · simp [h]
    · simp [beq_false_of_ne h, ih]

theorem has_mendFields (key : String) :
    Fields.has (mendFields slots fields) key = fields.has key := by
  rw [Fields.has, lookup_mendFields, Option.isSome_map]
  rfl

theorem length_mendFields : (mendFields slots fields).length = fields.length := by
  rw [mendFields_eq_map, List.length_map]

theorem Role.slots_mendFields (role : Role) :
    role.slots (mendFields slots fields) = role.slots fields := by
  cases role <;>
    simp only [Role.slots, nodeSlots, scalarSlots, decorationSlots, operationSlots, tagSlots,
      argumentSlots, selectorSlots, has_mendFields, length_mendFields]

theorem distinct_tagSlots : Slot.Distinct (tagSlots fields) :=
  .ite (by decide) <| .ite (by decide) <| .ite (by decide) <| .ite (by decide) (by decide)

theorem distinct_scalarSlots : Slot.Distinct (scalarSlots fields) :=
  .ite (by decide) <| .ite (by decide) <| .ite (by decide) <| .ite (by decide) <|
    .ite (by decide) <| .ite (by decide) <| .ite (by decide) <| .ite (by decide) <|
    .ite (by decide) (distinct_tagSlots fields)

theorem keys_decorationSlots :
    (decorationSlots fields).map Slot.key = ["version", "key", "cast", "parameters", "function",
      "count", "options", "expand", "select", "custom"] ∨
    (decorationSlots fields).map Slot.key = ["version", "key", "cast", "action", "count", "options",
      "expand", "select", "custom"] := by
  rw [decorationSlots, operationSlots]
  split
  · exact .inl rfl
  · exact .inr rfl

theorem distinct_nodeSlots : Slot.Distinct (nodeSlots fields) := by
  have hkeys := keys_decorationSlots fields
  refine .ite ?_ (.ite ?_ (.ite ?_ (.ite ?_ (distinct_scalarSlots fields)))) <;>
  · simp only [Slot.Distinct, List.map_cons]
    rcases hkeys with h | h <;> rw [h] <;> decide

theorem Role.distinct_slots (role : Role) : Slot.Distinct (role.slots fields) := by
  cases role with
  | node => exact distinct_nodeSlots fields
  | operand => exact distinct_nodeSlots fields
  | literal => exact distinct_tagSlots fields
  | argument => exact .ite (by decide) (distinct_tagSlots fields)
  | selector => exact .ite (by decide) (by decide)
  | option => exact .ite (by decide) (by decide)
  | _ => simp [Slot.Distinct, Role.slots, may, must]

end Fields

theorem Slot.roleOf?_of_mem {slots : List Slot} (hn : Slot.Distinct slots) {s : Slot}
    (hs : s ∈ slots) : Slot.roleOf? slots s.key = some s.role := by
  induction slots with
  | nil => cases hs
  | cons first rest ih =>
    rw [Slot.Distinct, List.map_cons, List.nodup_cons] at hn
    rcases List.mem_cons.1 hs with rfl | hs
    · simp [Slot.roleOf?]
    · have hne : first.key ≠ s.key := fun h => hn.1 (h ▸ List.mem_map_of_mem hs)
      rw [← ih hn.2 hs]
      simp [Slot.roleOf?, hne]

/-- Nothing with a flag in it is read inside a value of such a role. -/
def Role.isPlain : Role → Bool
  | node | operand | selector | option | apply | aggregation | direction | mark => false
  | list role => role.isPlain
  | pair role => role.isPlain
  | _ => true

theorem isPlain_of_mem_tagSlots (fields : Fields) : ∀ s ∈ tagSlots fields, s.role.isPlain := by
  rw [tagSlots]
  repeat' split
  all_goals decide

theorem Role.isPlain_of_mem_slots {role : Role} (h : role.isPlain) (fields : Fields) :
    ∀ s ∈ role.slots fields, s.role.isPlain := by
  cases role with
  | literal => exact isPlain_of_mem_tagSlots fields
  | argument =>
    rw [Role.slots, argumentSlots]
    split
    · decide
    · exact isPlain_of_mem_tagSlots fields
  | cast => exact (by decide : ∀ s ∈ [must "name" .text, may "version" .version], s.role.isPlain)
  | _ => simp_all [Role.slots, Role.isPlain]

theorem mendAt_of_isPlain {slots : List Slot} {key : String} {value : Json}
    (hmend : ∀ role : Role, role.isPlain → mend role value = value)
    (h : ∀ s ∈ slots, s.key = key → s.role.isPlain) : mendAt slots key value = value := by
  rw [mendAt, Slot.roleOf?]
  cases hfind : slots.find? (·.key = key) with
  | none => rfl
  | some s =>
    have hkey : s.key = key := by simpa using List.find?_some hfind
    exact hmend s.role (h s (List.mem_of_find?_eq_some hfind) hkey)

theorem mend_object {role : Role} (h : role.isFlag = false) (fields : Fields) :
    mend role (.object fields) = .object (mendFields (role.slots fields) fields) := by
  cases role with
  | direction => cases h
  | mark => cases h
  | _ => rfl

theorem mend_atom {role : Role} (h : role.isFlag = false) {value : Json} (hv : value.isAtom) :
    mend role value = value := by
  cases role with
  | direction => cases h
  | mark => cases h
  | _ =>
    cases value with
    | array items => cases hv
    | object fields => cases hv
    | _ => rfl

theorem Role.isFlag_of_isPlain {role : Role} (h : role.isPlain) : role.isFlag = false := by
  rw [Bool.eq_false_iff]
  intro hflag
  rcases Role.eq_of_isFlag hflag with rfl | rfl <;> cases h

theorem mend_of_isPlain {role : Role} (h : role.isPlain) (value : Json) :
    mend role value = value := by
  -- the roles of the parts are plain too, so all of them are shown at once
  induction value using Json.valueInduction generalizing role with
  | object fields ih =>
    have hslots := Role.isPlain_of_mem_slots h fields
    rw [mend_object (Role.isFlag_of_isPlain h), mendFields_eq_self]
    intro field hf
    exact mendAt_of_isPlain (fun role hrole => ih field hf hrole) fun s hs _ => hslots s hs
  | array items ih =>
    cases role with
    | list role =>
      rw [mend, mendItems_eq_map]
      refine congrArg Json.array ((List.map_congr_left fun item hi => ?_).trans (List.map_id items))
      exact ih item hi h
    | pair role =>
      have hrole : role.isPlain := h
      rw [mend, mendSecond.eq_def]
      split
      · next name value => rw [ih value (by simp) hrole]
      · rfl
    | direction => cases h
    | mark => cases h
    | _ => rfl
  | _ => exact mend_atom (Role.isFlag_of_isPlain h) rfl

theorem mend_text (value : Json) : mend .text value = value := mend_of_isPlain rfl value

def mended (role : Role) (fields : Fields) : Fields := mendFields (role.slots fields) fields

section Lookup
variable {role : Role} {fields : Fields}

theorem lookup_mended {key : String} {inner : Role} {required : Bool}
    (hs : ⟨key, inner, required⟩ ∈ role.slots fields) :
    (mended role fields).lookup key = (fields.lookup key).map (mend inner) := by
  have hrole := Slot.roleOf?_of_mem (role.distinct_slots fields) hs
  rw [mended, lookup_mendFields]
  refine congrArg (Option.map · (fields.lookup key)) (funext fun value => ?_)
  rw [mendAt, hrole]
  rfl

theorem lookup_mended_may {key : String} {inner : Role} (hs : may key inner ∈ role.slots fields) :
    (mended role fields).lookup key = (fields.lookup key).map (mend inner) :=
  lookup_mended hs

theorem lookup_mended_must {key : String} {inner : Role} (hs : must key inner ∈ role.slots fields) :
    (mended role fields).lookup key = (fields.lookup key).map (mend inner) :=
  lookup_mended hs

theorem lookup_mended_text {key : String} {required : Bool}
    (hs : ⟨key, .text, required⟩ ∈ role.slots fields) :
    (mended role fields).lookup key = fields.lookup key := by
  have hid : mend .text = id := funext mend_text
  rw [lookup_mended hs, hid, Option.map_id_apply]

theorem lookup_mended_of_isPlain {key : String}
    (h : ∀ s ∈ role.slots fields, s.key = key → s.role.isPlain) :
    (mended role fields).lookup key = fields.lookup key := by
  have hid : mendAt (role.slots fields) key = id :=
    funext fun value => mendAt_of_isPlain (fun role hrole => mend_of_isPlain hrole value) h
  rw [mended, lookup_mendFields, hid, Option.map_id_apply]

theorem lookup_mended_of_none {key : String} (h : fields.lookup key = none) :
    (mended role fields).lookup key = none := by
  rw [mended, lookup_mendFields, h]
  rfl

theorem mended_eq_self
    (h : ∀ s ∈ role.slots fields, fields.lookup s.key = none ∨ s.role.isPlain) :
    mended role fields = fields := by
  refine mendFields_eq_self _ fields fun field hf => ?_
  refine mendAt_of_isPlain (fun role hrole => mend_of_isPlain hrole _) fun s hs hkey => ?_
  refine (h s hs).resolve_left fun hnone => ?_
  rw [hkey, List.lookup_eq_none_iff] at hnone
  simpa using hnone field hf

/-- In the mended object the same field decides, and one that is missing is still missing. -/
theorem decided_mend {α : Type} (key : String) {inner : Role} {required : Bool}
    {slots rest : List Slot} {there there' : Json → α} {missing missing' : α}
    (h : role.slots fields = if fields.has key then slots else rest)
    (hslot : ⟨key, inner, required⟩ ∈ slots)
    (hthere : role.slots fields = slots → ∀ value, there (mend inner value) = there' value)
    (hmissing : fields.lookup key = none → role.slots fields = rest → missing = missing') :
    decided (mended role fields) key there missing = decided fields key there' missing' := by
  rw [Fields.has] at h
  rw [decided, decided]
  cases hkey : fields.lookup key with
  | none =>
    rw [hkey] at h
    rw [lookup_mended_of_none hkey]
    exact hmissing hkey h
  | some value =>
    rw [hkey] at h
    have hslots : role.slots fields = slots := h
    rw [lookup_mended (hslots ▸ hslot), hkey]
    exact hthere hslots value

end Lookup

section Readers
variable (read : Json → Except Fault Expr)

theorem listed_mend {α : Type} (field : String) (f : Json → Except Fault α) (role : Role)
    (found : Option Json) :
    listed field f (found.map (mend (.list role))) =
      listed field (fun value => f (mend role value)) found := by
  cases found with
  | none => rfl
  | some value =>
    cases value with
    | array values =>
      have hlist : mend (.list role) (.array values) = .array (values.map (mend role)) := by
        rw [mend, mendItems_eq_map]
      rw [Option.map_some, hlist]
      exact List.mapM_map
    | object fields =>
      have hfields : mended (.list role) fields = fields := mended_eq_self (List.forall_mem_nil _)
      have hobject : mend (.list role) (.object fields) = .object fields :=
        (mend_object rfl fields).trans (congrArg Json.object hfields)
      rw [Option.map_some, hobject]
      rfl
    | _ => rfl

theorem optional_mend {α : Type} (f : Json → Except Fault α) (role : Role) (found : Option Json) :
    (found.map (mend role)).mapM f = found.mapM fun value => f (mend role value) := by
  cases found <;> rfl

theorem operand_mend (value : Json) :
    operand read (mend .operand value) = operand (fun value => read (mend .node value)) value := by
  cases value <;> rfl

theorem selector_mend (value : Json) :
    selector read (mend .selector value) =
      selector (fun value => read (mend .node value)) value := by
  cases value with
  | object fields =>
    have hobject : mend .selector (.object fields) = .object (mended .selector fields) :=
      mend_object rfl fields
    have h : Role.selector.slots fields = selectorSlots fields := rfl
    rw [hobject, selector_decided, selector_decided]
    refine decided_mend "expr" h List.mem_cons_self (fun hslots value => ?_) fun hexpr hslots => ?_
    · have hdesc : may "desc" .direction ∈ Role.selector.slots fields := by simp [hslots]
      have hflag : ∀ flag, isTrue (mend .direction flag) = isTrue flag := by
        intro flag
        rw [mend, isTrue]
      simp only [lookup_mended_may hdesc, Option.any_map, hflag]
    · -- the fault holds the selector itself, so none of it may have changed
      have hfields : mended .selector fields = fields := by
        refine mended_eq_self fun s hs => .inl ?_
        rw [hslots, List.mem_singleton] at hs
        exact hs ▸ hexpr
      rw [hfields]
  | _ => rfl

theorem aggregation_mend (value : Json) :
    aggregation read (mend .aggregation value) =
      aggregation (fun value => read (mend .node value)) value := by
  cases value with
  | object fields =>
    have hobject : mend .aggregation (.object fields) = .object (mended .aggregation fields) :=
      mend_object rfl fields
    have hslots : Role.aggregation.slots fields =
      [must "method" .text, may "property" .operand, may "as" .text] := rfl
    have hmethod : (mended .aggregation fields).lookup "method" = fields.lookup "method" :=
      lookup_mended_of_isPlain (by simp [hslots, may, must, Role.isPlain])
    have hgiven : (mended .aggregation fields).lookup "as" = fields.lookup "as" :=
      lookup_mended_of_isPlain (by simp [hslots, may, must, Role.isPlain])
    have hproperty : (mended .aggregation fields).lookup "property" =
        (fields.lookup "property").map (mend .operand) := lookup_mended_may (by simp [hslots])
    rw [hobject, aggregation_object, aggregation_object, hproperty, optional_mend,
      funext (operand_mend read), hgiven]
    simp only [requiredText, hmethod]
  | _ => rfl

theorem apply_mend (value : Json) :
    apply read (mend .apply value) = apply (fun value => read (mend .node value)) value := by
  cases value with
  | object fields =>
    have hobject : mend .apply (.object fields) = .object (mended .apply fields) :=
      mend_object rfl fields
    have hslots : Role.apply.slots fields = [may "groupBy" (.list .operand),
      may "aggregate" (.list .aggregation), may "filter" .node] := rfl
    have hgroup : may "groupBy" (.list .operand) ∈ Role.apply.slots fields := by simp [hslots]
    have hsums : may "aggregate" (.list .aggregation) ∈ Role.apply.slots fields := by
      simp [hslots]
    have hfilter : may "filter" .node ∈ Role.apply.slots fields := by simp [hslots]
    rw [hobject, apply_object, apply_object, lookup_mended_may hgroup, lookup_mended_may hsums,
      lookup_mended_may hfilter, listed_mend, listed_mend, optional_mend,
      funext (operand_mend read), funext (aggregation_mend read)]
  | _ => rfl

theorem mended_option {name : String} (role : Role) (h : may name role ∈ optionSlots)
    (value : Json) : mended .option [(name, value)] = [(name, mend role value)] := by
  simp only [optionSlots, may, List.mem_cons, Slot.mk.injEq, List.not_mem_nil, or_false] at h
  rcases h with ⟨rfl, rfl, -⟩ | ⟨rfl, rfl, -⟩ | ⟨rfl, rfl, -⟩ | ⟨rfl, rfl, -⟩ | ⟨rfl, rfl, -⟩ <;>
    rfl

theorem queryOption_mend (value : Json) :
    queryOption read (mend .option value) =
      queryOption (fun value => read (mend .node value)) value := by
  cases value with
  | object fields =>
    have hobject : mend .option (.object fields) = .object (mended .option fields) :=
      mend_object rfl fields
    rw [hobject]
    rcases fields with _ | ⟨⟨name, value⟩, _ | ⟨extra, rest⟩⟩
    · rfl
    · by_cases hskip : name = "skip"
      · subst hskip
        rw [mended_option .node (by simp [optionSlots])]
        rfl
      by_cases htop : name = "top"
      · subst htop
        rw [mended_option .node (by simp [optionSlots])]
        rfl
      by_cases hfilter : name = "filter"
      · subst hfilter
        rw [mended_option .node (by simp [optionSlots])]
        rfl
      by_cases horder : name = "orderBy"
      · subst horder
        have hlist := listed_mend "orderBy" (selector read) .selector (some value)
        rw [mended_option (.list .selector) (by simp [optionSlots])]
        simp only [listed, Option.map_some, funext (selector_mend read)] at hlist
        simp only [queryOption, ← bind_assoc, hlist]
        rfl
      by_cases happly : name = "apply"
      · subst happly
        rw [mended_option .apply (by simp [optionSlots])]
        exact congrArg (QueryOption.apply <$> ·) (apply_mend read value)
      · have hfields : mended .option [(name, value)] = [(name, value)] := by
          have hunknown : ∀ s ∈ optionSlots, s.key ≠ name := by
            simp [optionSlots, may, Ne.symm hskip, Ne.symm htop, Ne.symm hfilter, Ne.symm horder,
              Ne.symm happly]
          refine mended_eq_self fun s hs => .inl ?_
          rw [List.lookup_cons, beq_false_of_ne (hunknown s hs)]
          rfl
        rw [hfields]
        simp [queryOption, hskip, htop, hfilter, horder, happly]
    · -- with more than one field nothing is read
      have hslots : Role.option.slots ((name, value) :: extra :: rest) = [] := rfl
      rw [mended_eq_self (hslots ▸ List.forall_mem_nil _)]
      rfl
  | _ => rfl

section Nodes
variable {fields : Fields}

theorem isPlain_of_mem_decorationSlots :
    ∀ s ∈ decorationSlots fields, s.role.isPlain ∨ s.key = "options" := by
  rw [decorationSlots, operationSlots]
  split <;> decide

theorem decoration_mend (first : List Slot)
    (hslots : Role.node.slots fields = first ++ decorationSlots fields)
    (hfirst : ∀ s ∈ first, s.role.isPlain ∨ s.key = "serviceRoot" ∨ s.key = "source") :
    decoration read (mended .node fields) =
      decoration (fun value => read (mend .node value)) fields := by
  have hplain : ∀ key, key ≠ "options" → key ≠ "serviceRoot" → key ≠ "source" →
      (mended .node fields).lookup key = fields.lookup key := by
    intro key hoptions hroot hsource
    refine lookup_mended_of_isPlain fun s hs hkey => ?_
    rw [hslots, List.mem_append] at hs
    rcases hs with hs | hs
    · refine (hfirst s hs).resolve_right ?_
      simp [hkey, hroot, hsource]
    · exact (isPlain_of_mem_decorationSlots s hs).resolve_right (by simp [hkey, hoptions])
  have hoptions : (mended .node fields).lookup "options" =
      (fields.lookup "options").map (mend (.list .option)) :=
    lookup_mended_may (by simp [hslots, decorationSlots])
  rw [decoration_eq, decoration_eq, hoptions, listed_mend, funext (queryOption_mend read)]
  simp [versionField, keyField, castField, operationField, parameters, countField, textsField,
    customField, hplain]

theorem source_mend (h : must "source" .node ∈ Role.node.slots fields) :
    source read (mended .node fields) = source (fun value => read (mend .node value)) fields := by
  rw [source, source, lookup_mended_must h]
  cases fields.lookup "source" <;> rfl

theorem binary_mend (hleft : must "left" .node ∈ Role.node.slots fields)
    (hright : must "right" .node ∈ Role.node.slots fields) (op : Json) :
    binary read (mended .node fields) op =
      binary (fun value => read (mend .node value)) fields op := by
  rw [binary, binary, lookup_mended_must hleft, lookup_mended_must hright]
  refine bind_congr fun keyword => ?_
  cases BinaryOp.ofKeyword? keyword <;> cases fields.lookup "left" <;>
    cases fields.lookup "right" <;> rfl

theorem lambda_mend (hvar : must "var" .text ∈ Role.node.slots fields)
    (hbody : must "body" .node ∈ Role.node.slots fields) (quantifier : Quantifier)
    (collection : Json) :
    lambda read (mended .node fields) quantifier collection =
      lambda (fun value => read (mend .node value)) fields quantifier collection := by
  rw [lambda, lambda, lookup_mended_must hbody, requiredText, requiredText,
    lookup_mended_text hvar]
  refine bind_congr fun bound => ?_
  cases fields.lookup "body" <;> rfl

theorem scalar_mend (h : Role.node.slots fields = scalarSlots fields) :
    scalar read (mended .node fields) =
      scalar (fun value => read (mend .node value)) fields := by
  rw [scalar_decided, scalar_decided]
  refine decided_mend "property" h List.mem_cons_self (fun _ path => ?_) fun _ h => ?_
  · rw [mend_text]
  refine decided_mend "param" h List.mem_cons_self (fun _ name => ?_) fun _ h => ?_
  · rw [mend_text]
  refine decided_mend "op" h List.mem_cons_self (fun hslots op => ?_) fun _ h => ?_
  · rw [mend_of_isPlain rfl]
    exact binary_mend read (by simp [hslots]) (by simp [hslots]) op
  refine decided_mend "not" h List.mem_cons_self (fun _ value => rfl) fun _ h => ?_
  refine decided_mend "negate" h List.mem_cons_self (fun _ value => rfl) fun _ h => ?_
  refine decided_mend "call" h (.tail _ (.head _)) (fun hslots name => ?_) fun _ h => ?_
  · have hargs : may "args" (.list .node) ∈ Role.node.slots fields := by simp [hslots]
    rw [lookup_mended_may hargs, listed_mend, mend_text]
  refine decided_mend "list" h List.mem_cons_self (fun _ value => ?_) fun _ h => ?_
  · rw [← Option.map_some, listed_mend]
  refine decided_mend "any" h (.tail _ (.tail _ (.head _))) (fun hslots given => ?_) fun _ h => ?_
  · rw [mend_text]
    exact lambda_mend read (by simp [hslots]) (by simp [hslots]) .any given
  refine decided_mend "all" h (.tail _ (.tail _ (.head _))) (fun hslots given => ?_) fun _ h => ?_
  · rw [mend_text]
    exact lambda_mend read (by simp [hslots]) (by simp [hslots]) .all given
  have hfields : mended .node fields = fields :=
    mended_eq_self fun s hs => .inr (isPlain_of_mem_tagSlots fields s (h ▸ hs))
  rw [hfields]

theorem node_mend (value : Json) :
    node read (mend .node value) = node (fun value => read (mend .node value)) value := by
  cases value with
  | object fields =>
    have hobject : mend .node (.object fields) = .object (mended .node fields) :=
      mend_object rfl fields
    have h : Role.node.slots fields = nodeSlots fields := rfl
    rw [hobject, node_decided, node_decided]
    refine decided_mend "entitySet" h List.mem_cons_self (fun hslots name => ?_) fun _ h => ?_
    · rw [mend_text, decoration_mend read [may "entitySet" .text] hslots (by decide)]
    refine decided_mend "serviceRoot" h List.mem_cons_self (fun hslots flag => ?_) fun _ h => ?_
    · rw [decoration_mend read [may "serviceRoot" .mark] hslots (by decide)]
    refine decided_mend "navigation" h (.tail _ (.head _)) (fun hslots member => ?_) fun _ h => ?_
    · rw [mend_text, source_mend read (by simp [hslots]),
        decoration_mend read [must "source" .node, may "navigation" .text] hslots (by decide)]
    refine decided_mend "singleton" h (.tail _ (.head _)) (fun hslots member => ?_) fun _ h => ?_
    · rw [mend_text, source_mend read (by simp [hslots]),
        decoration_mend read [must "source" .node, may "singleton" .text] hslots (by decide)]
    exact scalar_mend read h
  | _ => rfl

end Nodes

end Readers

/-- The mended document is read as the same tree, or refused with the same fault. -/
theorem tree_mend (value : Json) : tree (mend .node value) = tree value := by
  induction value using Json.objectInduction with
  | object fields ih =>
    rw [tree_eq, node_mend, tree_eq (.object fields)]
    exact node_congr ih (Nat.le_refl _)
  | other value h =>
    rw [tree_eq, node_mend, tree_eq value]
    cases value with
    | object fields => exact absurd rfl (h fields)
    | _ => rfl

theorem parts_mend (role : Role) (value : Json) :
    role.parts (mend role value) =
      (role.parts value).map fun part => (part.1, mend part.1 part.2) := by
  cases h : role.isFlag with
  | true =>
    have hleaf := Role.isLeaf_of_isFlag h
    rw [Role.parts_of_isLeaf hleaf, Role.parts_of_isLeaf hleaf]
    rfl
  | false =>
    cases value with
    | object fields =>
      have hslots : role.slots (mended role fields) = role.slots fields :=
        Role.slots_mendFields _ fields role
      have hobject : mend role (.object fields) = .object (mended role fields) :=
        mend_object h fields
      rw [hobject, Role.parts_object, Role.parts_object, hslots, List.map_filterMap]
      refine List.filterMap_congr fun s hs => ?_
      rw [lookup_mended hs, Option.map_map, Option.map_map]
      rfl
    | array values =>
      cases role with
      | list role =>
        rw [mend, mendItems_eq_map]
        simp [Role.parts]
      | pair role =>
        rcases values with _ | ⟨name, _ | ⟨value, _ | ⟨extra, rest⟩⟩⟩
        · rfl
        · rfl
        · have hname : mend .text name = name := mend_of_isPlain rfl name
          simp [mend, mendSecond, Role.parts, hname]
        · rfl
      | _ => rfl
    | _ =>
      refine (congrArg role.parts (mend_atom h rfl)).trans ?_
      cases role <;> rfl

theorem visits_mend (role : Role) (value : Json) (role' : Role) (part : Json) :
    Visits role (mend role value) role' part ↔
      ∃ given, Visits role value role' given ∧ part = mend role' given := by
  constructor
  · intro h
    generalize hv : mend role value = result at h
    induction h generalizing value with
    | self role result => exact ⟨value, .self role value, hv.symm⟩
    | inside hpart _ ih =>
      rw [← hv, parts_mend, List.mem_map] at hpart
      obtain ⟨inner, hinner, rfl⟩ := hpart
      obtain ⟨given, hgiven, heq⟩ := ih inner.2 rfl
      exact ⟨given, .inside hinner hgiven, heq⟩
  · rintro ⟨given, h, rfl⟩
    induction h with
    | self role value => exact .self role (mend role value)
    | @inside role value inner _ _ hpart _ ih =>
      have hmem : (inner.1, mend inner.1 inner.2) ∈ role.parts (mend role value) := by
        rw [parts_mend]
        exact List.mem_map_of_mem hpart
      exact .inside hmem ih

theorem fits_mend {role : Role} (h : role.isFlag = false) (value : Json) :
    role.fits (mend role value) = role.fits value := by
  cases value with
  | object fields =>
    rw [mend_object h]
    cases role with
    | option =>
      rcases fields with _ | ⟨⟨name, value⟩, _ | ⟨extra, rest⟩⟩
      · rfl
      · rw [mendFields_eq_map]
        rfl
      · rw [mendFields_eq_map]
        rfl
    | _ => rfl
  | array values =>
    cases role with
    | list role => rfl
    | pair role => rcases values with _ | ⟨name, _ | ⟨value, _ | ⟨extra, rest⟩⟩⟩ <;> rfl
    | direction => cases h
    | mark => cases h
    | _ => rfl
  | _ => exact congrArg role.fits (mend_atom h rfl)

theorem isComplete_mend {role : Role} (h : role.isFlag = false) (value : Json) :
    role.isComplete (mend role value) = role.isComplete value := by
  cases value with
  | object fields =>
    rw [mend_object h, Role.isComplete, Role.isComplete, Role.slots_mendFields]
    simp only [has_mendFields]
  | array values => cases role <;> rfl
  | _ => exact congrArg role.isComplete (mend_atom h rfl)

theorem suits_mend (role : Role) (value : Json) :
    role.suits (mend role value) ↔ role.isFlag ∨ role.suits value := by
  cases h : role.isFlag with
  | true =>
    refine iff_of_true ?_ (.inl rfl)
    rcases Role.eq_of_isFlag h with rfl | rfl <;> rw [mend] <;> rfl
  | false =>
    rw [Role.suits, fits_mend h, isComplete_mend h]
    simp [Role.suits]

/-- A document is refused just if something in it other than a flag does not suit, and then it is
refused whatever its flags are. With the flags mended nothing else is different, and an accepted
document suits throughout. -/
theorem flags_unchecked (value : Json) :
    (Accepted (tree value) ↔
      ∀ role part, Visits .node value role part → role.isFlag ∨ role.suits part) ∧
    ((∃ fault, tree value = .error fault) ↔
      ∃ role part, Visits .node value role part ∧ ¬ role.isFlag ∧ ¬ role.suits part) ∧
    tree (mend .node value) = tree value ∧
    (∀ role part, Visits .node (mend .node value) role part ↔
      ∃ given, Visits .node value role given ∧ part = mend role given) ∧
    (Accepted (tree value) ↔
      ∀ role part, Visits .node (mend .node value) role part → role.suits part) := by
  have hholds := accepted_tree value
  refine ⟨hholds, ?_, tree_mend value, visits_mend .node value, ?_⟩
  · rw [← not_accepted, hholds]
    simp [Holds]
  · rw [hholds]
    constructor
    · intro h role part hv
      obtain ⟨given, hgiven, rfl⟩ := (visits_mend .node value role part).1 hv
      exact (suits_mend role given).2 (h role given hgiven)
    · intro h role given hgiven
      exact (suits_mend role given).1
        (h role (mend role given) ((visits_mend .node value role _).2 ⟨given, hgiven, rfl⟩))

def peopleByAge (flag : Json) : Json :=
  .object [("entitySet", .string "People"), ("options", .array [.object [("orderBy",
    .array [.object [("expr", .object [("property", .string "Age")]), ("desc", flag)]])]])]

theorem flags_unchecked_of_peopleByAge :
    tree (peopleByAge (.bool false)) = tree (peopleByAge (.string "true")) :=
  (flags_unchecked (peopleByAge (.string "true"))).2.2.1

theorem visits_direction (flag : Json) : Visits .node (peopleByAge flag) .direction flag :=
  -- `options`, its item, `orderBy`, its item, `desc`
  .inside (List.mem_of_getElem? (i := 1) rfl) <|
    .inside (List.mem_of_getElem? (i := 0) rfl) <|
    .inside (List.mem_of_getElem? (i := 0) rfl) <|
    .inside (List.mem_of_getElem? (i := 0) rfl) <|
    .inside (List.mem_of_getElem? (i := 1) rfl) <| .self .direction flag

/-- A text for a direction and a root that is marked as none are accepted. -/
theorem unsuited_flags_accepted :
    (tree (peopleByAge (.string "true")) = .ok (.root (.entitySet "People")
        { options := [.orderBy [{ operand := .ofPath "Age", descending := false }]] }) ∧
      Visits .node (peopleByAge (.string "true")) .direction (.string "true") ∧
      ¬ Role.suits .direction (.string "true")) ∧
    tree (.object [("serviceRoot", .bool false)]) = .ok (.root .serviceRoot {}) ∧
      Visits .node (.object [("serviceRoot", .bool false)]) .mark (.bool false) ∧
      ¬ Role.suits .mark (.bool false) := by
  refine ⟨⟨rfl, visits_direction _, Bool.false_ne_true⟩, rfl, ?_, Bool.false_ne_true⟩
  exact .inside (List.mem_of_getElem? (i := 0) rfl) (.self .mark (.bool false))

end RequestUri.Document
