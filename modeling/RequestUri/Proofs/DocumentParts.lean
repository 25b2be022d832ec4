import RequestUri.Proofs.DocumentReader

/-! The parts of a document that reading it visits, each with what it is read as. A document is
accepted just if every part suits what it is read as; only two kinds of flags are not looked at. -/

namespace RequestUri.Document

open Json (Fields)

/-- What a value of a document is read as. -/
inductive Role where
  | node
  | operand
  | selector
  | option
  | apply
  | aggregation
  | cast
  | literal
  | argument
  | text
  | version
  | count
  | keyword
  | guid
  | dateTime
  | decimal
  /-- Whether a selector is descending. -/
  | direction
  /-- That a node is the service root. -/
  | mark
  | list (item : Role)
  /-- A name and a value. -/
  | pair (value : Role)
deriving DecidableEq

structure Slot where
  key : String
  role : Role
  required : Bool

namespace Slot

def may (key : String) (role : Role) : Slot := ⟨key, role, false⟩

def must (key : String) (role : Role) : Slot := ⟨key, role, true⟩

end Slot

open Slot (may must)

section Slots
variable (fields : Fields)

def tagSlots : List Slot :=
  if fields.has "guid" then [may "guid" .guid]
  else if fields.has "dateTimeOffset" then [may "dateTimeOffset" .dateTime]
  else if fields.has "decimal" then [may "decimal" .decimal]
  else if fields.has "enum" then [must "member" .text, may "enum" .text]
  else []

def argumentSlots : List Slot :=
  if fields.has "raw" then [may "raw" .text] else tagSlots fields

def operationSlots : List Slot :=
  if fields.has "function" then [may "parameters" (.list (.pair .argument)), may "function" .text]
  else [may "action" .text]

def decorationSlots : List Slot :=
  [may "version" .version, may "key" (.list (.pair .literal)), may "cast" .cast] ++
    operationSlots fields ++
    [may "count" .count, may "options" (.list .option), may "expand" (.list .text),
      may "select" (.list .text), may "custom" (.list (.pair .text))]

def scalarSlots : List Slot :=
  if fields.has "property" then [may "property" .text]
  else if fields.has "param" then [may "param" .text]
  else if fields.has "op" then [may "op" .keyword, must "left" .node, must "right" .node]
  else if fields.has "not" then [may "not" .node]
  else if fields.has "negate" then [may "negate" .node]
  else if fields.has "call" then [may "args" (.list .node), may "call" .text]
  else if fields.has "list" then [may "list" (.list .node)]
  else if fields.has "any" then [must "var" .text, must "body" .node, may "any" .text]
  else if fields.has "all" then [must "var" .text, must "body" .node, may "all" .text]
  else tagSlots fields

/-- The first of these fields that is there says which resource a node is; without any of them it is
none. -/
def nodeSlots : List Slot :=
  if fields.has "entitySet" then may "entitySet" .text :: decorationSlots fields
  else if fields.has "serviceRoot" then may "serviceRoot" .mark :: decorationSlots fields
  else if fields.has "navigation" then
    must "source" .node :: may "navigation" .text :: decorationSlots fields
  else if fields.has "singleton" then
    must "source" .node :: may "singleton" .text :: decorationSlots fields
  else scalarSlots fields

/-- Without an operand nothing else of a selector is looked at. -/
def selectorSlots : List Slot :=
  if fields.has "expr" then [must "expr" .node, may "desc" .direction] else [must "expr" .node]

def optionSlots : List Slot :=
  [may "skip" .node, may "top" .node, may "filter" .node, may "orderBy" (.list .selector),
    may "apply" .apply]

end Slots

namespace Role

def slots (role : Role) (fields : Fields) : List Slot :=
  match role with
  | node => nodeSlots fields
  | operand => nodeSlots fields
  | selector => selectorSlots fields
  | option => if fields.length = 1 then optionSlots else []
  | apply =>
    [may "groupBy" (.list .operand), may "aggregate" (.list .aggregation), may "filter" .node]
  | aggregation => [must "method" .text, may "property" .operand, may "as" .text]
  | cast => [must "name" .text, may "version" .version]
  | literal => tagSlots fields
  | argument => argumentSlots fields
  | _ => []

def parts (role : Role) (value : Json) : List (Role × Json) :=
  match role, value with
  | list item, .array values => values.map (item, ·)
  | pair second, .array [name, value] => [(text, name), (second, value)]
  | role, .object fields =>
    (role.slots fields).filterMap fun s => (fields.lookup s.key).map (s.role, ·)
  | _, _ => []

/-- A value of the right type, and for texts with a notation of their own in that notation. -/
def fits : Role → Json → Bool
  | node, .array _ => false
  | operand, .array _ => false
  | node, _ => true
  | operand, _ => true
  | literal, _ => true
  | argument, _ => true
  | selector, .string _ => true
  | selector, .object _ => true
  | option, .object [(name, _)] => optionSlots.any (·.key = name)
  | apply, .object _ => true
  | aggregation, .object _ => true
  | cast, .string _ => true
  | cast, .object _ => true
  | text, .string _ => true
  | version, .string s => (Version.ofText? s).isSome
  | count, .bool _ => true
  | count, .string s => s = "segment"
  | keyword, .string s => (BinaryOp.ofKeyword? s).isSome
  | guid, .string s => Text.isGuid s.toList
  | dateTime, .string s => Text.isDateTime s.toList
  | decimal, .string s => (Numeral.Decimal.ofText s).toOption.isSome
  | decimal, .number n => (Numeral.Decimal.ofText n.text).toOption.isSome
  | direction, .bool _ => true
  | mark, .bool b => b
  | list _, .array _ => true
  | pair _, .array [_, _] => true
  | _, _ => false

def isComplete (role : Role) : Json → Bool
  | .object fields => (role.slots fields).all fun s => !s.required || Fields.has fields s.key
  | _ => true

def suits (role : Role) (value : Json) : Bool := role.fits value && role.isComplete value

def isFlag (role : Role) : Bool := role = direction || role = mark

end Role

/-- Reading a value in a role comes to another value in another role. -/
inductive Visits : Role → Json → Role → Json → Prop
  | self (role : Role) (value : Json) : Visits role value role value
  | inside {role : Role} {value : Json} {part : Role × Json} {role' : Role} {value' : Json} :
    part ∈ role.parts value → Visits part.1 part.2 role' value' → Visits role value role' value'

/-- Everything that is visited suits its role, or is a flag. -/
def Holds (role : Role) (value : Json) : Prop :=
  ∀ role' value', Visits role value role' value' → role'.isFlag ∨ role'.suits value'

theorem holds_iff (role : Role) (value : Json) :
    Holds role value ↔
      (role.isFlag ∨ role.suits value) ∧ ∀ part ∈ role.parts value, Holds part.1 part.2 := by
  constructor
  · intro h
    exact ⟨h role value (.self role value), fun part hpart role' value' hv =>
      h role' value' (.inside hpart hv)⟩
  · rintro ⟨hself, hparts⟩ role' value' hv
    cases hv with
    | self => exact hself
    | inside hpart hin => exact hparts _ hpart role' value' hin

def Slot.Holds (fields : Fields) (s : Slot) : Prop :=
  (∀ value ∈ fields.lookup s.key, Document.Holds s.role value) ∧
    (s.required → fields.has s.key)

theorem Role.isComplete_object (role : Role) (fields : Fields) :
    role.isComplete (.object fields) ↔
      ∀ s ∈ role.slots fields, s.required → fields.has s.key := by
  rw [Role.isComplete, List.all_eq_true]
  refine forall₂_congr fun s _ => ?_
  cases s.required <;> simp

theorem Role.parts_object (role : Role) (fields : Fields) :
    role.parts (.object fields) =
      (role.slots fields).filterMap fun s => (fields.lookup s.key).map (s.role, ·) := by
  cases role <;> rfl

theorem Role.mem_parts_object {role : Role} {fields : Fields} {part : Role × Json} :
    part ∈ role.parts (.object fields) ↔
      ∃ s ∈ role.slots fields, fields.lookup s.key = some part.2 ∧ s.role = part.1 := by
  rw [Role.parts_object, List.mem_filterMap]
  refine exists_congr fun s => and_congr_right fun _ => ?_
  rw [Option.map_eq_some_iff]
  constructor
  · rintro ⟨value, hv, rfl⟩
    exact ⟨hv, rfl⟩
  · rintro ⟨hv, hrole⟩
    exact ⟨part.2, hv, Prod.ext hrole rfl⟩

theorem Role.eq_of_isFlag {role : Role} (h : role.isFlag) : role = direction ∨ role = mark := by
  simpa [isFlag] using h

theorem holds_object {role : Role} {fields : Fields} (h : role.fits (.object fields)) :
    Holds role (.object fields) ↔ ∀ s ∈ role.slots fields, s.Holds fields := by
  have hflag : role.isFlag = false := by
    rw [Bool.eq_false_iff]
    intro hflag
    rcases Role.eq_of_isFlag hflag with rfl | rfl <;> cases h
  rw [holds_iff, hflag, Role.suits, h, Bool.true_and, Role.isComplete_object]
  constructor
  · rintro ⟨hself, hparts⟩ s hs
    refine ⟨fun value hv => ?_, hself.resolve_left Bool.false_ne_true s hs⟩
    exact hparts (s.role, value) (Role.mem_parts_object.2 ⟨s, hs, hv, rfl⟩)
  · intro hslots
    refine ⟨.inr fun s hs => (hslots s hs).2, fun part hpart => ?_⟩
    obtain ⟨s, hs, hv, hrole⟩ := Role.mem_parts_object.1 hpart
    rw [← hrole]
    exact (hslots s hs).1 part.2 hv

theorem not_holds {role : Role} {value : Json} (hflag : role.isFlag = false)
    (h : role.fits value = false) : ¬ Holds role value := by
  intro hv
  have hself := hv role value (.self role value)
  simp [hflag, Role.suits, h] at hself

theorem holds_of_suits {role : Role} {value : Json} (hparts : role.parts value = [])
    (h : role.suits value) : Holds role value := by
  rw [holds_iff, hparts]
  exact ⟨.inr h, List.forall_mem_nil _⟩

def Role.isLeaf : Role → Bool
  | text | version | count | keyword | guid | dateTime | decimal | direction | mark => true
  | _ => false

theorem Role.slots_of_isLeaf {role : Role} (h : role.isLeaf) (fields : Fields) :
    role.slots fields = [] := by
  cases role <;> simp_all [isLeaf, slots]

theorem Role.parts_of_isLeaf {role : Role} (h : role.isLeaf) (value : Json) :
    role.parts value = [] := by
  cases value with
  | object fields =>
    rw [Role.parts_object, Role.slots_of_isLeaf h]
    rfl
  | array values => cases role <;> simp_all [isLeaf, parts]
  | _ => cases role <;> rfl

theorem holds_leaf {role : Role} (h : role.isLeaf) (hflag : role.isFlag = false) (value : Json) :
    Holds role value ↔ role.fits value := by
  have hcomplete : role.isComplete value = true := by
    cases value with
    | object fields =>
      rw [Role.isComplete, Role.slots_of_isLeaf h]
      rfl
    | _ => rfl
  rw [holds_iff, Role.parts_of_isLeaf h, hflag, Role.suits, hcomplete, Bool.and_true]
  simp

theorem Role.isLeaf_of_isFlag {role : Role} (h : role.isFlag) : role.isLeaf := by
  rcases eq_of_isFlag h with rfl | rfl <;> rfl

theorem holds_flag {role : Role} (h : role.isFlag) (value : Json) : Holds role value := by
  rw [holds_iff, Role.parts_of_isLeaf (Role.isLeaf_of_isFlag h)]
  exact ⟨.inl h, List.forall_mem_nil _⟩

theorem holds_list (role : Role) (values : List Json) :
    Holds (.list role) (.array values) ↔ ∀ value ∈ values, Holds role value := by
  have hsuits : Role.suits (.list role) (.array values) = true := rfl
  have hparts : Role.parts (.list role) (.array values) = values.map (role, ·) := rfl
  rw [holds_iff, hsuits, hparts]
  simp

theorem holds_pair (role : Role) (name value : Json) :
    Holds (.pair role) (.array [name, value]) ↔ Holds .text name ∧ Holds role value := by
  have hsuits : Role.suits (.pair role) (.array [name, value]) = true := rfl
  have hparts : Role.parts (.pair role) (.array [name, value]) = [(.text, name), (role, value)] :=
    rfl
  rw [holds_iff, hsuits, hparts]
  simp

def Accepted {ε α : Type} (x : Except ε α) : Prop := ∃ a, x = .ok a

section Accepted
variable {ε α β ι : Type}

theorem accepted_ok (a : α) : Accepted (.ok a : Except ε α) := ⟨a, rfl⟩

theorem not_accepted_error (fault : ε) : ¬ Accepted (.error fault : Except ε α) := by
  rintro ⟨a, h⟩
  cases h

theorem not_accepted (x : Except ε α) : ¬ Accepted x ↔ ∃ fault, x = .error fault := by
  cases x with
  | error fault => exact iff_of_true (not_accepted_error fault) ⟨fault, rfl⟩
  | ok a => simp [accepted_ok]

theorem accepted_if (b : Bool) (a : α) (fault : ε) :
    Accepted (if b then pure a else throw fault : Except ε α) ↔ b := by
  cases b with
  | false => exact iff_of_false (not_accepted_error fault) Bool.false_ne_true
  | true => exact iff_of_true (accepted_ok a) rfl

theorem accepted_bind {x : Except ε α} {f : α → Except ε β} {P : Prop}
    (h : ∀ a, x = .ok a → (Accepted (f a) ↔ P)) : Accepted (x >>= f) ↔ Accepted x ∧ P := by
  cases x with
  | error fault => exact iff_of_false (not_accepted_error fault) fun h => not_accepted_error _ h.1
  | ok a => exact (h a rfl).trans ⟨fun hp => ⟨accepted_ok a, hp⟩, And.right⟩

theorem accepted_map (f : α → β) (x : Except ε α) : Accepted (f <$> x) ↔ Accepted x := by
  cases x with
  | error fault => exact iff_of_false (not_accepted_error fault) (not_accepted_error fault)
  | ok a => exact iff_of_true (accepted_ok (f a)) (accepted_ok a)

theorem accepted_mapM (f : ι → Except ε α) (is : List ι) :
    Accepted (is.mapM f) ↔ ∀ i ∈ is, Accepted (f i) := by
  induction is with
  | nil => exact iff_of_true (accepted_ok []) (List.forall_mem_nil _)
  | cons i is ih =>
    rw [List.mapM_cons, List.forall_mem_cons, ← ih]
    refine accepted_bind fun a _ => ?_
    exact accepted_map (a :: ·) (is.mapM f)

theorem accepted_optional (f : ι → Except ε α) (found : Option ι) :
    Accepted (found.mapM f) ↔ ∀ i ∈ found, Accepted (f i) := by
  cases found with
  | none => exact iff_of_true (accepted_ok none) (by simp)
  | some i =>
    have hmap : Accepted ((some i).mapM f) ↔ Accepted (f i) := accepted_map some (f i)
    simpa using hmap

end Accepted

section Fields
variable {α : Type} {fields : Fields} {role : Role} {f : Json → Except Fault α}

theorem Slot.holds_may (key : String) :
    (may key role).Holds fields ↔ ∀ value ∈ fields.lookup key, Document.Holds role value := by
  simp [Slot.Holds, may]

theorem Slot.holds_must (key : String) :
    (must key role).Holds fields ↔
      ∃ value, fields.lookup key = some value ∧ Document.Holds role value := by
  simp only [Slot.Holds, must, Fields.has]
  cases fields.lookup key <;> simp

theorem accepted_text (field : String) (value : Json) :
    Accepted (text field value) ↔ Holds .text value := by
  rw [holds_leaf rfl rfl]
  cases value with
  | string s => exact iff_of_true (accepted_ok s) rfl
  | _ => exact iff_of_false (not_accepted_error _) Bool.false_ne_true

theorem accepted_requiredText (key field : String) :
    Accepted (requiredText fields key field) ↔ (must key .text).Holds fields := by
  rw [requiredText, Slot.holds_must]
  cases fields.lookup key with
  | none => simp [not_accepted_error]
  | some value => simp [accepted_text]

theorem accepted_version (value : Json) : Accepted (version value) ↔ Holds .version value := by
  rw [holds_leaf rfl rfl]
  cases value with
  | string s =>
    have hfits : Role.fits .version (.string s) = (Version.ofText? s).isSome := rfl
    simp only [version, text, hfits, bind, Except.bind]
    cases Version.ofText? s <;> simp [accepted_ok, not_accepted_error]
  | _ => exact iff_of_false (not_accepted_error _) Bool.false_ne_true

theorem accepted_versionField :
    Accepted (versionField fields) ↔ (may "version" .version).Holds fields := by
  rw [versionField, Slot.holds_may]
  cases fields.lookup "version" with
  | none => simp [accepted_ok]
  | some value => simp [accepted_version]

theorem accepted_listed (h : ∀ value, Accepted (f value) ↔ Holds role value) (field : String)
    (found : Option Json) :
    Accepted (listed field f found) ↔ ∀ value ∈ found, Holds (.list role) value := by
  cases found with
  | none => exact iff_of_true (accepted_ok []) (by simp)
  | some value =>
    have hsome : (∀ v ∈ some value, Holds (.list role) v) ↔ Holds (.list role) value := by simp
    rw [hsome]
    cases value with
    | array values =>
      have hlist : listed field f (some (.array values)) = values.mapM f := rfl
      rw [hlist, accepted_mapM, holds_list]
      exact forall₂_congr fun value _ => h value
    | _ => exact iff_of_false (not_accepted_error _) (not_holds rfl rfl)

theorem accepted_listed_lookup (h : ∀ value, Accepted (f value) ↔ Holds role value)
    (field key : String) :
    Accepted (listed field f (fields.lookup key)) ↔ (may key (.list role)).Holds fields :=
  (accepted_listed h field _).trans (Slot.holds_may key).symm

theorem accepted_pair (h : ∀ value, Accepted (f value) ↔ Holds role value) (field : String)
    (entry : Json) :
    Accepted (do
      let (name, value) ← pair field entry
      return (name, ← f value)) ↔ Holds (.pair role) entry := by
  have hpair : ∀ got, pair field entry = .error (.notPair field got) →
      Role.fits (.pair role) entry = false → (Accepted (do
        let (name, value) ← pair field entry
        return (name, ← f value)) ↔ Holds (.pair role) entry) := by
    intro got herror hfits
    rw [herror]
    exact iff_of_false (not_accepted_error _) (not_holds rfl hfits)
  cases entry with
  | array values =>
    rcases values with _ | ⟨name, _ | ⟨value, _ | ⟨extra, rest⟩⟩⟩
    · exact hpair _ rfl rfl
    · exact hpair _ rfl rfl
    · rw [holds_pair, ← accepted_text field name, ← h value, pair, bind_assoc]
      refine accepted_bind fun s _ => ?_
      exact accepted_map (Prod.mk s) (f value)
    · exact hpair _ rfl rfl
  | _ => exact hpair _ rfl rfl

theorem Slot.holds_may_of_lookup {key : String} {value : Json}
    (h : fields.lookup key = some value) :
    (may key role).Holds fields ↔ Document.Holds role value := by
  simp [Slot.holds_may, h]

theorem accepted_decided (key : String) {there : Json → Except Fault α} {missing : Except Fault α}
    {slots rest : List Slot}
    (hthere : ∀ value, fields.lookup key = some value →
      (Accepted (there value) ↔ ∀ s ∈ slots, s.Holds fields))
    (hmissing : fields.lookup key = none → (Accepted missing ↔ ∀ s ∈ rest, s.Holds fields)) :
    Accepted (decided fields key there missing) ↔
      ∀ s ∈ if fields.has key then slots else rest, s.Holds fields := by
  rw [decided, Fields.has]
  cases hkey : fields.lookup key with
  | none => exact hmissing hkey
  | some value => exact hthere value hkey

theorem accepted_guid (value : Json) : Accepted (guid value) ↔ Holds .guid value := by
  rw [holds_leaf rfl rfl]
  cases value with
  | string s => exact accepted_if (Text.isGuid s.toList) (Literal.guid s) (Fault.badGuid s)
  | _ => exact iff_of_false (not_accepted_error _) Bool.false_ne_true

theorem accepted_dateTime (value : Json) : Accepted (dateTime value) ↔ Holds .dateTime value := by
  rw [holds_leaf rfl rfl]
  cases value with
  | string s =>
    exact accepted_if (Text.isDateTime s.toList) (Literal.dateTime s) (Fault.badDateTime s)
  | _ => exact iff_of_false (not_accepted_error _) Bool.false_ne_true

theorem accepted_decimal (value : Json) : Accepted (decimal value) ↔ Holds .decimal value := by
  rw [holds_leaf rfl rfl]
  cases value with
  | string s =>
    have hfits : Role.fits .decimal (.string s) = (Numeral.Decimal.ofText s).toOption.isSome := rfl
    simp only [decimal, text, hfits, bind, Except.bind]
    cases Numeral.Decimal.ofText s <;> simp [accepted_ok, not_accepted_error, Except.toOption]
  | number n =>
    have hfits : Role.fits .decimal (.number n) =
      (Numeral.Decimal.ofText n.text).toOption.isSome := rfl
    simp only [decimal, hfits, pure_bind]
    cases Numeral.Decimal.ofText n.text <;> simp [accepted_ok, not_accepted_error, Except.toOption]
  | _ => exact iff_of_false (not_accepted_error _) Bool.false_ne_true

theorem accepted_enum (typeName : Json) :
    Accepted (enum fields typeName) ↔
      (must "member" .text).Holds fields ∧ Holds .text typeName := by
  rw [enum, ← accepted_requiredText "member" "member", ← accepted_text "enum" typeName]
  refine accepted_bind fun member _ => ?_
  exact accepted_map (Literal.enum · member) (text "enum" typeName)

theorem accepted_tagged :
    Accepted (tagged fields) ↔ ∀ s ∈ tagSlots fields, s.Holds fields := by
  rw [tagged_decided]
  refine accepted_decided "guid" (fun value h => ?_) fun _ => ?_
  · simp [accepted_guid, Slot.holds_may_of_lookup h]
  refine accepted_decided "dateTimeOffset" (fun value h => ?_) fun _ => ?_
  · simp [accepted_dateTime, Slot.holds_may_of_lookup h]
  refine accepted_decided "decimal" (fun value h => ?_) fun _ => ?_
  · simp [accepted_decimal, Slot.holds_may_of_lookup h]
  refine accepted_decided "enum" (fun value h => ?_) fun _ => ?_
  · simp [accepted_enum, Slot.holds_may_of_lookup h]
  · refine iff_of_true ?_ (List.forall_mem_nil _)
    rw [decided]
    cases fields.lookup "json" <;> exact accepted_ok _

theorem accepted_literal (value : Json) : Accepted (literal value) ↔ Holds .literal value := by
  cases value with
  | object fields =>
    rw [holds_object rfl]
    exact accepted_tagged
  | _ => exact iff_of_true (accepted_ok _) (holds_of_suits rfl rfl)

theorem accepted_argument (value : Json) : Accepted (argument value) ↔ Holds .argument value := by
  cases value with
  | object fields =>
    rw [holds_object rfl]
    rw [argument_decided]
    refine accepted_decided "raw" (fun value h => ?_) fun _ => ?_
    · rw [accepted_map, accepted_text]
      simp [Slot.holds_may_of_lookup h]
    · exact (accepted_map _ _).trans accepted_tagged
  | _ => exact iff_of_true (accepted_ok _) (holds_of_suits rfl rfl)

theorem accepted_cast (value : Json) : Accepted (cast value) ↔ Holds .cast value := by
  cases value with
  | string s => exact iff_of_true (accepted_ok _) (holds_of_suits rfl rfl)
  | object fields =>
    rw [holds_object rfl, cast]
    refine (accepted_bind fun name _ => accepted_map _ _).trans ?_
    simp [accepted_requiredText, accepted_versionField, Role.slots]
  | _ => exact iff_of_false (not_accepted_error _) (not_holds rfl rfl)

theorem accepted_castField : Accepted (castField fields) ↔ (may "cast" .cast).Holds fields := by
  rw [castField, Slot.holds_may]
  cases fields.lookup "cast" with
  | none => simp [accepted_ok]
  | some value => simpa using (accepted_map some (cast value)).trans (accepted_cast value)

theorem accepted_keyField :
    Accepted (keyField fields) ↔ (may "key" (.list (.pair .literal))).Holds fields :=
  accepted_listed_lookup (accepted_pair accepted_literal "key") "key" "key"

theorem accepted_parameters :
    Accepted (parameters fields) ↔ (may "parameters" (.list (.pair .argument))).Holds fields :=
  accepted_listed_lookup (accepted_pair accepted_argument "parameters") "parameters" "parameters"

theorem accepted_operationField :
    Accepted (operationField fields) ↔ ∀ s ∈ operationSlots fields, s.Holds fields := by
  have haction : Accepted (decided fields "action" (fun name => do
      return some { name := ← text "action" name, isAction := true : Operation }) (.ok none)) ↔
        (may "action" .text).Holds fields := by
    rw [decided, Slot.holds_may]
    cases fields.lookup "action" with
    | none => simp [accepted_ok]
    | some value => simpa [accepted_text] using accepted_map _ (text "action" value)
  rw [operation_decided]
  refine accepted_decided "function" (fun value h => ?_) fun _ => ?_
  · refine (accepted_bind fun parameters _ => accepted_map _ _).trans ?_
    simp [accepted_parameters, accepted_text, Slot.holds_may_of_lookup h]
  · simpa using haction

theorem accepted_count (value : Json) : Accepted (count value) ↔ Holds .count value := by
  rw [holds_leaf rfl rfl]
  cases value with
  | string s =>
    have hfits : Role.fits .count (.string s) = decide (s = "segment") := rfl
    rw [count, hfits]
    by_cases h : s = "segment" <;> simp [h, accepted_ok, not_accepted_error]
  | bool b => exact iff_of_true (accepted_ok _) rfl
  | _ => exact iff_of_false (not_accepted_error _) Bool.false_ne_true

theorem accepted_countField : Accepted (countField fields) ↔ (may "count" .count).Holds fields := by
  rw [countField, Slot.holds_may]
  cases fields.lookup "count" with
  | none => simp [accepted_ok]
  | some value => simp [accepted_count]

theorem accepted_textsField (key : String) :
    Accepted (textsField fields key) ↔ (may key (.list .text)).Holds fields :=
  accepted_listed_lookup (accepted_text key) key key

theorem accepted_customField :
    Accepted (customField fields) ↔ (may "custom" (.list (.pair .text))).Holds fields :=
  accepted_listed_lookup (accepted_pair (accepted_text "custom") "custom") "custom" "custom"

end Fields

section Nodes
variable {read : Json → Except Fault Expr}
  (hread : ∀ value, Accepted (read value) ↔ Holds .node value)
include hread

theorem accepted_operand (value : Json) :
    Accepted (operand read value) ↔ Holds .operand value := by
  cases value with
  | string path => exact iff_of_true (accepted_ok _) (holds_of_suits rfl rfl)
  | object fields =>
    rw [holds_object rfl]
    exact (hread _).trans (holds_object rfl)
  | array values =>
    have hnode : ¬ Holds .node (.array values) := not_holds rfl rfl
    exact ⟨fun h => absurd ((hread _).1 h) hnode, fun h => absurd h (not_holds rfl rfl)⟩
  | _ => exact ⟨fun _ => holds_of_suits rfl rfl, fun _ => (hread _).2 (holds_of_suits rfl rfl)⟩

theorem accepted_selector (value : Json) :
    Accepted (selector read value) ↔ Holds .selector value := by
  cases value with
  | string path => exact iff_of_true (accepted_ok _) (holds_of_suits rfl rfl)
  | object fields =>
    rw [holds_object rfl]
    have hdesc : ∀ value, Holds .direction value := holds_flag rfl
    rw [selector_decided]
    refine accepted_decided "expr" (fun value h => ?_) fun h => ?_
    · refine (accepted_map _ _).trans ?_
      simp [hread, Slot.holds_may, Slot.holds_must, h, hdesc]
    · simp [Slot.holds_must, h, not_accepted_error]
  | _ => exact iff_of_false (not_accepted_error _) (not_holds rfl rfl)

theorem accepted_aggregation (value : Json) :
    Accepted (aggregation read value) ↔ Holds .aggregation value := by
  cases value with
  | object fields =>
    rw [holds_object rfl, aggregation_object]
    refine (accepted_bind fun name _ => accepted_bind fun operand _ => accepted_map _ _).trans ?_
    simp [accepted_requiredText, accepted_optional, accepted_operand hread, accepted_text,
      Role.slots, Slot.holds_may]
  | _ => exact iff_of_false (not_accepted_error _) (not_holds rfl rfl)

theorem accepted_apply (value : Json) : Accepted (apply read value) ↔ Holds .apply value := by
  cases value with
  | object fields =>
    rw [holds_object rfl, apply_object]
    refine (accepted_bind fun grouping _ => accepted_bind fun aggregations _ =>
      accepted_map _ _).trans ?_
    rw [accepted_listed_lookup (accepted_operand hread),
      accepted_listed_lookup (accepted_aggregation hread), accepted_optional]
    simp [hread, Role.slots, Slot.holds_may]
  | _ => exact iff_of_false (not_accepted_error _) (not_holds rfl rfl)

omit hread in
theorem holds_option {name : String} (role : Role) (h : may name role ∈ optionSlots)
    (value : Json) : Holds .option (.object [(name, value)]) ↔ Holds role value := by
  have hfits : Role.fits .option (.object [(name, value)]) = true :=
    List.any_eq_true.2 ⟨may name role, h, by simp [may]⟩
  rw [holds_object hfits]
  simp only [optionSlots, may, List.mem_cons, Slot.mk.injEq, List.not_mem_nil, or_false] at h
  rcases h with ⟨rfl, rfl, -⟩ | ⟨rfl, rfl, -⟩ | ⟨rfl, rfl, -⟩ | ⟨rfl, rfl, -⟩ | ⟨rfl, rfl, -⟩ <;>
    simp [Role.slots, optionSlots, Slot.holds_may, List.lookup_cons]

theorem accepted_queryOption (value : Json) :
    Accepted (queryOption read value) ↔ Holds .option value := by
  have herror : ∀ fault, queryOption read value = .error fault → Role.fits .option value = false →
      (Accepted (queryOption read value) ↔ Holds .option value) := by
    intro fault hfault hfits
    rw [hfault]
    exact iff_of_false (not_accepted_error _) (not_holds rfl hfits)
  cases value with
  | object fields =>
    rcases fields with _ | ⟨⟨name, value⟩, _ | ⟨extra, rest⟩⟩
    · exact herror _ rfl rfl
    · by_cases hskip : name = "skip"
      · subst hskip
        rw [holds_option .node (by simp [optionSlots])]
        exact (accepted_map _ _).trans (hread value)
      by_cases htop : name = "top"
      · subst htop
        rw [holds_option .node (by simp [optionSlots])]
        exact (accepted_map _ _).trans (hread value)
      by_cases hfilter : name = "filter"
      · subst hfilter
        rw [holds_option .node (by simp [optionSlots])]
        exact (accepted_map _ _).trans (hread value)
      by_cases horder : name = "orderBy"
      · subst horder
        have hlist := accepted_listed (accepted_selector hread) "orderBy" (some value)
        have hread : queryOption read (.object [("orderBy", value)]) =
            .orderBy <$> listed "orderBy" (selector read) (some value) := by
          simp [queryOption, listed]
        rw [hread, accepted_map, hlist, holds_option (.list .selector) (by simp [optionSlots])]
        simp
      by_cases happly : name = "apply"
      · subst happly
        rw [holds_option .apply (by simp [optionSlots])]
        exact (accepted_map _ _).trans (accepted_apply hread value)
      · refine herror (.unknownOption name) ?_ ?_
        · simp [queryOption, hskip, htop, hfilter, horder, happly]
        · have hfits : Role.fits .option (.object [(name, value)]) =
            optionSlots.any (·.key = name) := rfl
          simp [hfits, optionSlots, may, Ne.symm hskip, Ne.symm htop, Ne.symm hfilter,
            Ne.symm horder, Ne.symm happly]
    · exact herror _ rfl rfl
  | _ => exact herror _ rfl rfl

theorem accepted_decoration (fields : Fields) :
    Accepted (decoration read fields) ↔ ∀ s ∈ decorationSlots fields, s.Holds fields := by
  rw [decoration_eq]
  refine (accepted_bind fun version _ => accepted_bind fun key _ => accepted_bind fun cast _ =>
    accepted_bind fun operation _ => accepted_bind fun count _ => accepted_bind fun options _ =>
    accepted_bind fun expand _ => accepted_bind fun select _ => accepted_map _ _).trans ?_
  rw [accepted_versionField, accepted_keyField, accepted_castField, accepted_operationField,
    accepted_countField, accepted_listed_lookup (accepted_queryOption hread), accepted_textsField,
    accepted_textsField, accepted_customField]
  simp only [decorationSlots, List.forall_mem_append, List.forall_mem_cons, List.not_mem_nil,
    false_imp_iff, implies_true, and_true, and_assoc]

theorem accepted_source (fields : Fields) :
    Accepted (source read fields) ↔ (must "source" .node).Holds fields := by
  rw [source, Slot.holds_must]
  cases fields.lookup "source" with
  | none => simp [not_accepted_error]
  | some value => simp [hread]

theorem accepted_binary (fields : Fields) (op : Json) :
    Accepted (binary read fields op) ↔
      Holds .keyword op ∧ (must "left" .node).Holds fields ∧ (must "right" .node).Holds fields := by
  rw [holds_leaf rfl rfl, Slot.holds_must, Slot.holds_must]
  cases op with
  | string keyword =>
    have hfits : Role.fits .keyword (.string keyword) = (BinaryOp.ofKeyword? keyword).isSome := rfl
    simp only [binary, text, hfits, bind, Except.bind]
    cases BinaryOp.ofKeyword? keyword with
    | none => simp [not_accepted_error]
    | some op =>
      cases fields.lookup "left" with
      | none => simp [not_accepted_error]
      | some left =>
        cases fields.lookup "right" with
        | none => simp [not_accepted_error]
        | some right =>
          refine (accepted_bind (x := read left) fun left _ =>
            accepted_map (Expr.binary op left) (read right)).trans ?_
          simp [hread]
  | _ => exact iff_of_false (not_accepted_error _) fun h => Bool.false_ne_true h.1

theorem accepted_lambda (fields : Fields) (quantifier : Quantifier) (collection : Json) :
    Accepted (lambda read fields quantifier collection) ↔
      (must "var" .text).Holds fields ∧ (must "body" .node).Holds fields ∧
        Holds .text collection := by
  rw [lambda, Slot.holds_must "body"]
  cases h : fields.lookup "body" with
  | none =>
    refine (accepted_bind (P := False) fun bound _ => ?_).trans ?_
    · simp [not_accepted_error]
    · simp
  | some value =>
    refine (accepted_bind fun bound _ => accepted_bind fun body _ => accepted_map _ _).trans ?_
    rw [accepted_requiredText, hread, accepted_text]
    simp

theorem accepted_scalar (fields : Fields) :
    Accepted (scalar read fields) ↔ ∀ s ∈ scalarSlots fields, s.Holds fields := by
  -- `scalar` and `scalarSlots` try the same fields in the same order
  rw [scalar_decided]
  refine accepted_decided "property" (fun value h => (accepted_map _ _).trans ?_) fun _ => ?_
  · simp [accepted_text, Slot.holds_may_of_lookup h]
  refine accepted_decided "param" (fun value h => (accepted_map _ _).trans ?_) fun _ => ?_
  · simp [accepted_text, Slot.holds_may_of_lookup h]
  refine accepted_decided "op" (fun value h => ?_) fun _ => ?_
  · simp [accepted_binary hread, Slot.holds_may_of_lookup h]
  refine accepted_decided "not" (fun value h => (accepted_map _ _).trans ?_) fun _ => ?_
  · simp [hread, Slot.holds_may_of_lookup h]
  refine accepted_decided "negate" (fun value h => (accepted_map _ _).trans ?_) fun _ => ?_
  · simp [hread, Slot.holds_may_of_lookup h]
  refine accepted_decided "call" (fun value h => ?_) fun _ => ?_
  · refine (accepted_bind fun args _ => accepted_map _ _).trans ?_
    simp [accepted_listed_lookup hread, accepted_text, Slot.holds_may_of_lookup h]
  refine accepted_decided "list" (fun value h => (accepted_map _ _).trans ?_) fun _ => ?_
  · simp [accepted_listed hread, Slot.holds_may_of_lookup h]
  refine accepted_decided "any" (fun value h => ?_) fun _ => ?_
  · simp [accepted_lambda hread, Slot.holds_may_of_lookup h]
  refine accepted_decided "all" (fun value h => ?_) fun _ => ?_
  · simp [accepted_lambda hread, Slot.holds_may_of_lookup h]
  · exact (accepted_map _ _).trans accepted_tagged

theorem accepted_node (value : Json) : Accepted (node read value) ↔ Holds .node value := by
  cases value with
  | object fields =>
    have hdecoration := accepted_decoration hread fields
    have hsource := accepted_source hread fields
    rw [holds_object rfl, node_decided]
    refine accepted_decided "entitySet" (fun name h => ?_) fun _ => ?_
    · refine (accepted_bind fun name _ => accepted_map _ _).trans ?_
      rw [accepted_text, hdecoration, List.forall_mem_cons, Slot.holds_may_of_lookup h]
    refine accepted_decided "serviceRoot" (fun flag h => (accepted_map _ _).trans ?_) fun _ => ?_
    · have hflag : Holds .mark flag := holds_flag rfl flag
      rw [hdecoration, List.forall_mem_cons, Slot.holds_may_of_lookup h]
      simp [hflag]
    refine accepted_decided "navigation" (fun member h => ?_) fun _ => ?_
    · refine (accepted_bind fun source _ => accepted_bind fun name _ => accepted_map _ _).trans ?_
      rw [hsource, accepted_text, hdecoration, List.forall_mem_cons, List.forall_mem_cons,
        Slot.holds_may_of_lookup h]
    refine accepted_decided "singleton" (fun member h => ?_) fun _ => ?_
    · refine (accepted_bind fun source _ => accepted_bind fun name _ => accepted_map _ _).trans ?_
      rw [hsource, accepted_text, hdecoration, List.forall_mem_cons, List.forall_mem_cons,
        Slot.holds_may_of_lookup h]
    · exact accepted_scalar hread fields
  | array values => exact iff_of_false (not_accepted_error _) (not_holds rfl rfl)
  | _ => exact iff_of_true (accepted_ok _) (holds_of_suits rfl rfl)

end Nodes

open Classical in
/-- Accepts what holds, without reading it. -/
noncomputable def probe (value : Json) : Except Fault Expr :=
  if Holds .node value then .ok (.list []) else .error .strayArray

theorem accepted_probe (value : Json) : Accepted (probe value) ↔ Holds .node value := by
  by_cases h : Holds .node value
  · simp [probe, h, accepted_ok]
  · simp [probe, h, not_accepted_error]

/-- A document is accepted just if everything that is visited suits its role, flags apart. -/
theorem accepted_tree (value : Json) : Accepted (tree value) ↔ Holds .node value := by
  induction value using Json.objectInduction with
  | object fields ih =>
    -- nothing outside of the object is read, so `tree` may be exchanged for `probe` there
    have hcongr : node tree (.object fields) = node (fun value =>
        if value.depth ≤ Json.fieldDepth fields then tree value else probe value)
        (.object fields) :=
      node_congr (fun value hv => (if_pos hv).symm) (Nat.le_refl _)
    rw [tree_eq, hcongr]
    refine accepted_node (fun value => ?_) _
    by_cases hv : value.depth ≤ Json.fieldDepth fields
    · rw [if_pos hv]
      exact ih value hv
    · rw [if_neg hv]
      exact accepted_probe value
  | other value h =>
    have hcongr : node tree value = node probe value := by
      cases value with
      | object fields => exact absurd rfl (h fields)
      | _ => rfl
    rw [tree_eq, hcongr]
    exact accepted_node accepted_probe value

end RequestUri.Document
