import RequestUri.Path.Draft
import RequestUri.Proofs.Buckets
import RequestUri.Proofs.Clause
import RequestUri.Proofs.Operand

/-! The edits that a resource node makes to a draft, one after another. -/

namespace RequestUri

inductive Edit where
  | push (text : String)
  | invoke (operation : Operation)
  | add (key value : String)
  | mark (mark : Mark)

namespace Edit

def fault? : Edit → Option Fault
  | mark m => m.fault?
  | _ => none

def act : Edit → Draft → Draft
  | push text, d => d.push text
  | invoke operation, d => d.invoke operation
  | add key value, d => d.addOption key value
  | mark m, d => { d with journal := m.act d.journal }

instance : Act Edit Draft := ⟨fault?, act⟩

def actAll (edits : List Edit) (d : Draft) : Draft := edits.foldl (fun d edit => edit.act d) d

def version? : Edit → Option Version
  | mark m => m.version?
  | _ => none

def entry? : Edit → Option (String × String)
  | add key value => some (key, value)
  | _ => none

/- A course of the journal is the same course of the draft that holds it. -/
theorem carry_mark {α : Type} (a : α) (marks : List Mark) (d : Draft) :
    carry a (marks.map mark) d =
      ((carry a marks d.journal).1, { d with journal := (carry a marks d.journal).2 }) := by
  induction marks generalizing d with
  | nil => rfl
  | cons m marks ih =>
    rw [List.map_cons]
    cases h : m.fault? with
    | none =>
      rw [carry_cons_none a _ d (show Act.fault? (mark m) = none from h), ih,
        carry_cons_none a _ d.journal (show Act.fault? m = none from h)]
      rfl
    | some fault =>
      rw [carry_cons_some a _ d (show Act.fault? (mark m) = some fault from h),
        carry_cons_some a _ d.journal (show Act.fault? m = some fault from h)]

end Edit

/- Arguments that are moved out of the path only add aliases. -/
theorem Draft.arguments_frame (d : Draft) (parameters : List (String × Argument)) :
    (d.arguments parameters).2.options = d.options ∧
      (d.arguments parameters).2.journal.version = d.journal.version := by
  induction parameters generalizing d with
  | nil => exact ⟨rfl, rfl⟩
  | cons parameter rest ih =>
    obtain ⟨name, value⟩ := parameter
    cases value with
    | primitive text => exact ih d
    | structured text => exact ih (d.argument name (.structured text)).2

theorem Draft.invoke_frame (d : Draft) (operation : Operation) :
    (d.invoke operation).options = d.options ∧
      (d.invoke operation).journal.version = d.journal.version := by
  have he : d.endSegment.options = d.options ∧ d.endSegment.journal = d.journal := by
    rw [endSegment]
    split <;> exact ⟨rfl, rfl⟩
  have ha := (d.endSegment.push operation.name).arguments_frame operation.parameters
  rw [invoke]
  cases operation.isAction with
  | true => exact ⟨he.1, congrArg Journal.version he.2⟩
  | false => exact ⟨ha.1.trans he.1, ha.2.trans (congrArg Journal.version he.2)⟩

namespace Edit

theorem version_actAll (edits : List Edit) (d : Draft) :
    (actAll edits d).journal.version =
      (edits.filterMap version?).foldl max d.journal.version := by
  induction edits generalizing d with
  | nil => rfl
  | cons edit edits ih =>
    rw [actAll, List.foldl_cons, ← actAll, ih, List.filterMap_cons]
    cases edit with
    | push text => rfl
    | invoke operation => rw [act, (d.invoke_frame operation).2]; rfl
    | add key value => rfl
    | mark m => cases m <;> simp [act, version?, Mark.act, Mark.version?, Journal.version_raise,
        Journal.version_note]

theorem options_actAll (edits : List Edit) (d : Draft) :
    (actAll edits d).options = d.options.addAll (edits.filterMap entry?) := by
  induction edits generalizing d with
  | nil => rfl
  | cons edit edits ih =>
    rw [actAll, List.foldl_cons, ← actAll, ih, List.filterMap_cons]
    cases edit with
    | push text => rfl
    | invoke operation => rw [act, (d.invoke_frame operation).1]; rfl
    | add key value => rfl
    | mark m => rfl

end Edit

theorem journaled_takes {α : Type} {x : Run Journal α} {marks : List Mark} {a : α}
    (h : Takes x marks a) : Takes (Draft.journaled x) (marks.map Edit.mark) a := by
  intro d
  rw [Edit.carry_mark, ← h d.journal]
  rfl

/-- Operands are written as they stand, without a formatter of the service's own. -/
def Service.Writes (service : Service) : Prop :=
  ∀ e place, service.format e place = e.write place

def keyText (service : Service) (key : List (String × Literal)) : String :=
  if key.isEmpty then ""
  else service.key (key.map fun (name, value) => (name, value.textAt .path))

def QueryOption.edits (option : QueryOption Expr) : List Edit :=
  (option.course .stop Expr.marks).map Edit.mark ++
    (option.shown (Expr.text .query)).toList.map fun (key, value) => .add key value

def Cast.edits (cast : Cast) : List Edit :=
  [.push ("/" ++ cast.typeName), .mark (.need cast.version)]

namespace Decoration

def pathEdits (service : Service) (node : Decoration Expr) : List Edit :=
  [.mark (.need node.version), .push (keyText service node.key)] ++
    (node.cast.toList.flatMap Cast.edits ++
      (node.operation.toList.map Edit.invoke ++
        if node.count = .segment then [.push "/$count"] else []))

def optionEdits (node : Decoration Expr) : List Edit :=
  node.options.flatMap QueryOption.edits ++
    node.plainOptions.map fun (key, value) => .add key value

def edits (service : Service) (node : Decoration Expr) : List Edit :=
  node.pathEdits service ++ node.optionEdits

end Decoration

namespace QueryOption

theorem faults_course (option : QueryOption Expr) :
    (option.course .stop Expr.marks).filterMap Mark.fault? = option.course id Expr.writeFaults := by
  have hstop : ∀ fault, Mark.fault? (.stop fault) = some (id fault) := fun _ => rfl
  rw [QueryOption.filterMap_course hstop]
  simp only [Expr.faults_marks]

theorem faults_edits (option : QueryOption Expr) :
    option.edits.filterMap Edit.fault? = option.course id Expr.writeFaults := by
  rw [← option.faults_course]
  cases h : option.shown (Expr.text .query) <;>
    simp [edits, h, List.filterMap_map, Function.comp_def, Edit.fault?]

theorem versions_edits (option : QueryOption Expr) :
    option.edits.filterMap Edit.version? = (option.course .stop Expr.marks).filterMap Mark.version? := by
  cases h : option.shown (Expr.text .query) <;>
    simp [edits, h, List.filterMap_map, Function.comp_def, Edit.version?]

theorem entries_edits (option : QueryOption Expr) :
    option.edits.filterMap Edit.entry? = (option.shown (Expr.text .query)).toList := by
  cases h : option.shown (Expr.text .query) <;>
    simp [edits, h, List.filterMap_map, Function.comp_def, Edit.entry?]

end QueryOption

def listed (key : String) : List String → List (String × String)
  | [] => []
  | values => [(key, String.intercalate "," values)]

def Count.entries : Count → List (String × String)
  | .option true => [("$count", "true")]
  | .option false => [("$count", "false")]
  | _ => []

namespace Decoration

def faults (node : Decoration Expr) : List Fault :=
  node.options.flatMap (QueryOption.course id Expr.writeFaults)

def versions (node : Decoration Expr) : List Version :=
  node.version :: (node.cast.toList.map Cast.version ++
    node.options.flatMap fun option => (option.course .stop Expr.marks).filterMap Mark.version?)

/-- All that a node adds to the query, operands first. -/
def entries (node : Decoration Expr) : List (String × String) :=
  node.options.filterMap (QueryOption.shown (Expr.text .query)) ++
    (listed "$expand" node.expand ++ listed "$select" node.select ++ node.count.entries ++
      node.custom)

theorem plainOptions_eq (node : Decoration Expr) : node.plainOptions =
    listed "$expand" node.expand ++ listed "$select" node.select ++ node.count.entries ++
      node.custom := by
  have hl : ∀ key values, listed key values =
      if values.isEmpty then [] else [(key, String.intercalate "," values)] := by
    intro key values
    cases values <;> rfl
  rw [plainOptions, hl, hl]
  cases node.count with
  | option value => cases value <;> rfl
  | _ => rfl

/- On the path, edits need versions and nothing else that is gathered. -/
theorem filterMap_pathEdits {β : Type} {f : Edit → Option β} (hp : ∀ text, f (.push text) = none)
    (hi : ∀ operation, f (.invoke operation) = none) (service : Service)
    (node : Decoration Expr) : (node.pathEdits service).filterMap f =
      (node.version :: node.cast.toList.map Cast.version).filterMap fun version =>
        f (.mark (.need version)) := by
  have hcast : (node.cast.toList.flatMap Cast.edits).filterMap f =
      (node.cast.toList.map Cast.version).filterMap fun version => f (.mark (.need version)) := by
    cases node.cast with
    | none => rfl
    | some cast => simp [Cast.edits, hp, List.filterMap_cons]
  have hoperation : (node.operation.toList.map Edit.invoke).filterMap f = [] := by
    cases node.operation with
    | none => rfl
    | some operation => simp [hi]
  have hcount : (if node.count = .segment then [Edit.push "/$count"] else []).filterMap f = [] := by
    split <;> simp [hp]
  rw [pathEdits, List.filterMap_append, List.filterMap_append, List.filterMap_append, hcast,
    hoperation, hcount]
  cases h : f (.mark (.need node.version)) <;> simp [hp, h]

theorem faults_edits (service : Service) (node : Decoration Expr) :
    (node.edits service).filterMap Edit.fault? = node.faults := by
  rw [edits, List.filterMap_append, filterMap_pathEdits (fun _ => rfl) (fun _ => rfl), optionEdits,
    List.filterMap_append, List.filterMap_flatMap]
  simp [faults, Mark.fault?, QueryOption.faults_edits, List.filterMap_map, Function.comp_def, Edit.fault?]

theorem versions_edits (service : Service) (node : Decoration Expr) :
    (node.edits service).filterMap Edit.version? = node.versions := by
  rw [edits, List.filterMap_append, filterMap_pathEdits (fun _ => rfl) (fun _ => rfl), optionEdits,
    List.filterMap_append, List.filterMap_flatMap]
  simp [versions, Mark.version?, QueryOption.versions_edits, List.filterMap_map, Function.comp_def, Edit.version?]

theorem entries_edits (service : Service) (node : Decoration Expr) :
    (node.edits service).filterMap Edit.entry? = node.entries := by
  have hoptions : (node.options.flatMap QueryOption.edits).filterMap Edit.entry? =
      node.options.filterMap (QueryOption.shown (Expr.text .query)) := by
    simp only [List.filterMap_flatMap, QueryOption.entries_edits]
    rw [List.filterMap_eq_flatMap_toList]
  rw [edits, List.filterMap_append, filterMap_pathEdits (fun _ => rfl) (fun _ => rfl), optionEdits,
    List.filterMap_append, hoptions, plainOptions_eq]
  simp [entries, List.filterMap_map, Function.comp_def, Edit.entry?]

end Decoration

/- The optional steps of a decoration as computations of their own. -/
def Draft.castIf : Option Cast → Run Draft Unit
  | some cast => modify (·.castTo cast)
  | none => pure ()

def Draft.invokeIf : Option Operation → Run Draft Unit
  | some operation => modify (·.invoke operation)
  | none => pure ()

def Draft.countIf (count : Count) : Run Draft Unit :=
  if count = .segment then modify (·.push "/$count") else pure ()

theorem Draft.decorate_eq (service : Service) (node : Decoration Expr) :
    decorate service node = (do
      modify (·.raise node.version)
      keyed service node.key
      castIf node.cast
      invokeIf node.operation
      countIf node.count
      node.options.forM (optional service)
      modify (·.addOptions node.plainOptions)) := by
  rw [decorate, countIf]
  cases node.cast <;> cases node.operation <;> by_cases h : node.count = .segment <;>
    simp [castIf, invokeIf, h]

theorem castIf_takes (cast : Option Cast) :
    Takes (Draft.castIf cast) (cast.toList.flatMap Cast.edits) () := by
  cases cast with
  | none => exact Takes.pure ()
  | some cast => exact Takes.modify rfl fun _ => rfl

theorem invokeIf_takes (operation : Option Operation) :
    Takes (Draft.invokeIf operation) (operation.toList.map Edit.invoke) () := by
  cases operation with
  | none => exact Takes.pure ()
  | some operation => exact Takes.modify rfl fun _ => rfl

theorem countIf_takes (count : Count) :
    Takes (Draft.countIf count) (if count = .segment then [Edit.push "/$count"] else []) () := by
  rw [Draft.countIf]
  by_cases h : count = .segment
  · rw [if_pos h, if_pos h]
    exact Takes.modify rfl fun _ => rfl
  · rw [if_neg h, if_neg h]
    exact Takes.pure ()

theorem added_takes (options : List (String × String)) :
    Takes (modify (·.addOptions options) : Run Draft Unit)
      (options.map fun (key, value) => Edit.add key value) () := by
  apply Takes.modify
  · simp [List.filterMap_map, Function.comp_def, Act.fault?, Edit.fault?]
  · intro d
    rw [List.foldl_map]
    rfl

section Takes
variable {service : Service} (hw : service.Writes)
include hw

theorem keyed_takes (key : List (String × Literal)) :
    Takes (Draft.keyed service key) [Edit.push (keyText service key)] () := by
  rw [Draft.keyed, keyText]
  by_cases h : key.isEmpty
  · rw [if_pos h, if_pos h]
    intro d
    change (Except.ok (), d) = (Except.ok (), d.push "")
    rw [Draft.push, String.append_empty]
  · rw [if_neg h, if_neg h]
    have hvalue : ∀ entry ∈ key, Takes (do
        let text ← Draft.journaled (service.format (.literal entry.2) .path)
        return (entry.1, text)) ([] : List Edit) (entry.1, entry.2.textAt .path) := by
      intro entry _
      rw [hw]
      exact (journaled_takes (Expr.write_takes .path (.literal entry.2))).bind_pure _
    have hpairs := Takes.mapM key hvalue
    rw [List.flatMap_eq_nil_iff.2 fun _ _ => rfl] at hpairs
    refine Takes.bind hpairs ?_
    exact Takes.modify rfl fun _ => rfl

theorem optional_takes (option : QueryOption Expr) :
    Takes (Draft.optional service option) option.edits () := by
  have hformat : ∀ e, Takes (service.format e .query) (Expr.marks e) (Expr.text .query e) := by
    intro e
    rw [hw]
    exact e.write_takes .query
  rw [Draft.optional, QueryOption.edits]
  refine Takes.bind (journaled_takes (option.entry_takes hformat)) ?_
  cases option.shown (Expr.text .query) with
  | none => exact Takes.pure ()
  | some entry => exact Takes.modify rfl fun _ => rfl

theorem decorate_takes (node : Decoration Expr) :
    Takes (Draft.decorate service node) (node.edits service) () := by
  rw [Draft.decorate_eq, Decoration.edits, Decoration.pathEdits, Decoration.optionEdits]
  simp only [List.append_assoc]
  refine Takes.bind (u := [_]) (Takes.modify rfl fun _ => rfl) ?_
  refine Takes.bind (keyed_takes hw node.key) ?_
  refine Takes.bind (castIf_takes node.cast) ?_
  refine Takes.bind (invokeIf_takes node.operation) ?_
  refine Takes.bind (countIf_takes node.count) ?_
  refine Takes.bind (Takes.forM node.options fun option _ => optional_takes hw option) ?_
  exact added_takes node.plainOptions

end Takes

end RequestUri
