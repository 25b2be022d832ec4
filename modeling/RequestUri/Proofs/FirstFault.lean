import RequestUri.Proofs.Visit

/-! When a request can be made for a tree, and what stops it if not. -/

namespace RequestUri

/-- The aggregations of the option are complete, and all that is written for it has a text. -/
def QueryOption.IsWritable (option : QueryOption Expr) : Prop :=
  (∀ a ∈ option.aggregations, a.IsComplete) ∧
    ∀ e ∈ option.operands, ∀ part ∈ e.parts, part.kind.isTextless = false

theorem QueryOption.isWritable_iff (option : QueryOption Expr) :
    option.course id Expr.writeFaults = [] ↔ option.IsWritable := by
  have hoperands : option.operands.flatMap Expr.writeFaults = [] ↔
      ∀ e ∈ option.operands, ∀ part ∈ e.parts, part.kind.isTextless = false := by
    rw [List.flatMap_eq_nil_iff]
    exact forall₂_congr fun e _ => e.writeFaults_eq_nil_iff
  constructor
  · intro h
    have hcomplete := option.isComplete_of_course id Expr.writeFaults h
    rw [option.course_of_isComplete id Expr.writeFaults hcomplete, hoperands] at h
    exact ⟨hcomplete, h⟩
  · rintro ⟨hcomplete, h⟩
    rw [option.course_of_isComplete id Expr.writeFaults hcomplete, hoperands]
    exact h

theorem Expr.faults_eq_nil_iff (tree : Expr) : tree.faults = [] ↔
    tree.IsBound ∧ ∀ node ∈ tree.trail.decorations, ∀ option ∈ node.options, option.IsWritable := by
  have hnode : ∀ node : Decoration Expr, node.faults = [] ↔
      ∀ option ∈ node.options, option.IsWritable := by
    intro node
    rw [Decoration.faults, List.flatMap_eq_nil_iff]
    exact forall₂_congr fun option _ => option.isWritable_iff
  have horigin : (if tree.origin.kind = .resource then []
      else [Fault.unsupportedKind tree.origin.kind]) = [] ↔ tree.IsBound := by
    rw [isBound_iff]
    split <;> simp_all
  rw [faults, List.append_eq_nil_iff, horigin, List.flatMap_eq_nil_iff]
  simp only [hnode]

/-- A request is made just if nothing stands against it; else its first fault is the answer. -/
theorem request_first_fault (base : String) (style : KeyStyle) (tree : Expr) :
    ((∃ r, (Service.ofBase base style).request tree = .ok r) ↔ tree.IsBound ∧
      ∀ node ∈ tree.trail.decorations, ∀ option ∈ node.options, option.IsWritable) ∧
    ∀ fault, (Service.ofBase base style).request tree = .error fault ↔
      tree.faults.head? = some fault := by
  have hw := Service.ofBase_writes base style
  constructor
  · rw [← tree.faults_eq_nil_iff]
    constructor
    · rintro ⟨r, hr⟩
      exact ((request_eq_ok_iff hw rfl tree r).1 hr).1
    · intro h
      exact ⟨_, request_of_faultless hw rfl tree h⟩
  · intro fault
    exact request_eq_error_iff hw rfl tree fault

end RequestUri
