import RequestUri.Proofs.Answer

/-! Arguments that are moved out of the path. A label stands in the place of each, as if it were a
primitive argument, and no label stands for two of them. -/

namespace RequestUri

open AliasTable (label labels fresh entriesFor)

def labelArguments : List String → List (String × Argument) → List (String × Argument)
  | _, [] => []
  | labels, (name, .primitive text) :: rest => (name, .primitive text) :: labelArguments labels rest
  | [], (name, .structured text) :: rest => (name, .structured text) :: labelArguments [] rest
  | label :: labels, (name, .structured _) :: rest =>
    (name, .primitive label) :: labelArguments labels rest

/-- An action has no arguments in the URI, and so no use for labels. -/
def Operation.labelled (labels : List String) (operation : Operation) : Operation :=
  if operation.isAction then operation
  else { operation with parameters := labelArguments labels operation.parameters }

def Decoration.labelled (labels : List String) (node : Decoration Expr) : Decoration Expr :=
  { node with operation := node.operation.map (Operation.labelled labels) }

/-- Each node takes as many labels as it has arguments to move, and leaves the rest. -/
def labelNodes {α : Type} : List String → List (α × Decoration Expr) → List (α × Decoration Expr)
  | _, [] => []
  | labels, (a, node) :: rest =>
    (a, node.labelled labels) :: labelNodes (labels.drop node.moved.length) rest

def Trail.labelled (labels : List String) (t : Trail) : Trail :=
  { t with
    decoration := t.decoration.labelled labels
    links := labelNodes (labels.drop t.decoration.moved.length) t.links }

def Expr.labelled (labels : List String) : Expr → Expr
  | .root start node => .root start (node.labelled labels)
  | .follow source link node =>
    .follow (source.labelled labels) link (node.labelled (labels.drop source.trail.moved.length))
  | e => e

section Texts

theorem argumentTexts_labelArguments (before after more : List String)
    (parameters : List (String × Argument)) : argumentTexts after
      (labelArguments (fresh (labels before)
        ((parameters.filterMap movedArgument).map Prod.fst) ++ more) parameters) =
      argumentTexts before parameters := by
  induction parameters generalizing before with
  | nil => rfl
  | cons parameter rest ih =>
    obtain ⟨name, value⟩ := parameter
    cases value with
    | primitive text =>
      have hr := ih before
      simp only [List.filterMap_cons, movedArgument, labelArguments, argumentTexts, hr]
    | structured text =>
      -- the label that is put in is the first free one, which the next arguments find taken
      have hr := ih (before ++ [name])
      rw [AliasTable.labels_append_singleton] at hr
      simp only [List.filterMap_cons, movedArgument, List.map_cons, fresh, List.cons_append,
        labelArguments, argumentTexts, hr]

theorem moved_labelArguments {labels : List String} {parameters : List (String × Argument)}
    (h : (parameters.filterMap movedArgument).length ≤ labels.length) :
    (labelArguments labels parameters).filterMap movedArgument = [] := by
  induction parameters generalizing labels with
  | nil => rfl
  | cons parameter rest ih =>
    obtain ⟨name, value⟩ := parameter
    cases value with
    | primitive text =>
      rw [labelArguments]
      exact ih h
    | structured text =>
      cases labels with
      | nil => simp [movedArgument] at h
      | cons label labels =>
        have hr : (rest.filterMap movedArgument).length ≤ labels.length := by
          simpa [movedArgument] using h
        exact ih hr

end Texts

namespace Decoration

theorem moved_labelled {labels : List String} {node : Decoration Expr}
    (h : node.moved.length ≤ labels.length) : (node.labelled labels).moved = [] := by
  rw [moved] at h
  rw [moved, labelled]
  cases ho : node.operation with
  | none => rfl
  | some operation =>
    rw [ho] at h
    cases ha : operation.isAction with
    | true => simp [Operation.labelled, Operation.moved, ha]
    | false =>
      have hm : (operation.parameters.filterMap movedArgument).length ≤ labels.length := by
        simpa [Operation.moved, ha] using h
      simpa [Operation.labelled, Operation.moved, ha] using moved_labelArguments hm

theorem path_labelled (style : KeyStyle) (before after more : List String) (text : String)
    (node : Decoration Expr) :
    (node.labelled (fresh (labels before) (node.moved.map Prod.fst) ++ more)).path style after text =
      node.path style before text := by
  have hinvoked : ∀ text, (node.labelled (fresh (labels before) (node.moved.map Prod.fst) ++
      more)).invoked after text = node.invoked before text := by
    intro text
    rw [invoked, invoked, labelled, moved]
    cases ho : node.operation with
    | none => rfl
    | some operation =>
      cases ha : operation.isAction with
      | true => simp [Operation.labelled, Operation.text, ha]
      | false =>
        have ht := argumentTexts_labelArguments before after more operation.parameters
        simp [Operation.labelled, Operation.text, Operation.moved, ha, ht]
  exact congrArg (· ++ node.counted) (hinvoked _)

end Decoration

section Nodes
variable {α β : Type}

theorem labelNodes_map (f : α → β) (labels : List String) (xs : List (α × Decoration Expr)) :
    labelNodes labels (xs.map fun (a, node) => (f a, node)) =
      (labelNodes labels xs).map fun (a, node) => (f a, node) := by
  induction xs generalizing labels with
  | nil => rfl
  | cons entry xs ih => simp [labelNodes, ih]

theorem moved_labelNodes {labels : List String} {xs : List (α × Decoration Expr)}
    (h : (xs.flatMap fun entry => entry.2.moved).length ≤ labels.length) :
    (labelNodes labels xs).flatMap (fun entry => entry.2.moved) = [] := by
  induction xs generalizing labels with
  | nil => rfl
  | cons entry xs ih =>
    rw [List.flatMap_cons, List.length_append] at h
    have hnode : entry.2.moved.length ≤ labels.length := by omega
    have hrest : (xs.flatMap fun entry => entry.2.moved).length ≤
        (labels.drop entry.2.moved.length).length := by
      rw [List.length_drop]
      omega
    rw [labelNodes, List.flatMap_cons, Decoration.moved_labelled hnode, ih hrest]
    rfl

/-- Along the trail the labels are those that the names take one after another. -/
theorem pathFrom_labelNodes (style : KeyStyle) (before after more : List String) (text : String)
    (nodes : List (String × Decoration Expr)) : Trail.pathFrom style after text
      (labelNodes (fresh (labels before)
        ((nodes.flatMap fun entry => entry.2.moved).map Prod.fst) ++ more) nodes) =
      Trail.pathFrom style before text nodes := by
  induction nodes generalizing before after text with
  | nil => rfl
  | cons entry nodes ih =>
    obtain ⟨name, node⟩ := entry
    have hlabels : labels before ++ fresh (labels before) (node.moved.map Prod.fst) =
        labels (before ++ node.moved.map Prod.fst) :=
      (AliasTable.labels_append before (node.moved.map Prod.fst)).symm
    have hdrop : ∀ rest : List String, (fresh (labels before) (node.moved.map Prod.fst) ++ rest).drop
        node.moved.length = rest := by
      intro rest
      exact List.drop_left' (by rw [AliasTable.length_fresh, List.length_map])
    rw [List.flatMap_cons, List.map_append, AliasTable.fresh_append, hlabels, List.append_assoc,
      labelNodes, hdrop, Trail.pathFrom, Trail.pathFrom, Decoration.path_labelled, ih]

end Nodes

namespace Trail

theorem flatMap_decorations {β : Type} (g : Decoration Expr → List β) (t : Trail) :
    t.decorations.flatMap g = g t.decoration ++ t.links.flatMap fun entry => g entry.2 := by
  simp [decorations, List.flatMap_map]

theorem moved_labelled {labels : List String} {t : Trail} (h : t.moved.length ≤ labels.length) :
    (t.labelled labels).moved = [] := by
  rw [moved, flatMap_decorations, List.length_append] at h
  have hroot : (t.decoration.labelled labels).moved = [] := Decoration.moved_labelled (by omega)
  have hlinks : (t.links.flatMap fun entry => entry.2.moved).length ≤
      (labels.drop t.decoration.moved.length).length := by
    rw [List.length_drop]
    omega
  rw [moved, flatMap_decorations, labelled, hroot, moved_labelNodes hlinks]
  rfl

theorem path_labelled (base : String) (style : KeyStyle) (t : Trail) :
    (t.labelled (labels (t.moved.map Prod.fst))).path base style = t.path base style := by
  have hlabels : labels (t.moved.map Prod.fst) = fresh (labels []) (t.moved.map Prod.fst) ++ [] := by
    rw [List.append_nil]
    exact AliasTable.labels_append [] (t.moved.map Prod.fst)
  have hlinks := labelNodes_map (fun link : Link => "/" ++ link.member)
    ((labels (t.moved.map Prod.fst)).drop t.decoration.moved.length) t.links
  have hpath := pathFrom_labelNodes style [] [] [] "" (t.nodes (t.start.text base))
  rw [flatMap_nodes, ← moved, ← hlabels, nodes, labelNodes, hlinks] at hpath
  exact hpath

end Trail

namespace Expr

end Expr

end RequestUri
