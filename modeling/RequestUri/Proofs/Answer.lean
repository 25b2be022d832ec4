import RequestUri.Proofs.Address

/-! The answer to a request in closed form. Only its path depends on the base, and the base stands
before the rest of the path like any other text. -/

namespace RequestUri

namespace Expr

def requiredVersion (tree : Expr) : Version :=
  (tree.trail.decorations.flatMap Decoration.versions).foldl max .baseline

theorem version_edits (service : Service) (tree : Expr) :
    (Edit.actAll (tree.edits service) {}).journal.version = tree.requiredVersion := by
  rw [Edit.version_actAll, edits, List.filterMap_append, versions_down,
    Trail.filterMap_edits (fun _ => rfl) (Decoration.versions_edits _)]
  rfl

def answer (base : String) (style : KeyStyle) (tree : Expr) : Except Fault Request :=
  match tree.faults with
  | [] => .ok ⟨tree.trail.uri base style, tree.requiredVersion⟩
  | fault :: _ => .error fault

end Expr

section Answer
variable (base : String) (style : KeyStyle) (tree : Expr)

theorem request_eq_answer : (Service.ofBase base style).request tree = tree.answer base style := by
  have hw := Service.ofBase_writes base style
  rw [Expr.answer]
  cases hf : tree.faults with
  | nil =>
    rw [request_of_faultless hw rfl tree hf, Draft.request, Expr.uri_edits, Expr.version_edits]
  | cons fault rest =>
    exact request_of_fault hw rfl tree (by rw [hf, List.head?_cons])

theorem answer_eq_ok_iff {r : Request} : tree.answer base style = .ok r ↔
    tree.faults = [] ∧ r = ⟨tree.trail.uri base style, tree.requiredVersion⟩ := by
  rw [Expr.answer]
  cases tree.faults <;> simp [eq_comm]

theorem visited_of_faultless (h : tree.faults = []) : Draft.visited (.ofBase base style) tree {} =
    Edit.actAll (tree.edits (.ofBase base style)) {} := by
  have hw := Service.ofBase_writes base style
  have hc := carry_of_faultless () (tree.edits (.ofBase base style)) {}
    ((tree.faults_edits _).trans h)
  rw [Draft.visited, visit_run hw rfl tree {} rfl, ← Expr.edits, hc]
  rfl

theorem holds_visit (h : tree.faults = []) :
    ((Draft.visit (.ofBase base style) tree).run {}).2.Holds (tree.trail.path base style)
      tree.trail.moved := by
  rw [← Draft.visited, visited_of_faultless base style tree h]
  exact tree.holds_edits base style

end Answer

def Trail.queryPart (t : Trail) : String :=
  (if t.entries = [] then "" else "?" ++ t.query) ++
    (if t.moved = [] then "" else (if t.entries = [] then "?" else "&") ++ t.aliases)

theorem Trail.uri_eq (base : String) (style : KeyStyle) (t : Trail) :
    t.uri base style = t.path base style ++ t.queryPart := by
  rw [uri, queryPart, String.append_assoc]

theorem slashed_append (p : String) {text : String} (h : text ≠ "") :
    slashed (p ++ text) = p ++ slashed text := by
  have hl : (p ++ text).toList.getLast? = text.toList.getLast? := by
    have hne : text.toList ≠ [] := fun he => h (String.toList_eq_nil_iff.1 he)
    rw [String.toList_append, List.getLast?_append, List.getLast?_eq_some_getLast hne]
    rfl
  rw [slashed, slashed, hl]
  split
  · rfl
  · exact String.append_assoc

theorem slashed_slash (text : String) : slashed (text ++ "/") = text ++ "/" := by
  simp [slashed]

/- Both styles name the properties of a key that has several. -/
theorem KeyStyle.text_composite (style : KeyStyle) {pairs : List (String × String)}
    (h : 2 ≤ pairs.length) : style.text pairs =
      "(" ++ String.intercalate "," (pairs.map fun (name, value) => name ++ "=" ++ value) ++ ")" := by
  match pairs, h with
  | pair :: next :: rest, _ => cases style <;> rfl

theorem KeyStyle.text_eq_empty_iff (style : KeyStyle) (pairs : List (String × String)) :
    style.text pairs = "" ↔ pairs = [] := by
  match pairs with
  | [] => cases style <;> simp [text]
  | [pair] => cases style <;> simp [text]
  | pair :: next :: rest =>
    rw [text_composite style (by simp)]
    simp

theorem Decoration.keyed_eq_empty_iff (style : KeyStyle) (node : Decoration Expr) :
    node.keyed style = "" ↔ node.key = [] := by
  rw [keyed, KeyStyle.text_eq_empty_iff, List.map_eq_nil_iff]

theorem Decoration.casted_eq_empty_iff (node : Decoration Expr) :
    node.casted = "" ↔ node.cast = none := by
  rw [casted]
  cases node.cast <;> simp

theorem ne_empty_append {text : String} (h : text ≠ "") (more : String) : text ++ more ≠ "" := by
  intro he
  exact h (String.append_eq_empty_iff.1 he).1

namespace Decoration
variable (style : KeyStyle) (before : List String) (node : Decoration Expr)

/-- What stands before an operation hides how the path began. -/
theorem path_append (p : String) {text : String}
    (h : node.operation = none ∨ text ++ node.keyed style ++ node.casted ≠ "") :
    node.path style before (p ++ text) = p ++ node.path style before text := by
  have hsplit : p ++ text ++ node.keyed style ++ node.casted =
      p ++ (text ++ node.keyed style ++ node.casted) := by
    simp only [String.append_assoc]
  rw [path, path, hsplit, invoked, invoked]
  cases ho : node.operation with
  | none => simp only [String.append_assoc]
  | some operation =>
    have hs := slashed_append p (h.resolve_left (by simp [ho]))
    dsimp only
    rw [hs]
    simp only [String.append_assoc]

end Decoration

theorem Trail.pathFrom_append (style : KeyStyle) (before : List String) (p text : String)
    {nodes : List (String × Decoration Expr)} (h : ∀ entry ∈ nodes, entry.1 ≠ "") :
    pathFrom style before (p ++ text) nodes = p ++ pathFrom style before text nodes := by
  induction nodes generalizing before text with
  | nil => rfl
  | cons entry nodes ih =>
    obtain ⟨name, node⟩ := entry
    have hname : text ++ name ≠ "" := by
      intro he
      exact h (name, node) List.mem_cons_self (String.append_eq_empty_iff.1 he).2
    have hne := ne_empty_append (ne_empty_append hname (node.keyed style)) node.casted
    rw [pathFrom, pathFrom, String.append_assoc, node.path_append style before p (.inr hne)]
    exact ih _ _ fun entry he => h entry (List.mem_cons_of_mem _ he)

end RequestUri
