import RequestUri.Proofs.Answer
import RequestUri.Proofs.FirstFault

/-! The version of a request is the least that its tree allows: the highest of those that are needed
somewhere. -/

namespace RequestUri

namespace Version

theorem max_eq_or (a b : Version) : max a b = a ∨ max a b = b := by
  by_cases h : a ≤ b
  · exact .inr (if_pos h)
  · exact .inl (if_neg h)

theorem foldl_max_mem (vs : List Version) (v : Version) : vs.foldl max v ∈ v :: vs := by
  induction vs generalizing v with
  | nil => exact List.mem_singleton.2 rfl
  | cons w vs ih =>
    rw [List.foldl_cons]
    rcases List.mem_cons.1 (ih (max v w)) with h | h
    · rw [h]
      rcases max_eq_or v w with hm | hm
      · rw [hm]
        exact List.mem_cons_self
      · rw [hm]
        exact List.mem_cons_of_mem v List.mem_cons_self
    · exact List.mem_cons_of_mem v (List.mem_cons_of_mem w h)

theorem le_foldl_max (vs : List Version) (v : Version) : ∀ u ∈ v :: vs, u ≤ vs.foldl max v := by
  induction vs generalizing v with
  | nil =>
    intro u hu
    rw [List.mem_singleton.1 hu]
    exact Version.le_refl v
  | cons w vs ih =>
    have hm := ih (max v w) (max v w) List.mem_cons_self
    intro u hu
    rw [List.foldl_cons]
    rcases List.mem_cons.1 hu with rfl | hu
    · exact Version.le_trans (le_max u w).1 hm
    · rcases List.mem_cons.1 hu with rfl | hu
      · exact Version.le_trans (le_max v u).2 hm
      · exact ih (max v w) u (List.mem_cons_of_mem _ hu)

end Version

namespace Expr

/-- A version that some part of a request needs. -/
inductive Needs (tree : Expr) : Version → Prop
  | baseline : Needs tree .baseline
  | node {node : Decoration Expr} (h : node ∈ tree.trail.decorations) : Needs tree node.version
  | cast {node : Decoration Expr} {cast : Cast} (h : node ∈ tree.trail.decorations)
    (hc : node.cast = some cast) : Needs tree cast.version
  | membership {node : Decoration Expr} {option : QueryOption Expr} {e left right : Expr}
    (h : node ∈ tree.trail.decorations) (ho : option ∈ node.options) (he : e ∈ option.operands)
    (hp : binary .isIn left right ∈ e.parts) : Needs tree .v401

theorem mem_versions_marks (e : Expr) (v : Version) : v ∈ e.marks.filterMap Mark.version? ↔
    v = .v401 ∧ ∃ left right, binary .isIn left right ∈ e.parts := by
  have hpart : ∀ part : Expr, part.mark?.bind Mark.version? = some v ↔
      v = .v401 ∧ ∃ left right, part = binary .isIn left right := by
    intro part
    cases part with
    | binary op left right =>
      cases op <;> simp [mark?, kind, Kind.isTextless, Mark.version?, eq_comm]
    | _ => simp [mark?, kind, Kind.isTextless, Mark.version?]
  rw [marks, List.filterMap_filterMap, List.mem_filterMap]
  simp only [hpart]
  constructor
  · rintro ⟨part, hp, rfl, left, right, rfl⟩
    exact ⟨rfl, left, right, hp⟩
  · rintro ⟨rfl, left, right, hp⟩
    exact ⟨_, hp, rfl, left, right, rfl⟩

end Expr

theorem Decoration.mem_versions {node : Decoration Expr}
    (h : ∀ option ∈ node.options, option.IsWritable) (v : Version) :
    v ∈ node.versions ↔ v = node.version ∨ (∃ cast, node.cast = some cast ∧ v = cast.version) ∨
      ∃ option ∈ node.options, ∃ e ∈ option.operands,
        v = .v401 ∧ ∃ left right, Expr.binary .isIn left right ∈ e.parts := by
  have hoption : ∀ option ∈ node.options,
      v ∈ (option.course .stop Expr.marks).filterMap Mark.version? ↔ ∃ e ∈ option.operands,
        v = .v401 ∧ ∃ left right, Expr.binary .isIn left right ∈ e.parts := by
    intro option ho
    rw [option.course_of_isComplete _ _ (h option ho).1, List.filterMap_flatMap, List.mem_flatMap]
    simp only [Expr.mem_versions_marks]
  rw [versions, List.mem_cons, List.mem_append, List.mem_flatMap]
  refine or_congr_right (or_congr ?_ ?_)
  · cases node.cast with
    | none => simp
    | some cast => simp
  · exact exists_congr fun option => and_congr_right (hoption option)

theorem Expr.mem_versions {tree : Expr}
    (h : ∀ node ∈ tree.trail.decorations, ∀ option ∈ node.options, option.IsWritable) (v : Version) :
    v ∈ Version.baseline :: tree.trail.decorations.flatMap Decoration.versions ↔
      tree.Needs v := by
  rw [List.mem_cons, List.mem_flatMap]
  constructor
  · rintro (rfl | ⟨node, hn, hv⟩)
    · exact .baseline
    · rcases (Decoration.mem_versions (h node hn) v).1 hv with
        rfl | ⟨cast, hc, rfl⟩ | ⟨option, ho, e, he, rfl, left, right, hp⟩
      · exact .node hn
      · exact .cast hn hc
      · exact .membership hn ho he hp
  · intro hv
    cases hv with
    | baseline => exact .inl rfl
    | @node node hn =>
      exact .inr ⟨node, hn, (Decoration.mem_versions (h node hn) _).2 (.inl rfl)⟩
    | @cast node cast hn hc =>
      exact .inr ⟨node, hn, (Decoration.mem_versions (h node hn) _).2 (.inr (.inl ⟨cast, hc, rfl⟩))⟩
    | @membership node option e left right hn ho he hp =>
      exact .inr ⟨node, hn, (Decoration.mem_versions (h node hn) _).2
        (.inr (.inr ⟨option, ho, e, he, rfl, left, right, hp⟩))⟩

/-- A request has the highest version that is needed, and it is needed. -/
theorem version_of_request (base : String) (style : KeyStyle) (tree : Expr) (r : Request)
    (h : (Service.ofBase base style).request tree = .ok r) :
    tree.Needs r.version ∧ ∀ v, tree.Needs v → v ≤ r.version := by
  rw [request_eq_answer] at h
  obtain ⟨hf, rfl⟩ := (answer_eq_ok_iff base style tree).1 h
  have hneeds := Expr.mem_versions (tree.faults_eq_nil_iff.1 hf).2
  constructor
  · exact (hneeds _).1 (Version.foldl_max_mem _ _)
  · intro v hn
    exact Version.le_foldl_max _ _ v ((hneeds v).2 hn)

/-- A row count that comes with an operand, which is never written. -/
def countedRows : Expr :=
  .root (.entitySet "Orders")
    { options := [.apply { aggregations :=
        [{ method := .count, operand := some (.binary .isIn (.property "Id") (.list [])) }] }] }

theorem version_of_countedRows :
    (Service.ofBase "//h").request countedRows =
        .ok ⟨"//h/Orders?$apply=aggregate($count as VirtualPropertyCount)", .baseline⟩ ∧
      countedRows.Needs .baseline ∧ ∀ v, countedRows.Needs v → v ≤ .baseline := by
  have h : (Service.ofBase "//h").request countedRows =
      .ok ⟨"//h/Orders?$apply=aggregate($count as VirtualPropertyCount)", .baseline⟩ := rfl
  exact ⟨h, version_of_request "//h" .parentheses countedRows _ h⟩

end RequestUri
