import RequestUri.Proofs.Answer

/-! A slash at the end of the base. An entity set and an operation begin with a slash only where
there is none yet; all else begins with one in any case, or with none. -/

namespace RequestUri

namespace Trail

/-- The slash between the base and what follows it is written only if it is missing. -/
def takesSlash (t : Trail) : Bool :=
  match t.start with
  | .entitySet _ => true
  | .serviceRoot =>
    t.decoration.operation.isSome && t.decoration.key.isEmpty && t.decoration.cast.isNone

theorem path_of_takesSlash {t : Trail} (h : t.takesSlash) {base : String}
    (hb : base.toList.getLast? ≠ some '/') (style : KeyStyle) :
    t.path (base ++ "/") style = t.path base style := by
  have hs : slashed (base ++ "/") = slashed base := by
    rw [slashed_slash, slashed, if_neg hb]
  rw [path, path]
  rw [takesSlash] at h
  cases hstart : t.start with
  | entitySet name => rw [Start.text, Start.text, hs]
  | serviceRoot =>
    simp only [hstart, Bool.and_eq_true, List.isEmpty_iff, Option.isNone_iff_eq_none] at h
    obtain ⟨⟨ho, hk⟩, hc⟩ := h
    obtain ⟨operation, ho⟩ := Option.isSome_iff_exists.1 ho
    have hnode : t.decoration.path style [] (base ++ "/") = t.decoration.path style [] base := by
      have hkeyed := (t.decoration.keyed_eq_empty_iff style).2 hk
      have hcasted := t.decoration.casted_eq_empty_iff.2 hc
      simp only [Decoration.path, Decoration.invoked, ho, hkeyed, hcasted, String.append_empty, hs]
    simp only [nodes, pathFrom, Start.text, String.empty_append, hnode]

/-- Where the slash is not looked at, the base is nothing but the beginning of the path. -/
theorem path_of_not_takesSlash {t : Trail} (h : ¬ t.takesSlash) (base : String)
    (style : KeyStyle) : t.path base style = base ++ t.path "" style := by
  rw [takesSlash] at h
  cases hstart : t.start with
  | entitySet name => simp [hstart] at h
  | serviceRoot =>
    have hnode : t.decoration.operation = none ∨
        "" ++ t.decoration.keyed style ++ t.decoration.casted ≠ "" := by
      by_contra hno
      simp only [not_or, not_not, String.empty_append, String.append_eq_empty_iff,
        Decoration.keyed_eq_empty_iff, Decoration.casted_eq_empty_iff] at hno
      apply h
      simp [hstart, hno.2, Option.isSome_iff_ne_none.2 hno.1]
    have hlinks : ∀ stop ∈ (t.nodes base).tail, stop.1 ≠ "" := by
      intro stop hs
      obtain ⟨link, -, rfl⟩ := List.mem_map.1 hs
      simp
    have hroot := t.decoration.path_append style [] base hnode
    rw [String.append_empty] at hroot
    simp only [path, nodes, hstart, pathFrom, Start.text, String.empty_append, hroot]
    exact pathFrom_append style _ base _ hlinks

end Trail

/-- A slash at the end of the base makes no difference just if the root takes it in, or there is no
URI at all. Elsewhere the slash stays where it is, before a path that is otherwise the same. -/
theorem request_slash_iff (style : KeyStyle) (tree : Expr) {base : String}
    (hb : base.toList.getLast? ≠ some '/') :
    ((Service.ofBase (base ++ "/") style).request tree = (Service.ofBase base style).request tree ↔
      (∃ fault, (Service.ofBase base style).request tree = .error fault) ∨
        tree.trail.takesSlash) ∧
    (¬ tree.trail.takesSlash → ∀ r, (Service.ofBase base style).request tree = .ok r →
      ∃ rest, r.uri = base ++ rest ∧ (Service.ofBase (base ++ "/") style).request tree =
        .ok ⟨base ++ "/" ++ rest, r.version⟩) := by
  simp only [request_eq_answer]
  cases hf : tree.faults with
  | cons fault rest => simp [Expr.answer, hf]
  | nil =>
    simp only [Expr.answer, hf, Trail.uri_eq]
    by_cases ht : tree.trail.takesSlash
    · simp [ht, Trail.path_of_takesSlash ht hb]
    · rw [Trail.path_of_not_takesSlash ht base, Trail.path_of_not_takesSlash ht (base ++ "/")]
      constructor
      · -- one of the two URIs has a slash more than the other
        simp [ht, String.append_assoc]
      · rintro - r hr
        obtain rfl := Except.ok.inj hr
        exact ⟨tree.trail.path "" style ++ tree.trail.queryPart, String.append_assoc, by
          simp only [String.append_assoc]⟩

def linesAround : Expr :=
  .follow
    (.root .serviceRoot
      { operation := some
          { name := "Nearest", isAction := false, parameters := [("x", .primitive "1")] } })
    (.navigation "Lines") {}

theorem slash_taken_by_linesAround :
    "//h".toList.getLast? ≠ some '/' ∧ linesAround.trail.takesSlash ∧
      (Service.ofBase "//h").request linesAround = .ok ⟨"//h/Nearest(x=1)/Lines", .baseline⟩ ∧
      (Service.ofBase "//h/").request linesAround = (Service.ofBase "//h").request linesAround := by
  have hb : "//h".toList.getLast? ≠ some '/' := by decide
  exact ⟨hb, rfl, rfl, (request_slash_iff .parentheses linesAround hb).1.2 (.inr rfl)⟩

def me : Expr := .follow (.root .serviceRoot {}) (.singleton "Me") {}

/-- Behind a base with a slash, the resource follows a second one. -/
theorem slash_doubled_before_member :
    "//h".toList.getLast? ≠ some '/' ∧
      (Service.ofBase "//h").request me = .ok ⟨"//h/Me", .baseline⟩ ∧
      (Service.ofBase "//h/").request me = .ok ⟨"//h//Me", .baseline⟩ ∧
      (Service.ofBase "//h/").request me ≠ (Service.ofBase "//h").request me := by
  have h : (Service.ofBase "//h").request me = .ok ⟨"//h/Me", .baseline⟩ := rfl
  have h' : (Service.ofBase "//h/").request me = .ok ⟨"//h//Me", .baseline⟩ := rfl
  refine ⟨by decide, h, h', ?_⟩
  rw [h, h']
  simp

end RequestUri
