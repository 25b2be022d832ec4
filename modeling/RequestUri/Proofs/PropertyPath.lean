import RequestUri.Proofs.Operand

/-! Property paths: the chains of members that a text divided by slashes stands for. -/

namespace RequestUri

def IsSegment (name : String) : Prop := name ≠ "" ∧ '/' ∉ name.toList

namespace Expr

/-- A chain of members down to a property, all of them segments. -/
def IsSegments : Expr → Prop
  | property name => IsSegment name
  | member object name => object.IsSegments ∧ IsSegment name
  | _ => False

/-- A path without segments is the property without a name. -/
def IsPath (e : Expr) : Prop := e = property "" ∨ e.IsSegments

def segments (path : String) : List (List Char) := (path.toList.splitOn '/').filter (· ≠ [])

theorem ofPath_of_segments {path : String} {first : List Char} {rest : List (List Char)}
    (h : segments path = first :: rest) : ofPath path =
      rest.foldl (fun object name => member object (String.ofList name))
        (property (String.ofList first)) := by
  rw [segments] at h
  rw [ofPath, h]

theorem ofPath_of_segments_nil {path : String} (h : segments path = []) :
    ofPath path = property "" := by
  rw [segments] at h
  rw [ofPath, h]

theorem not_mem_of_mem_splitOn {c : Char} {cs part : List Char} (h : part ∈ cs.splitOn c) :
    c ∉ part := by
  induction cs generalizing part with
  | nil => simp_all
  | cons d cs ih =>
    rw [List.splitOn_cons_eq_if_modifyHead] at h
    by_cases hd : d = c
    · rcases List.mem_cons.1 (by simpa [hd] using h) with rfl | h
      · exact List.not_mem_nil
      · exact ih h
    · obtain ⟨first, rest, hs⟩ := List.exists_cons_of_ne_nil (List.splitOn_ne_nil c cs)
      rw [hs] at h ih
      rcases List.mem_cons.1 (by simpa [hd] using h) with rfl | h
      · have hfirst : c ∉ first := ih List.mem_cons_self
        simp [Ne.symm hd, hfirst]
      · exact ih (List.mem_cons_of_mem first h)

theorem isSegment_of_mem_segments {path : String} {name : List Char} (h : name ∈ segments path) :
    IsSegment (String.ofList name) := by
  rw [segments, List.mem_filter] at h
  refine ⟨?_, ?_⟩
  · simpa using h.2
  · rw [String.toList_ofList]
    exact not_mem_of_mem_splitOn h.1

theorem isSegments_foldl {e : Expr} (he : e.IsSegments) {names : List (List Char)}
    (h : ∀ name ∈ names, IsSegment (String.ofList name)) :
    (names.foldl (fun object name => member object (String.ofList name)) e).IsSegments := by
  induction names generalizing e with
  | nil => exact he
  | cons name names ih =>
    obtain ⟨hname, hnames⟩ := List.forall_mem_cons.1 h
    exact ih (e := member e (String.ofList name)) ⟨he, hname⟩ hnames

theorem isPath_ofPath (path : String) : (ofPath path).IsPath := by
  cases h : segments path with
  | nil => exact .inl (ofPath_of_segments_nil h)
  | cons first rest =>
    have hall : ∀ name ∈ first :: rest, IsSegment (String.ofList name) := by
      intro name hn
      rw [← h] at hn
      exact isSegment_of_mem_segments hn
    obtain ⟨hfirst, hrest⟩ := List.forall_mem_cons.1 hall
    rw [ofPath_of_segments h]
    exact .inr (isSegments_foldl (e := property (String.ofList first)) hfirst hrest)

theorem segments_append {name : String} (h : IsSegment name) (path : String) :
    segments (path ++ "/" ++ name) = segments path ++ [name.toList] := by
  have htext : (path ++ "/" ++ name).toList = path.toList ++ '/' :: name.toList := by simp
  rw [segments, segments, htext, List.splitOn_append_cons_self, List.splitOn_eq_singleton h.2]
  simp [h.1]

theorem ofPath_append {name : String} (h : IsSegment name) {path : String}
    (hp : segments path ≠ []) : ofPath (path ++ "/" ++ name) = member (ofPath path) name := by
  obtain ⟨first, rest, hs⟩ := List.exists_cons_of_ne_nil hp
  have hsegments := segments_append h path
  rw [hs, List.cons_append] at hsegments
  rw [ofPath_of_segments hs, ofPath_of_segments hsegments, List.foldl_append]
  simp

theorem ofPath_text_of_isSegments {e : Expr} (h : e.IsSegments) :
    segments (e.text .query) ≠ [] ∧ ofPath (e.text .query) = e := by
  induction e using walkInduction with
  | property name =>
    have hname : IsSegment name := h
    have hs : segments name = [name.toList] := by
      rw [segments, List.splitOn_eq_singleton hname.2]
      simp [hname.1]
    rw [text, hs, ofPath_of_segments hs]
    simp
  | member object name ih =>
    obtain ⟨hobject, hname⟩ : object.IsSegments ∧ IsSegment name := h
    obtain ⟨hne, ho⟩ := ih hobject
    rw [text, segments_append hname, ofPath_append hname hne, ho]
    simp
  | textless e hk => cases e <;> simp_all [kind, Kind.isTextless, IsSegments]
  | _ => cases h

theorem IsPath.ofPath_text {e : Expr} (h : e.IsPath) : ofPath (e.text .query) = e := by
  rcases h with rfl | h
  · rfl
  · exact (ofPath_text_of_isSegments h).2

/-- Paths are just what texts stand for. -/
theorem isPath_iff (e : Expr) : e.IsPath ↔ ∃ path, e = ofPath path := by
  constructor
  · intro h
    exact ⟨e.text .query, h.ofPath_text.symm⟩
  · rintro ⟨path, rfl⟩
    exact isPath_ofPath path

end Expr

end RequestUri
