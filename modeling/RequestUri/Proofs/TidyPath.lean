import Mathlib.Logic.ExistsUnique
import RequestUri.Proofs.PropertyPath

/-! The text that a property path is written as: its segments with one slash between each and the
next. Slashes at the ends and slashes behind one another leave no trace, and nothing else is lost. -/

namespace RequestUri

/-- The parts between the slashes of a text, the empty ones too. -/
structure Divides (parts : List String) (path : String) : Prop where
  nonempty : parts ≠ []
  slashless : ∀ part ∈ parts, '/' ∉ part.toList
  joined : String.intercalate "/" parts = path

theorem splitOn_intercalate_slash {parts : List String} (hne : parts ≠ [])
    (hfree : ∀ part ∈ parts, '/' ∉ part.toList) :
    (String.intercalate "/" parts).toList.splitOn '/' = parts.map String.toList := by
  have hslash : "/".toList = ['/'] := rfl
  rw [String.toList_intercalate, hslash]
  apply List.splitOn_intercalate
  · exact List.forall_mem_map.2 hfree
  · simpa using hne

theorem Divides.splitOn_eq {parts : List String} {path : String} (h : Divides parts path) :
    path.toList.splitOn '/' = parts.map String.toList := by
  rw [← h.joined]
  exact splitOn_intercalate_slash h.nonempty h.slashless

theorem existsUnique_divides (path : String) : ∃! parts, Divides parts path := by
  refine ⟨(path.toList.splitOn '/').map String.ofList, ⟨?_, ?_, ?_⟩, ?_⟩
  · simp [List.splitOn_ne_nil]
  · intro part hpart
    obtain ⟨name, hname, rfl⟩ := List.mem_map.1 hpart
    rw [String.toList_ofList]
    exact Expr.not_mem_of_mem_splitOn hname
  · rw [← String.toList_inj, String.toList_intercalate, List.map_map]
    simp [Function.comp_def, List.intercalate_splitOn]
  · intro parts h
    rw [h.splitOn_eq, List.map_map]
    simp [Function.comp_def]

namespace Expr

theorem segments_intercalate {names : List String} (h : ∀ name ∈ names, IsSegment name) :
    segments (String.intercalate "/" names) = names.map String.toList := by
  by_cases hne : names = []
  · rw [hne]
    rfl
  · rw [segments, splitOn_intercalate_slash hne fun name hname => (h name hname).2]
    refine List.filter_eq_self.2 (List.forall_mem_map.2 fun name hname => ?_)
    simpa using (h name hname).1

theorem ofPath_congr {path other : String} (h : segments path = segments other) :
    ofPath path = ofPath other := by
  rw [segments, segments] at h
  rw [ofPath, ofPath, h]

section Written
variable (place : Place)

theorem text_foldl_member (e : Expr) (names : List (List Char)) :
    (names.foldl (fun object name => member object (String.ofList name)) e).text place =
      String.intercalate "/" (e.text place :: names.map String.ofList) := by
  induction names generalizing e with
  | nil => simp
  | cons name names ih =>
    rw [List.foldl_cons, ih, text, List.map_cons, String.intercalate_cons_append,
      String.intercalate_cons_cons]

theorem text_ofPath (path : String) : (ofPath path).text place =
    String.intercalate "/" ((segments path).map String.ofList) := by
  cases h : segments path with
  | nil =>
    rw [ofPath_of_segments_nil h]
    rfl
  | cons first rest => rw [ofPath_of_segments h, text_foldl_member, List.map_cons, text]

theorem segments_text_ofPath (path : String) :
    segments ((ofPath path).text place) = segments path := by
  rw [text_ofPath, segments_intercalate, List.map_map]
  · simp [Function.comp_def]
  · refine List.forall_mem_map.2 fun name hname => ?_
    exact isSegment_of_mem_segments hname

theorem marks_foldl_member (e : Expr) (names : List (List Char)) :
    (names.foldl (fun object name => member object (String.ofList name)) e).marks = e.marks := by
  induction names generalizing e with
  | nil => rfl
  | cons name names ih =>
    rw [List.foldl_cons, ih]
    rfl

theorem marks_ofPath (path : String) : (ofPath path).marks = [] := by
  cases h : segments path with
  | nil => rw [ofPath_of_segments_nil h]; rfl
  | cons first rest => rw [ofPath_of_segments h, marks_foldl_member]; rfl

theorem write_ofPath (path : String) (j : Journal) :
    ((ofPath path).write place).run j = (.ok ((ofPath path).text place), j) := by
  rw [write_takes place (ofPath path) j, marks_ofPath]
  rfl

end Written

theorem ofPath_eq_iff (path other : String) :
    ofPath path = ofPath other ↔ segments path = segments other := by
  constructor
  · intro h
    rw [← segments_text_ofPath .query path, h, segments_text_ofPath]
  · exact ofPath_congr

end Expr

theorem Divides.segments_eq {parts : List String} {path : String} (h : Divides parts path) :
    Expr.segments path = (parts.filter (· ≠ "")).map String.toList := by
  rw [Expr.segments, h.splitOn_eq, List.filter_map]
  congr 1
  refine List.filter_congr fun part _ => ?_
  simp

theorem Divides.text_ofPath {parts : List String} {path : String} (h : Divides parts path)
    (place : Place) :
    (Expr.ofPath path).text place = String.intercalate "/" (parts.filter (· ≠ "")) := by
  rw [Expr.text_ofPath, h.segments_eq, List.map_map]
  simp [Function.comp_def]

/-- A path is written without a fault and with no mark in the journal, as its segments with single
slashes between them. That text stands for the same path, so it is written as it is; and two texts
stand for the same path just if they have the same segments. -/
theorem path_tidied (path : String) (place : Place) (j : Journal) :
    (∃! parts, Divides parts path) ∧
    ∀ parts, Divides parts path →
      let tidy := String.intercalate "/" (parts.filter (· ≠ ""))
      ((Expr.ofPath path).write place).run j = (.ok tidy, j) ∧
      Expr.ofPath tidy = Expr.ofPath path ∧
      ((Expr.ofPath tidy).write place).run j = (.ok tidy, j) ∧
      ∀ other otherParts, Divides otherParts other →
        (Expr.ofPath path = Expr.ofPath other ↔
          parts.filter (· ≠ "") = otherParts.filter (· ≠ "")) := by
  refine ⟨existsUnique_divides path, fun parts h => ?_⟩
  have hwrite := Expr.write_ofPath place path j
  rw [h.text_ofPath place] at hwrite
  have hsame : Expr.ofPath (String.intercalate "/" (parts.filter (· ≠ ""))) = Expr.ofPath path := by
    rw [← h.text_ofPath .query]
    exact (Expr.isPath_ofPath path).ofPath_text
  refine ⟨hwrite, hsame, ?_, ?_⟩
  · rw [hsame]
    exact hwrite
  · intro other otherParts ho
    rw [Expr.ofPath_eq_iff, h.segments_eq, ho.segments_eq]
    exact List.map_inj_right fun _ _ => String.toList_inj.1

theorem path_tidied_of_slashes :
    Divides ["", "", "a", "", "b", ""] "//a//b/" ∧
      ((Expr.ofPath "//a//b/").write .path).run {} = (.ok "a/b", {}) ∧
      Expr.ofPath "//a//b/" = Expr.ofPath "a/b" ∧ Expr.ofPath "//a//b/" ≠ Expr.ofPath "ab" := by
  have hparts : Divides ["", "", "a", "", "b", ""] "//a//b/" := ⟨by simp, by simp, rfl⟩
  have hother : Divides ["ab"] "ab" := ⟨by simp, by simp, rfl⟩
  obtain ⟨hwrite, hsame, -, hiff⟩ := (path_tidied "//a//b/" .path {}).2 _ hparts
  refine ⟨hparts, hwrite, hsame.symm, fun h => ?_⟩
  exact absurd ((hiff _ _ hother).1 h) (by decide)

end RequestUri
