import RequestUri.Proofs.Answer
import RequestUri.Proofs.FirstFault
import RequestUri.Proofs.PathText

/-! The key of the outermost node of a resource. It shows in the URI, unless it is an empty segment
with an operation right behind it, which takes the slash of the key for its own. -/

namespace RequestUri

namespace Expr

def outermost : Expr → Decoration Expr
  | root _ node => node
  | follow _ _ node => node
  | _ => {}

def withKey (key : List (String × Literal)) : Expr → Expr
  | root start node => root start { node with key }
  | follow source link node => follow source link { node with key }
  | e => e

/-- The text that leads to the outermost node. -/
def approach (base : String) : Expr → String
  | root start _ => start.text base
  | follow _ link _ => "/" ++ link.member
  | _ => ""

theorem withKey_outermost (tree : Expr) : tree.withKey tree.outermost.key = tree := by
  cases tree <;> rfl

/- What does not look at keys is gathered from the nodes as before. -/
theorem flatMap_withKey {β : Type} {g : Decoration Expr → List β}
    (hg : ∀ (node : Decoration Expr) key, g { node with key } = g node)
    (key : List (String × Literal)) (tree : Expr) :
    (tree.withKey key).trail.decorations.flatMap g = tree.trail.decorations.flatMap g := by
  cases tree with
  | root start node => exact congrArg (· ++ []) (hg node key)
  | follow source link node =>
    have hnode := hg node key
    simp [withKey, trail, Trail.extend, Trail.decorations, hnode]
  | _ => rfl

theorem faults_withKey (key : List (String × Literal)) (tree : Expr) :
    (tree.withKey key).faults = tree.faults := by
  have horigin : (tree.withKey key).origin.kind = tree.origin.kind := by
    cases tree <;> rfl
  rw [faults, faults, horigin, flatMap_withKey fun _ _ => rfl]

theorem requiredVersion_withKey (key : List (String × Literal)) (tree : Expr) :
    (tree.withKey key).requiredVersion = tree.requiredVersion := by
  rw [requiredVersion, requiredVersion, flatMap_withKey fun _ _ => rfl]

theorem queryPart_withKey (key : List (String × Literal)) (tree : Expr) :
    (tree.withKey key).trail.queryPart = tree.trail.queryPart := by
  have hentries : (tree.withKey key).trail.entries = tree.trail.entries :=
    flatMap_withKey (fun _ _ => rfl) key tree
  have hmoved : (tree.withKey key).trail.moved = tree.trail.moved :=
    flatMap_withKey (fun _ _ => rfl) key tree
  simp only [Trail.queryPart, Trail.query, Trail.aliases, hentries, hmoved]

end Expr

section Path
variable (base : String) (style : KeyStyle)

theorem Trail.pathFrom_concat (before : List String) (text name : String) (node : Decoration Expr)
    (nodes : List (String × Decoration Expr)) :
    pathFrom style before text (nodes ++ [(name, node)]) =
      node.path style (before ++ (nodes.flatMap fun stop => stop.2.moved).map Prod.fst)
        (pathFrom style before text nodes ++ name) := by
  induction nodes generalizing before text with
  | nil => simp [pathFrom]
  | cons stop nodes ih =>
    obtain ⟨first, top⟩ := stop
    simp [pathFrom, ih]

theorem Trail.path_extend (t : Trail) (link : Link) (node : Decoration Expr) :
    (t.extend link node).path base style =
      node.path style (t.moved.map Prod.fst) (t.path base style ++ ("/" ++ link.member)) := by
  have hnodes : ∀ address, (t.extend link node).nodes address =
      t.nodes address ++ [("/" ++ link.member, node)] := by
    simp [nodes, extend]
  rw [path, hnodes, pathFrom_concat, flatMap_nodes, List.nil_append]
  rfl

theorem Expr.path_withKey {tree : Expr} (h : tree.kind = .resource) :
    ∃ before text, text.toList.getLast? = (tree.approach base).toList.getLast? ∧
      ∀ key, (tree.withKey key).trail.path base style =
        ({ tree.outermost with key } : Decoration Expr).path style before text := by
  cases tree with
  | root start node =>
    refine ⟨[], start.text base, rfl, fun key => ?_⟩
    rw [withKey, trail, Trail.path]
    simp [Trail.nodes, Trail.pathFrom, outermost]
  | follow source link node =>
    refine ⟨source.trail.moved.map Prod.fst, source.trail.path base style ++ ("/" ++ link.member),
      ?_, fun key => source.trail.path_extend base style link { node with key }⟩
    simp [approach, List.getLast?_append, List.getLast?_cons]
  | _ => cases h

end Path

theorem slashed_eq_slash_iff {text : String} (h : text ≠ "") : slashed text = "/" ↔ text = "/" := by
  rw [slashed]
  split
  · rfl
  · next hlast =>
    constructor
    · intro he
      exact absurd (by simpa using he) h
    · rintro rfl
      exact absurd rfl hlast

/-- A text behind another one makes no difference to an open segment just if it is the slash that
the segment was to end with. -/
theorem slashed_append_eq_iff (text : String) {added : String} (h : added ≠ "") :
    slashed (text ++ added) = slashed text ↔ added = "/" ∧ text.toList.getLast? ≠ some '/' := by
  rw [slashed_append text h, ← slashed_eq_slash_iff h, slashed.eq_def text]
  split
  · next hlast =>
    have hne : slashed added ≠ "" := by
      rw [slashed]
      split
      · exact h
      · exact ne_empty_append h "/"
    simp [hlast, hne]
  · next hlast => simp [hlast]

namespace Decoration
variable (node : Decoration Expr) (before : List String) (text : String)

/- With a cast, the key stands apart from the operation. -/
theorem invoked_append_eq_iff {added : String} (h : added ≠ "") :
    node.invoked before (text ++ added ++ node.casted) = node.invoked before (text ++ node.casted) ↔
      added = "/" ∧ node.cast = none ∧ node.operation.isSome ∧ text.toList.getLast? ≠ some '/' := by
  rw [invoked, invoked]
  cases ho : node.operation with
  | none => simp [h]
  | some operation =>
    simp only [String.append_left_inj, Option.isSome_some, true_and]
    by_cases hc : node.cast = none
    · rw [node.casted_eq_empty_iff.2 hc, String.append_empty, String.append_empty,
        slashed_append_eq_iff text h]
      simp [hc]
    · have hcasted : node.casted ≠ "" := fun he => hc (node.casted_eq_empty_iff.1 he)
      rw [slashed_append _ hcasted, slashed_append _ hcasted]
      simp [h, hc]

/-- A key is lost just if it is a mere slash with an operation right behind it. -/
theorem path_eq_iff (style : KeyStyle) {key : List (String × Literal)} (hkey : key ≠ []) :
    ({ node with key } : Decoration Expr).path style before text =
        ({ node with key := [] } : Decoration Expr).path style before text ↔
      ({ node with key } : Decoration Expr).keyed style = "/" ∧ node.cast = none ∧
        node.operation.isSome ∧ text.toList.getLast? ≠ some '/' := by
  have hnone : ({ node with key := [] } : Decoration Expr).keyed style = "" :=
    (keyed_eq_empty_iff style _).2 rfl
  have hsome : ({ node with key } : Decoration Expr).keyed style ≠ "" := by
    intro he
    exact hkey ((keyed_eq_empty_iff style _).1 he)
  rw [path, path, hnone, String.append_empty]
  refine Iff.trans ?_ (node.invoked_append_eq_iff before text hsome)
  exact String.append_left_inj _

theorem keyed_string_eq_slash_iff (style : KeyStyle) (name s : String) :
    ({ node with key := [(name, .string s)] } : Decoration Expr).keyed style = "/" ↔
      style = .slash ∧ s = "" := by
  have hkeyed : ({ node with key := [(name, .string s)] } : Decoration Expr).keyed style =
      style.text [(name, Text.quote (Text.pathSafe s))] := by
    rw [← Text.pathSafe_quote]
    rfl
  rw [hkeyed]
  cases style with
  | parentheses =>
    have hopen : KeyStyle.parentheses.text [(name, Text.quote (Text.pathSafe s))] ≠ "/" := by
      rw [KeyStyle.text, ne_eq, ← String.toList_inj]
      simp
    simp [hopen]
  | slash =>
    rw [KeyStyle.text, Text.unquote_quote]
    simp [Text.pathSafe_eq_empty_iff]

end Decoration

/-- A tree without a key on its outermost node is given one string as its key. The request succeeds
as before, with the same version. The URI stays the same just if the key is an empty segment, and
an operation follows it that would have written a slash of its own. -/
theorem key_lost_iff (base : String) (style : KeyStyle) (tree : Expr) (r : Request)
    (hkey : tree.outermost.key = []) (h : (Service.ofBase base style).request tree = .ok r)
    (name s : String) :
    ∃ uri, (Service.ofBase base style).request (tree.withKey [(name, .string s)]) =
        .ok ⟨uri, r.version⟩ ∧
      (uri = r.uri ↔ style = .slash ∧ s = "" ∧ tree.outermost.cast = none ∧
        tree.outermost.operation.isSome ∧ (tree.approach base).toList.getLast? ≠ some '/') := by
  rw [request_eq_answer] at h
  obtain ⟨hf, rfl⟩ := (answer_eq_ok_iff base style tree).1 h
  have hresource : tree.kind = .resource := Expr.kind_of_isBound (tree.faults_eq_nil_iff.1 hf).1
  obtain ⟨before, text, hlast, hpath⟩ := tree.path_withKey base style hresource
  have htree := hpath []
  rw [← hkey, tree.withKey_outermost] at htree
  refine ⟨(tree.withKey [(name, .string s)]).trail.uri base style, ?_, ?_⟩
  · rw [request_eq_answer, answer_eq_ok_iff, tree.faults_withKey, tree.requiredVersion_withKey]
    exact ⟨hf, rfl⟩
  · rw [Trail.uri_eq, Trail.uri_eq, tree.queryPart_withKey, String.append_left_inj, hpath, htree,
      hkey, Decoration.path_eq_iff _ _ _ _ (List.cons_ne_nil _ _),
      Decoration.keyed_string_eq_slash_iff, hlast, and_assoc]

def postedLines : Expr :=
  .follow (.root (.entitySet "Orders") { key := [("Id", .int32 7)] }) (.navigation "Lines")
    { cast := some { typeName := "S.Posted" }
      operation := some { name := "Close", isAction := true } }

/-- The cast keeps even an empty key apart from the operation. -/
theorem key_kept_by_postedLines :
    postedLines.outermost.key = [] ∧
      (Service.ofBase "//h" .slash).request postedLines =
        .ok ⟨"//h/Orders/7/Lines/S.Posted/Close", .baseline⟩ ∧
      ∃ uri, (Service.ofBase "//h" .slash).request (postedLines.withKey [("Code", .string "")]) =
          .ok ⟨uri, .baseline⟩ ∧ uri ≠ "//h/Orders/7/Lines/S.Posted/Close" := by
  have h : (Service.ofBase "//h" .slash).request postedLines =
      .ok ⟨"//h/Orders/7/Lines/S.Posted/Close", .baseline⟩ := rfl
  obtain ⟨uri, hr, hu⟩ := key_lost_iff "//h" .slash postedLines _ rfl h "Code" ""
  refine ⟨rfl, h, uri, hr, ?_⟩
  intro he
  obtain ⟨-, -, hcast, -⟩ := hu.1 he
  cases hcast

def peopleCleared : Expr :=
  .root (.entitySet "People") { operation := some { name := "Clear", isAction := true } }

/-- The action on the person without a name has the URI of the action on all people. -/
theorem key_lost_before_operation :
    peopleCleared.outermost.key = [] ∧
      (Service.ofBase "//h" .slash).request peopleCleared =
        .ok ⟨"//h/People/Clear", .baseline⟩ ∧
      (Service.ofBase "//h" .slash).request (peopleCleared.withKey [("Name", .string "")]) =
        .ok ⟨"//h/People/Clear", .baseline⟩ := by
  exact ⟨rfl, rfl, rfl⟩

end RequestUri
