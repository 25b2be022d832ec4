import RequestUri.Proofs.Answer
import RequestUri.Proofs.PathText

/-! Where the path of a URI ends. Keys are made safe for the path, but arguments stand in it as they
are, so a character that ends a path comes from an argument if from anywhere. -/

namespace RequestUri

def EndsPath (c : Char) : Prop := c = '?' ∨ c = '#'

theorem EndsPath.ne_signs {c : Char} (hc : EndsPath c) :
    c ≠ '/' ∧ c ≠ '(' ∧ c ≠ ')' ∧ c ≠ '=' ∧ c ≠ ',' ∧ c ≠ '\'' := by
  rcases hc with rfl | rfl <;> decide

def Operation.arguments (operation : Operation) : List (String × Argument) :=
  if operation.isAction then [] else operation.parameters

namespace Decoration

def arguments (node : Decoration Expr) : List (String × Argument) :=
  node.operation.toList.flatMap Operation.arguments

def names (node : Decoration Expr) : List String :=
  node.key.map Prod.fst ++ node.cast.toList.map Cast.typeName ++
    node.operation.toList.map Operation.name ++ node.arguments.map Prod.fst

end Decoration

def Start.names : Start → List String
  | entitySet name => [name]
  | serviceRoot => []

namespace Trail

def arguments (t : Trail) : List (String × Argument) := t.decorations.flatMap Decoration.arguments

def names (t : Trail) : List String :=
  t.start.names ++ t.links.map (fun (link, _) => link.member) ++
    t.decorations.flatMap Decoration.names

end Trail

section Texts
variable {c : Char} (hc : EndsPath c)
include hc

theorem mem_quote (s : String) : c ∈ (Text.quote s).toList ↔ c ∈ s.toList := by
  simp [Text.quote, Text.mem_doubleQuotes, hc.ne_signs]

theorem mem_slashed (text : String) : c ∈ (slashed text).toList ↔ c ∈ text.toList := by
  rw [slashed]
  split
  · rfl
  · simp [hc.ne_signs]

end Texts

namespace Decoration

/-- Names, keys and arguments that leave no other way into the path for the character. -/
structure Admits (node : Decoration Expr) (c : Char) : Prop where
  names : ∀ name ∈ node.names, c ∉ name.toList
  keys : ∀ entry ∈ node.key, ∃ s, entry.2 = .string s
  arguments : ∀ argument ∈ node.arguments, ∃ s, argument.2 = .ofLiteral (.string s)

end Decoration

/-- An argument that is made from a string with the character in it. -/
def Brings (c : Char) (argument : String × Argument) : Prop :=
  ∃ s, argument.2 = .ofLiteral (.string s) ∧ c ∈ s.toList

theorem brings_iff (c : Char) (name s : String) :
    Brings c (name, .ofLiteral (.string s)) ↔ c ∈ s.toList := by
  constructor
  · rintro ⟨other, he, hin⟩
    have hq : Text.unquote (Text.quote s) = Text.unquote (Text.quote other) :=
      congrArg Text.unquote (Argument.primitive.inj he)
    rw [Text.unquote_quote, Text.unquote_quote] at hq
    rwa [hq]
  · intro hin
    exact ⟨s, rfl, hin⟩

section Path
variable {c : Char} (hc : EndsPath c)
include hc

theorem not_mem_keyText (style : KeyStyle) {pairs : List (String × String)}
    (h : ∀ pair ∈ pairs, c ∉ pair.1.toList ∧ c ∉ pair.2.toList) :
    c ∉ (style.text pairs).toList := by
  have hsigns := hc.ne_signs
  rcases pairs with _ | ⟨pair, _ | ⟨next, rest⟩⟩
  · cases style <;> simp [KeyStyle.text]
  · have hvalue := (h pair List.mem_cons_self).2
    have hunquoted : c ∉ (Text.unquote pair.2).toList := fun hin => hvalue (Text.mem_unquote hin)
    cases style with
    | parentheses => simp [KeyStyle.text, hsigns, hvalue]
    | slash => simp [KeyStyle.text, hsigns, hunquoted]
  · have hcomma : c ∉ ",".toList := by simp [hsigns]
    rw [KeyStyle.text_composite style (by simp), String.toList_append, String.toList_append,
      List.mem_append, List.mem_append, Text.mem_intercalate hcomma]
    rintro ((hin | ⟨text, ht, hin⟩) | hin)
    · simp [hsigns] at hin
    · obtain ⟨entry, he, rfl⟩ := List.mem_map.1 ht
      simp [h entry he, hsigns] at hin
    · simp [hsigns] at hin

theorem Decoration.not_mem_keyed (style : KeyStyle) {node : Decoration Expr}
    (h : node.Admits c) : c ∉ (node.keyed style).toList := by
  apply not_mem_keyText hc
  intro pair hp
  obtain ⟨⟨name, value⟩, he, rfl⟩ := List.mem_map.1 hp
  obtain ⟨s, rfl⟩ : ∃ s, value = .string s := h.keys (name, value) he
  constructor
  · apply h.names
    simp only [names, List.mem_append, List.mem_map]
    exact .inl (.inl (.inl ⟨_, he, rfl⟩))
  · exact Text.not_mem_pathSafe (.inr hc) (Text.quote s)

theorem mem_argumentTexts (before : List String) {arguments : List (String × Argument)}
    (hn : ∀ argument ∈ arguments, c ∉ argument.1.toList)
    (ha : ∀ argument ∈ arguments, ∃ s, argument.2 = .ofLiteral (.string s)) :
    (∃ text ∈ argumentTexts before arguments, c ∈ text.toList) ↔
      ∃ argument ∈ arguments, Brings c argument := by
  induction arguments with
  | nil => simp [argumentTexts]
  | cons argument rest ih =>
    obtain ⟨name, value⟩ := argument
    obtain ⟨s, rfl⟩ : ∃ s, value = .ofLiteral (.string s) := ha (name, value) List.mem_cons_self
    have hname : c ∉ name.toList := hn (name, _) List.mem_cons_self
    have hrest : (∃ text ∈ argumentTexts before rest, c ∈ text.toList) ↔
        ∃ argument ∈ rest, Brings c argument := ih (fun a h => hn a (List.mem_cons_of_mem _ h))
      (fun a h => ha a (List.mem_cons_of_mem _ h))
    have htext : c ∈ (name ++ "=" ++ Text.quote s).toList ↔
        Brings c (name, .ofLiteral (.string s)) := by
      rw [brings_iff, ← mem_quote hc s]
      simp [hname, hc.ne_signs]
    have hcons : argumentTexts before ((name, .ofLiteral (.string s)) :: rest) =
        (name ++ "=" ++ Text.quote s) :: argumentTexts before rest := rfl
    rw [hcons, List.exists_mem_cons_iff, List.exists_mem_cons_iff, htext, hrest]

theorem Decoration.mem_path (style : KeyStyle) (before : List String) (text : String)
    {node : Decoration Expr} (h : node.Admits c) : c ∈ (node.path style before text).toList ↔
      c ∈ text.toList ∨ ∃ argument ∈ node.arguments, Brings c argument := by
  have hsigns := hc.ne_signs
  have hcasted : c ∉ node.casted.toList := by
    rw [casted]
    cases hcast : node.cast with
    | none => simp
    | some cast =>
      have hname := h.names cast.typeName (by simp [names, hcast])
      simp [hsigns, hname]
  have hcounted : c ∉ node.counted.toList := by
    rw [counted]
    split
    · rcases hc with rfl | rfl <;> decide
    · simp
  have hbefore : c ∈ (text ++ node.keyed style ++ node.casted).toList ↔ c ∈ text.toList := by
    simp [not_mem_keyed hc style h, hcasted]
  rw [path, String.toList_append, List.mem_append, invoked, or_iff_left hcounted]
  cases hop : node.operation with
  | none => simpa [arguments, hop] using hbefore
  | some operation =>
    have hname : c ∉ operation.name.toList := h.names operation.name (by simp [names, hop])
    have hargs : node.arguments = operation.arguments := by simp [arguments, hop]
    rw [String.toList_append, List.mem_append, mem_slashed hc, hbefore, hargs]
    apply or_congr_right
    cases ha : operation.isAction with
    | true => simp [Operation.text, Operation.arguments, ha, hname]
    | false =>
      have hnames : ∀ argument ∈ operation.arguments, c ∉ argument.1.toList := by
        intro argument hin
        apply h.names
        rw [names, hargs]
        exact List.mem_append_right _ (List.mem_map_of_mem hin)
      have hstrings := h.arguments
      rw [hargs] at hstrings
      have hcomma : c ∉ ",".toList := by simp [hsigns]
      rw [← mem_argumentTexts hc before hnames hstrings, ← Text.mem_intercalate hcomma]
      simp [Operation.text, Operation.arguments, ha, hname, hsigns]

theorem Trail.mem_pathFrom (style : KeyStyle) (before : List String) (text : String)
    {nodes : List (String × Decoration Expr)}
    (h : ∀ entry ∈ nodes, c ∉ entry.1.toList ∧ entry.2.Admits c) :
    c ∈ (pathFrom style before text nodes).toList ↔
      c ∈ text.toList ∨ ∃ entry ∈ nodes, ∃ argument ∈ entry.2.arguments, Brings c argument := by
  induction nodes generalizing before text with
  | nil => simp [pathFrom]
  | cons entry nodes ih =>
    obtain ⟨name, node⟩ := entry
    obtain ⟨hname, hnode⟩ := h (name, node) List.mem_cons_self
    rw [pathFrom, ih _ _ fun entry he => h entry (List.mem_cons_of_mem _ he),
      Decoration.mem_path hc style before _ hnode, String.toList_append, List.mem_append,
      or_iff_left hname, List.exists_mem_cons_iff, or_assoc]

theorem Trail.mem_path (style : KeyStyle) {base : String} (hb : c ∉ base.toList) {t : Trail}
    (hn : ∀ name ∈ t.names, c ∉ name.toList)
    (hk : ∀ node ∈ t.decorations, ∀ entry ∈ node.key, ∃ s, entry.2 = .string s)
    (ha : ∀ argument ∈ t.arguments, ∃ s, argument.2 = .ofLiteral (.string s)) :
    c ∈ (t.path base style).toList ↔ ∃ argument ∈ t.arguments, Brings c argument := by
  have hadmits : ∀ node ∈ t.decorations, node.Admits c := by
    intro node hin
    refine ⟨fun name h => hn name ?_, hk node hin, fun argument h => ha argument ?_⟩
    · exact List.mem_append_right _ (List.mem_flatMap.2 ⟨node, hin, h⟩)
    · exact List.mem_flatMap.2 ⟨node, hin, h⟩
  have hstart : c ∉ (t.start.text base).toList := by
    cases hs : t.start with
    | entitySet name =>
      have hname := hn name (by simp [names, hs, Start.names])
      simp [Start.text, mem_slashed hc, hb, hname]
    | serviceRoot => exact hb
  have hnodes : ∀ entry ∈ t.nodes (t.start.text base), c ∉ entry.1.toList ∧ entry.2.Admits c := by
    refine List.forall_mem_cons.2 ⟨⟨hstart, hadmits _ List.mem_cons_self⟩, ?_⟩
    intro entry he
    obtain ⟨⟨link, node⟩, hl, rfl⟩ := List.mem_map.1 he
    have hmember := hn link.member (by
      simp only [names, List.mem_append, List.mem_map]
      exact .inl (.inr ⟨_, hl, rfl⟩))
    exact ⟨by simp [hc.ne_signs, hmember],
      hadmits node (List.mem_cons_of_mem _ (List.mem_map.2 ⟨_, hl, rfl⟩))⟩
  rw [path, mem_pathFrom hc style [] "" hnodes, arguments, ← flatMap_nodes _ (t.start.text base)]
  constructor
  · rintro (hin | ⟨entry, he, argument, harg, hbrings⟩)
    · simp at hin
    · exact ⟨argument, List.mem_flatMap.2 ⟨entry, he, harg⟩, hbrings⟩
  · rintro ⟨argument, hin, hbrings⟩
    obtain ⟨entry, he, harg⟩ := List.mem_flatMap.1 hin
    exact .inr ⟨entry, he, argument, harg, hbrings⟩

end Path

theorem Trail.queryPart_cases (t : Trail) :
    t.queryPart = "" ∨ t.queryPart.toList.head? = some '?' := by
  rw [queryPart]
  by_cases he : t.entries = []
  · by_cases hm : t.moved = [] <;> simp [he, hm]
  · simp [he]

/-- What a request has for a path holds a character that ends paths just if a string among its
arguments does. If no such string holds a question mark, the first one begins the query. -/
theorem path_end_of_request (base : String) (style : KeyStyle) (tree : Expr) (r : Request)
    (h : (Service.ofBase base style).request tree = .ok r)
    (hb : ∀ c, EndsPath c → c ∉ base.toList)
    (hn : ∀ name ∈ tree.trail.names, ∀ c, EndsPath c → c ∉ name.toList)
    (hk : ∀ node ∈ tree.trail.decorations, ∀ entry ∈ node.key, ∃ s, entry.2 = .string s)
    (ha : ∀ argument ∈ tree.trail.arguments, ∃ s, argument.2 = .ofLiteral (.string s)) :
    ∃ path query, ((Draft.visit (.ofBase base style) tree).run {}).2.path = path ∧
      r.uri = path ++ query ∧ (query = "" ∨ query.toList.head? = some '?') ∧
      (∀ c, EndsPath c →
        (c ∈ path.toList ↔ ∃ argument ∈ tree.trail.arguments, Brings c argument)) ∧
      ((∀ argument ∈ tree.trail.arguments, ¬ Brings '?' argument) →
        r.uri.toList.takeWhile (· ≠ '?') = path.toList) := by
  rw [request_eq_answer] at h
  obtain ⟨hf, rfl⟩ := (answer_eq_ok_iff base style tree).1 h
  have hpath : ∀ c, EndsPath c → (c ∈ (tree.trail.path base style).toList ↔
      ∃ argument ∈ tree.trail.arguments, Brings c argument) := fun c hc =>
    Trail.mem_path hc style (hb c hc) (fun name hin => hn name hin c hc) hk ha
  refine ⟨tree.trail.path base style, tree.trail.queryPart, (holds_visit base style tree hf).path,
    tree.trail.uri_eq base style, tree.trail.queryPart_cases, hpath, ?_⟩
  intro hno
  have hmark : ∀ c ∈ (tree.trail.path base style).toList, decide (c ≠ '?') = true := by
    intro c hin
    simp only [decide_eq_true_eq]
    rintro rfl
    obtain ⟨argument, harg, hbrings⟩ := (hpath '?' (.inl rfl)).1 hin
    exact hno argument harg hbrings
  have hquery : tree.trail.queryPart.toList.takeWhile (· ≠ '?') = [] := by
    rcases tree.trail.queryPart_cases with hq | hq
    · simp [hq]
    · cases hcs : tree.trail.queryPart.toList with
      | nil => rfl
      | cons c cs => simp_all
  rw [Trail.uri_eq, String.toList_append, List.takeWhile_append_of_pos hmark, hquery,
    List.append_nil]

def versionsFound : Expr :=
  .follow (.root (.entitySet "Files") { key := [("Name", .string "a?b#c")] })
    (.navigation "Versions")
    { operation := some
        { name := "Search", isAction := false, parameters := [("text", .ofLiteral (.string "it's"))] }
      options := [.top (.literal (.int32 5))] }

def versionsFoundPath : String := "//h/Files('a%3Fb%23c')/Versions/Search(text='it''s')"

theorem path_end_of_versionsFound :
    (Service.ofBase "//h").request versionsFound =
        .ok ⟨versionsFoundPath ++ "?$top=5", .baseline⟩ ∧
      (versionsFoundPath ++ "?$top=5").toList.takeWhile (· ≠ '?') = versionsFoundPath.toList := by
  have h : (Service.ofBase "//h").request versionsFound =
      .ok ⟨versionsFoundPath ++ "?$top=5", .baseline⟩ := rfl
  have hb : ∀ c, EndsPath c → c ∉ "//h".toList := by
    rintro c (rfl | rfl) <;> decide
  have hn : ∀ name ∈ versionsFound.trail.names, ∀ c, EndsPath c → c ∉ name.toList := by
    rintro name hin c (rfl | rfl) <;> revert name <;> decide
  have hk : ∀ node ∈ versionsFound.trail.decorations, ∀ entry ∈ node.key,
      ∃ s, entry.2 = .string s :=
    List.forall_mem_cons.2 ⟨List.forall_mem_singleton.2 ⟨_, rfl⟩,
      List.forall_mem_singleton.2 (List.forall_mem_nil _)⟩
  have ha : ∀ argument ∈ versionsFound.trail.arguments,
      ∃ s, argument.2 = .ofLiteral (.string s) :=
    List.forall_mem_singleton.2 ⟨_, rfl⟩
  have hno : ∀ argument ∈ versionsFound.trail.arguments, ¬ Brings '?' argument :=
    List.forall_mem_singleton.2 fun hin => absurd ((brings_iff '?' "text" "it's").1 hin) (by decide)
  obtain ⟨path, query, hp, -, -, -, hend⟩ := path_end_of_request "//h" .parentheses _ _ h hb hn hk ha
  obtain rfl : path = versionsFoundPath := hp.symm
  exact ⟨h, hend hno⟩

def markSought : Expr :=
  .root (.entitySet "Files")
    { operation := some
        { name := "Search", isAction := false
          parameters := [("text", .ofLiteral (.string "a?b"))] } }

/-- The base and the names are as they should be, there are no keys, and still the path does not end
where the query would begin. -/
theorem path_ended_by_argument :
    (∀ c ∈ ['?', '#'], c ∉ "//h".toList) ∧
      (∀ name ∈ markSought.trail.names, ∀ c ∈ ['/', '?', '#'], c ∉ name.toList) ∧
      (∀ node ∈ markSought.trail.decorations, node.key.isEmpty) ∧
      markSought.trail.arguments = [("text", .ofLiteral (.string "a?b"))] ∧
      (Service.ofBase "//h").request markSought =
        .ok ⟨"//h/Files/Search(text='a?b')", .baseline⟩ ∧
      ((Draft.visit (.ofBase "//h") markSought).run {}).2.path = "//h/Files/Search(text='a?b')" ∧
      '?' ∈ "//h/Files/Search(text='a?b')".toList := by
  refine ⟨by simp, ?names, by decide, rfl, rfl, rfl, by decide⟩
  case names =>
    have hn : markSought.trail.names = ["Files", "Search", "text"] := rfl
    simp [hn]

end RequestUri
