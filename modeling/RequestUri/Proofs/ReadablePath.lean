import RequestUri.Proofs.Answer
import RequestUri.Proofs.PathReader
import RequestUri.Proofs.PlainText
import RequestUri.Proofs.Unambiguous

/-! The path of a plain resource tells all its names, casts and key values. -/

namespace RequestUri

namespace Literal

/-- Literals with a text that ends where the key goes on. -/
def isKeyLike : Literal → Bool
  | string _ | int32 _ | int64 _ | bool _ => true
  | _ => false

def shown : Literal → KeyValue
  | string s => .string s
  | v => .bare v.text

theorem text_shown (v : Literal) : v.shown.text = v.textAt .path := by
  cases v with
  | string s => exact (Text.pathSafe_quote s).symm
  | _ => rfl

theorem isBareChar_of_mem_toString {n : Int} {c : Char} (h : c ∈ (toString n).toList) :
    isBareChar c := by
  rcases Text.isDigit_or_minus h with hd | rfl
  · simp [isBareChar, isWordChar, Char.isAlphanum, hd]
  · rfl

theorem isReadable_shown {v : Literal} (h : v.isKeyLike) : v.shown.IsReadable := by
  cases v with
  | string s => trivial
  | int32 n => exact fun c hc => isBareChar_of_mem_toString hc
  | int64 n => exact fun c hc => isBareChar_of_mem_toString hc
  | bool b =>
    have hb : (bool b).text.toList.all isBareChar := by
      cases b <;> decide
    exact List.all_eq_true.1 hb
  | _ => simp [isKeyLike] at h

end Literal

namespace Decoration

/-- The property of a lone value is not named. -/
def shownKey (node : Decoration Expr) : List KeyEntry :=
  match node.key with
  | [(_, value)] => [⟨none, value.shown⟩]
  | key => key.map fun (name, value) => ⟨some name, value.shown⟩

def step (name : String) (node : Decoration Expr) : Step :=
  ⟨name, node.shownKey, node.cast.map Cast.typeName⟩

structure IsPlain (node : Decoration Expr) : Prop where
  key : ∀ entry ∈ node.key, IsWord entry.1.toList ∧ entry.2.isKeyLike
  cast : ∀ cast ∈ node.cast, IsDotted cast.typeName
  operation : node.operation = none
  count : node.count = .none
  options : node.options = []
  expand : node.expand = []
  select : node.select = []
  custom : node.custom = []

end Decoration

def Start.name : Start → String
  | entitySet name => name
  | serviceRoot => ""

def Trail.steps (t : Trail) : List Step :=
  t.decoration.step t.start.name :: t.links.map fun (link, node) => node.step link.member

/-- A chain of plain resources behind an entity set. -/
def Expr.IsPlain : Expr → Prop
  | .root (.entitySet name) node => IsWord name.toList ∧ node.IsPlain
  | .follow source link node => source.IsPlain ∧ IsWord link.member.toList ∧ node.IsPlain
  | _ => False

namespace Decoration
variable {node : Decoration Expr}

theorem IsPlain.step (h : node.IsPlain) {name : String} (hname : IsWord name.toList) :
    (node.step name).IsReadable := by
  refine ⟨hname, ?_, ?_⟩
  · have hkey := h.key
    simp only [Decoration.step, shownKey]
    split
    · next value hk =>
      rw [hk] at hkey
      have hv := (hkey _ List.mem_cons_self).2
      exact List.forall_mem_singleton.2 ⟨by simp, Literal.isReadable_shown hv⟩
    · intro e he
      obtain ⟨entry, hin, rfl⟩ := List.mem_map.1 he
      obtain ⟨hn, hv⟩ := hkey entry hin
      exact ⟨by simpa using hn, Literal.isReadable_shown hv⟩
  · intro type ht
    obtain ⟨cast, hc, rfl⟩ := Option.map_eq_some_iff.1 ht
    exact h.cast cast hc

theorem text_resource (name : String) (node : Decoration Expr) :
    (Segment.resource name node.shownKey).text = name ++ node.keyed .parentheses := by
  have hentry : ∀ (property : String) (value : Literal),
      (KeyEntry.mk (some property) value.shown).text = property ++ "=" ++ value.textAt .path := by
    intro property value
    rw [KeyEntry.text, Literal.text_shown]
  rw [shownKey, keyed]
  rcases node.key with _ | ⟨⟨property, value⟩, _ | ⟨next, rest⟩⟩
  · simp [Segment.text, KeyStyle.text]
  · simp [Segment.text, KeyStyle.text, KeyEntry.text, Literal.text_shown, String.append_assoc]
  · rw [KeyStyle.text_composite .parentheses (by simp), List.map_map]
    simp [Segment.text, hentry, Function.comp_def, String.append_assoc]

theorem IsPlain.path (h : node.IsPlain) (before : List String) (text name : String) :
    node.path .parentheses before (text ++ name) = text ++ stepsText [node.step name] := by
  have hinvoked : ∀ text, node.invoked before text = text := by
    intro text
    rw [invoked, h.operation]
  have hcounted : node.counted = "" := by
    rw [counted, h.count]
    rfl
  have hsegments : stepsText [node.step name] = name ++ node.keyed .parentheses ++ node.casted := by
    rw [stepsText_singleton, Step.segments, List.map_cons, Decoration.step, text_resource, casted]
    cases node.cast with
    | none => simp
    | some cast => simp [Segment.text, String.append_assoc]
  rw [Decoration.path, hinvoked, hcounted, String.append_empty, hsegments]
  simp only [String.append_assoc]

theorem IsPlain.entries (h : node.IsPlain) : node.entries = [] := by
  simp [Decoration.entries, h.options, h.expand, h.select, h.count, h.custom, listed, Count.entries]

theorem IsPlain.moved (h : node.IsPlain) : node.moved = [] := by
  rw [Decoration.moved, h.operation]
  rfl

theorem IsPlain.faults (h : node.IsPlain) : node.faults = [] := by
  rw [Decoration.faults, h.options]
  rfl

end Decoration

namespace Trail

structure IsPlain (t : Trail) : Prop where
  start : ∃ name, t.start = .entitySet name ∧ IsWord name.toList
  decoration : t.decoration.IsPlain
  links : ∀ entry ∈ t.links, IsWord entry.1.member.toList ∧ entry.2.IsPlain

variable {t : Trail}

theorem IsPlain.decorations (h : t.IsPlain) : ∀ node ∈ t.decorations, node.IsPlain := by
  refine List.forall_mem_cons.2 ⟨h.decoration, ?_⟩
  intro node hn
  obtain ⟨entry, he, rfl⟩ := List.mem_map.1 hn
  exact (h.links entry he).2

theorem IsPlain.steps (h : t.IsPlain) : ∀ s ∈ t.steps, s.IsReadable := by
  obtain ⟨name, hs, hname⟩ := h.start
  refine List.forall_mem_cons.2 ⟨h.decoration.step (by rw [hs]; exact hname), ?_⟩
  intro s hs
  obtain ⟨entry, he, rfl⟩ := List.mem_map.1 hs
  exact (h.links entry he).2.step (h.links entry he).1

/- Behind the steps that are done, each link adds a slash and a step. -/
theorem pathFrom_plain {links : List (Link × Decoration Expr)}
    (h : ∀ entry ∈ links, entry.2.IsPlain) (before : List String) (p : String) {done : List Step}
    (hd : done ≠ []) : pathFrom .parentheses before (p ++ stepsText done)
      (links.map fun (link, node) => ("/" ++ link.member, node)) =
        p ++ stepsText (done ++ links.map fun (link, node) => node.step link.member) := by
  induction links generalizing before done with
  | nil => simp [pathFrom]
  | cons entry links ih =>
    obtain ⟨link, node⟩ := entry
    have hnode := (h (link, node) List.mem_cons_self).path before
      (p ++ stepsText done ++ "/") link.member
    have hnext : p ++ stepsText done ++ "/" ++ stepsText [node.step link.member] =
        p ++ stepsText (done ++ [node.step link.member]) := by
      rw [stepsText_append hd (List.cons_ne_nil _ _)]
      simp only [String.append_assoc]
    have hrest := ih (fun entry he => h entry (List.mem_cons_of_mem _ he))
      (before ++ node.moved.map Prod.fst) (List.append_ne_nil_of_left_ne_nil hd
        [node.step link.member])
    rw [List.append_assoc] at hrest
    rw [List.map_cons, pathFrom, ← String.append_assoc, hnode, hnext, hrest]
    rfl

theorem IsPlain.path (h : t.IsPlain) (base : String) :
    t.path base .parentheses = slashed base ++ stepsText t.steps := by
  obtain ⟨name, hs, -⟩ := h.start
  have hroot := h.decoration.path [] (slashed base) name
  have hlinks := pathFrom_plain (fun entry he => (h.links entry he).2)
    ([] ++ t.decoration.moved.map Prod.fst) (slashed base)
    (List.cons_ne_nil (t.decoration.step name) [])
  rw [Trail.path, nodes, pathFrom, hs, Start.text, String.empty_append, hroot, hlinks,
    Trail.steps, hs]
  rfl

theorem IsPlain.uri (h : t.IsPlain) (base : String) :
    t.uri base .parentheses = slashed base ++ stepsText t.steps := by
  have hentries : t.entries = [] :=
    List.flatMap_eq_nil_iff.2 fun node hn => (h.decorations node hn).entries
  have hmoved : t.moved = [] :=
    List.flatMap_eq_nil_iff.2 fun node hn => (h.decorations node hn).moved
  rw [Trail.uri_eq, h.path, queryPart, hentries, hmoved, if_pos rfl, if_pos rfl,
    String.append_empty, String.append_empty]

end Trail

namespace Expr.IsPlain
variable {tree : Expr}

theorem eq_root (h : tree.IsPlain) (hf : ∀ source link node, tree ≠ .follow source link node) :
    ∃ name node, tree = .root (.entitySet name) node := by
  cases tree with
  | root start node =>
    cases start with
    | entitySet name => exact ⟨name, node, rfl⟩
    | serviceRoot => exact h.elim
  | follow source link node => exact absurd rfl (hf source link node)
  | _ => exact h.elim

theorem trail (h : tree.IsPlain) : tree.trail.IsPlain := by
  induction tree using origin.induct with
  | case1 source link node ih =>
    obtain ⟨hsource, hlink, hnode⟩ := h
    have ht := ih hsource
    refine ⟨ht.start, ht.decoration, ?_⟩
    intro entry he
    rcases List.mem_append.1 he with he | he
    · exact ht.links entry he
    · obtain rfl := List.mem_singleton.1 he
      exact ⟨hlink, hnode⟩
  | case2 e hf =>
    obtain ⟨name, node, rfl⟩ := h.eq_root hf
    exact ⟨⟨name, rfl, h.1⟩, h.2, List.forall_mem_nil _⟩

theorem isBound (h : tree.IsPlain) : tree.IsBound := by
  induction tree using origin.induct with
  | case1 source link node ih => exact ih h.1
  | case2 e hf =>
    obtain ⟨name, node, rfl⟩ := h.eq_root hf
    trivial

theorem faults (h : tree.IsPlain) : tree.faults = [] := by
  have hnodes : tree.trail.decorations.flatMap Decoration.faults = [] :=
    List.flatMap_eq_nil_iff.2 fun node hn => (h.trail.decorations node hn).faults
  rw [Expr.faults, hnodes, if_pos (tree.isBound_iff.1 h.isBound)]
  rfl

theorem answer (h : tree.IsPlain) (base : String) : (Service.ofBase base).request tree =
    .ok ⟨slashed base ++ stepsText tree.trail.steps, tree.requiredVersion⟩ := by
  rw [request_eq_answer, answer_eq_ok_iff, h.trail.uri]
  exact ⟨h.faults, rfl⟩

end Expr.IsPlain

/-- A plain resource has a URI, its steps are read back from it, and just the resources with the same
steps have the same URI. -/
theorem path_unambiguous (base : String) {tree : Expr} (h : tree.IsPlain) :
    ∃ r, (Service.ofBase base).request tree = .ok r ∧
      readSteps (slashed base) r.uri = some tree.trail.steps ∧
      ∀ other r', other.IsPlain → (Service.ofBase base).request other = .ok r' →
        (r'.uri = r.uri ↔ other.trail.steps = tree.trail.steps) := by
  have hread : ∀ {tree : Expr}, tree.IsPlain →
      readSteps (slashed base) (slashed base ++ stepsText tree.trail.steps) =
        some tree.trail.steps :=
    fun h => readSteps_stepsText (slashed base) (List.cons_ne_nil _ _) h.trail.steps
  refine ⟨_, h.answer base, hread h, ?_⟩
  intro other r' h' hr'
  rw [h'.answer base] at hr'
  obtain rfl := Except.ok.inj hr'
  constructor
  · intro hu
    have hs := (hread h').symm.trans ((congrArg (readSteps (slashed base)) hu).trans (hread h))
    exact Option.some.inj hs
  · intro hs
    exact congrArg (slashed base ++ stepsText ·) hs

/-- A key with all the signs that could be mistaken for its end. -/
def difficultLine : Expr :=
  .follow
    (.root (.entitySet "Orders")
      { key := [("Id", .string "7'),(x=%2F/")], cast := some { typeName := "S.Order" } })
    (.navigation "Lines") { key := [("No", .int32 (-3)), ("Open", .bool true)] }

def difficultLineUri : String :=
  "//h/Orders('7''),(x=%252F%2F')/S.Order/Lines(No=-3,Open=true)"

theorem difficultLine_unambiguous :
    (Service.ofBase "//h").request difficultLine = .ok ⟨difficultLineUri, .baseline⟩ ∧
      readSteps "//h/" difficultLineUri =
        some [⟨"Orders", [⟨none, .string "7'),(x=%2F/"⟩], some "S.Order"⟩,
          ⟨"Lines", [⟨some "No", .bare "-3"⟩, ⟨some "Open", .bare "true"⟩], none⟩] := by
  have hr : (Service.ofBase "//h").request difficultLine = .ok ⟨difficultLineUri, .baseline⟩ := rfl
  have hdotted : IsDotted "S.Order" :=
    ⟨"S", "Order", [], List.forall_mem_cons.2 ⟨isWord_of_all rfl rfl,
      List.forall_mem_singleton.2 (isWord_of_all rfl rfl)⟩, rfl⟩
  have horders : Decoration.IsPlain
      { key := [("Id", .string "7'),(x=%2F/")], cast := some { typeName := "S.Order" } } :=
    ⟨List.forall_mem_singleton.2 ⟨isWord_of_all rfl rfl, rfl⟩, fun cast hc =>
      Option.some.inj hc ▸ hdotted, rfl, rfl, rfl, rfl, rfl, rfl⟩
  have hlines : Decoration.IsPlain { key := [("No", .int32 (-3)), ("Open", .bool true)] } :=
    ⟨List.forall_mem_cons.2 ⟨⟨isWord_of_all rfl rfl, rfl⟩,
      List.forall_mem_singleton.2 ⟨isWord_of_all rfl rfl, rfl⟩⟩, by simp, rfl, rfl, rfl, rfl, rfl,
      rfl⟩
  have h : difficultLine.IsPlain :=
    ⟨⟨isWord_of_all rfl rfl, horders⟩, isWord_of_all rfl rfl, hlines⟩
  obtain ⟨r, hok, hread, -⟩ := path_unambiguous "//h" h
  obtain rfl := Except.ok.inj (hr.symm.trans hok)
  exact ⟨hr, hread⟩

end RequestUri
