import Mathlib.Data.List.Forall2
import RequestUri.Proofs.Visit

/-! What two services have in common. They make the same edits up to the texts that they push, and
an edit looks at the path only to write on it; so all but the path comes out the same. -/

namespace RequestUri

structure Draft.Alike (d d' : Draft) : Prop where
  aliases : d.aliases = d'.aliases
  options : d.options = d'.options
  journal : d.journal = d'.journal

namespace Draft.Alike
variable {d d' d'' : Draft}

theorem symm (h : d.Alike d') : d'.Alike d := ⟨h.aliases.symm, h.options.symm, h.journal.symm⟩

theorem trans (h : d.Alike d') (h' : d'.Alike d'') : d.Alike d'' :=
  ⟨h.aliases.trans h'.aliases, h.options.trans h'.options, h.journal.trans h'.journal⟩

theorem push (h : d.Alike d') (text text' : String) : (d.push text).Alike (d'.push text') :=
  ⟨h.aliases, h.options, h.journal⟩

/- Whether the slash is written depends on the path, but it goes nowhere else. -/
theorem endSegment (h : d.Alike d') : d.endSegment.Alike d'.endSegment := by
  have hend : ∀ d : Draft, d.Alike d.endSegment := by
    intro d
    rw [Draft.endSegment]
    split <;> exact ⟨rfl, rfl, rfl⟩
  exact (hend d).symm.trans (h.trans (hend d'))

theorem argument (h : d.Alike d') (name : String) (value : Argument) :
    (d.argument name value).1 = (d'.argument name value).1 ∧
      (d.argument name value).2.Alike (d'.argument name value).2 := by
  cases value with
  | primitive text => exact ⟨rfl, h⟩
  | structured text =>
    refine ⟨?_, ?_, h.options, ?_⟩
    · simp [Draft.argument, h.aliases]
    · simp [Draft.argument, h.aliases]
    · simp [Draft.argument, h.aliases, h.journal]

theorem arguments (h : d.Alike d') (parameters : List (String × Argument)) :
    (d.arguments parameters).1 = (d'.arguments parameters).1 ∧
      (d.arguments parameters).2.Alike (d'.arguments parameters).2 := by
  induction parameters generalizing d d' with
  | nil => exact ⟨rfl, h⟩
  | cons parameter rest ih =>
    obtain ⟨name, value⟩ := parameter
    obtain ⟨htext, hnext⟩ := h.argument name value
    obtain ⟨htexts, hrest⟩ := ih hnext
    refine ⟨?_, hrest⟩
    simp only [Draft.arguments, htext, htexts]

theorem invoke (h : d.Alike d') (operation : Operation) :
    (d.invoke operation).Alike (d'.invoke operation) := by
  have hname := h.endSegment.push operation.name operation.name
  rw [Draft.invoke, Draft.invoke]
  cases operation.isAction with
  | true => exact hname
  | false => exact (hname.arguments operation.parameters).2.push _ _

end Draft.Alike

namespace Edit

/-- Edits that differ at most in the text that they push. -/
inductive Alike : Edit → Edit → Prop
  | push (text text' : String) : Alike (push text) (push text')
  | refl (edit : Edit) : Alike edit edit

theorem Alike.fault? {e e' : Edit} (h : e.Alike e') : e.fault? = e'.fault? := by
  cases h with
  | push text text' => rfl
  | refl => rfl

theorem Alike.act {e e' : Edit} (h : e.Alike e') {d d' : Draft} (hd : d.Alike d') :
    (e.act d).Alike (e'.act d') := by
  cases h with
  | push text text' => exact hd.push text text'
  | refl =>
    cases e with
    | push text => exact hd.push text text
    | invoke operation => exact hd.invoke operation
    | add key value => exact ⟨hd.aliases, congrArg (·.add key value) hd.options, hd.journal⟩
    | mark m => exact ⟨hd.aliases, hd.options, congrArg m.act hd.journal⟩

theorem forall₂_alike_refl (edits : List Edit) : List.Forall₂ Alike edits edits :=
  List.forall₂_same.2 fun edit _ => .refl edit

end Edit

/-- Two runs side by side: they end at the same edit, in the same way, and in drafts that are
alike. -/
theorem carry_alike {α : Type} (a : α) {edits edits' : List Edit}
    (h : List.Forall₂ Edit.Alike edits edits') {d d' : Draft} (hd : d.Alike d') :
    (carry a edits d).1 = (carry a edits' d').1 ∧
      (carry a edits d).2.Alike (carry a edits' d').2 := by
  induction h generalizing d d' with
  | nil => exact ⟨rfl, hd⟩
  | @cons e e' edits edits' he _ ih =>
    cases hf : e.fault? with
    | none =>
      rw [carry_cons_none a edits d hf, carry_cons_none a edits' d' (he.fault?.symm.trans hf)]
      exact ih (he.act hd)
    | some fault =>
      rw [carry_cons_some a edits d hf, carry_cons_some a edits' d' (he.fault?.symm.trans hf)]
      exact ⟨rfl, hd⟩

section Services
variable (service service' : Service)

theorem Decoration.edits_alike (node : Decoration Expr) :
    List.Forall₂ Edit.Alike (node.edits service) (node.edits service') := by
  have hkey : List.Forall₂ Edit.Alike
      [.mark (.need node.version), .push (keyText service node.key)]
      [.mark (.need node.version), .push (keyText service' node.key)] :=
    .cons (.refl _) (.cons (.push _ _) .nil)
  rw [edits, edits, pathEdits, pathEdits]
  exact List.rel_append (List.rel_append hkey (Edit.forall₂_alike_refl _))
    (Edit.forall₂_alike_refl _)

/- The nodes of a trail are the same, but the texts that lead to them need not be. -/
theorem Trail.edits_alike (t : Trail) :
    List.Forall₂ Edit.Alike (t.edits service) (t.edits service') := by
  have hnodes : List.Forall₂ (fun stop stop' => stop.2 = stop'.2) 
      (t.nodes (t.start.address service)) (t.nodes (t.start.address service')) :=
    .cons rfl (List.forall₂_same.2 fun _ _ => rfl)
  refine List.rel_flatMap hnodes ?_
  rintro ⟨text, node⟩ ⟨text', node'⟩ rfl
  exact .cons (.push text text') (node.edits_alike service service')

theorem Expr.edits_alike (tree : Expr) :
    List.Forall₂ Edit.Alike (tree.edits service) (tree.edits service') :=
  List.rel_append (Edit.forall₂_alike_refl _) (tree.trail.edits_alike service service')

end Services

theorem Service.request_eq_map (service : Service) (tree : Expr) : service.request tree =
    ((Draft.visit service tree).run {}).1.map fun _ => (Draft.visited service tree {}).request := by
  rw [request, logged, Draft.visited]
  rcases (Draft.visit service tree).run {} with ⟨result, d⟩
  cases result <;> rfl

def Draft.queryPart (d : Draft) : String :=
  (if d.options.isEmpty then "" else "?" ++ d.options.text) ++
    (if d.aliases.isEmpty then "" else (if d.options.isEmpty then "?" else "&") ++ d.aliases.text)

theorem Draft.uri_eq (d : Draft) : d.uri = d.path ++ d.queryPart := by
  rw [uri, queryPart, String.append_assoc]

theorem Draft.Alike.queryPart {d d' : Draft} (h : d.Alike d') : d.queryPart = d'.queryPart := by
  rw [Draft.queryPart, Draft.queryPart, h.aliases, h.options]

theorem visit_alike {service service' : Service} (hw : service.Writes) (hw' : service'.Writes)
    (hb : service.bind = .ok) (hb' : service'.bind = .ok) (tree : Expr) :
    ((Draft.visit service tree).run {}).1 = ((Draft.visit service' tree).run {}).1 ∧
      (Draft.visited service tree {}).Alike (Draft.visited service' tree {}) := by
  rw [Draft.visited, Draft.visited, visit_run hw hb tree {} rfl, visit_run hw' hb' tree {} rfl]
  exact carry_alike () (tree.edits_alike service service') ⟨rfl, rfl, rfl⟩

/-- Only a key of a single property tells the styles apart. -/
theorem KeyStyle.text_eq (style style' : KeyStyle) (pairs : List (String × String))
    (h : pairs.length ≠ 1) : style.text pairs = style'.text pairs := by
  rcases pairs with _ | ⟨pair, _ | ⟨next, rest⟩⟩
  · cases style <;> cases style' <;> rfl
  · exact absurd rfl h
  · cases style <;> cases style' <;> rfl

theorem Decoration.edits_eq (base : String) (style style' : KeyStyle) {node : Decoration Expr}
    (h : node.key.length ≠ 1) :
    node.edits (.ofBase base style) = node.edits (.ofBase base style') := by
  have hkey : keyText (.ofBase base style) node.key = keyText (.ofBase base style') node.key := by
    rw [keyText, keyText]
    split
    · rfl
    · exact style.text_eq style' _ (by rwa [List.length_map])
  rw [edits, edits, pathEdits, pathEdits, hkey]

theorem Trail.map_nodes (address : String) (t : Trail) :
    (t.nodes address).map Prod.snd = t.decorations := by
  simp [nodes, decorations, Function.comp_def]

theorem Expr.edits_eq (base : String) (style style' : KeyStyle) {tree : Expr}
    (h : ∀ node ∈ tree.trail.decorations, node.key.length ≠ 1) :
    tree.edits (.ofBase base style) = tree.edits (.ofBase base style') := by
  have haddress : tree.trail.start.address (.ofBase base style) =
      tree.trail.start.address (.ofBase base style') := rfl
  rw [← Trail.map_nodes (tree.trail.start.address (.ofBase base style'))] at h
  rw [edits, edits, Trail.edits, Trail.edits, haddress]
  congr 1
  apply List.flatMap_congr
  intro stop hs
  have hnode := Decoration.edits_eq base style style' (h stop.2 (List.mem_map_of_mem hs))
  exact congrArg (Edit.push stop.1 :: ·) hnode

/-- The base and the key style change nothing but the path: the requests fail with the same fault,
or both are made, with the same version, options and aliases, and so with the same text behind their
paths. From one base, the key style makes no difference to a tree without keys of a single
property. -/
theorem same_behind_path (base base' : String) (style style' : KeyStyle) (tree : Expr) :
    ((∃ fault, (Service.ofBase base style).request tree = .error fault ∧
        (Service.ofBase base' style').request tree = .error fault) ∨
      ∃ r r', (Service.ofBase base style).request tree = .ok r ∧
        (Service.ofBase base' style').request tree = .ok r' ∧
        r.version = r'.version ∧
        (Draft.visited (.ofBase base style) tree {}).options =
          (Draft.visited (.ofBase base' style') tree {}).options ∧
        (Draft.visited (.ofBase base style) tree {}).aliases =
          (Draft.visited (.ofBase base' style') tree {}).aliases ∧
        ∃ rest, r.uri = (Draft.visited (.ofBase base style) tree {}).path ++ rest ∧
          r'.uri = (Draft.visited (.ofBase base' style') tree {}).path ++ rest) ∧
    (base = base' → (∀ node ∈ tree.trail.decorations, node.key.length ≠ 1) →
      (Service.ofBase base style).request tree = (Service.ofBase base' style').request tree) := by
  have hw := Service.ofBase_writes base style
  have hw' := Service.ofBase_writes base' style'
  constructor
  · obtain ⟨hresult, hdraft⟩ := visit_alike hw hw' rfl rfl tree
    rw [Service.request_eq_map, Service.request_eq_map, hresult]
    cases ((Draft.visit (.ofBase base' style') tree).run {}).1 with
    | error fault => exact .inl ⟨fault, rfl, rfl⟩
    | ok =>
      refine .inr ⟨_, _, rfl, rfl, congrArg Journal.version hdraft.journal, hdraft.options,
        hdraft.aliases, (Draft.visited (.ofBase base' style') tree {}).queryPart, ?_, Draft.uri_eq _⟩
      exact (Draft.uri_eq _).trans (congrArg _ hdraft.queryPart)
  · rintro rfl hkeys
    rw [Service.request, Service.request, Service.logged, Service.logged, visit_run hw rfl tree {} rfl,
      visit_run hw' rfl tree {} rfl, ← Expr.edits, ← Expr.edits, Expr.edits_eq base style style' hkeys]

def linePriced : Expr :=
  .root (.entitySet "Lines")
    { key := [("Order", .int32 7), ("Line", .int32 2)]
      operation := some
        { name := "Price", isAction := false, parameters := [("at", .structured "[1]")] }
      options := [.filter (.binary .isIn (.property "Unit") (.list [.literal (.int32 1)]))] }

def linePricedRest : String := "?$filter=Unit in (1)&@at=[1]"

theorem same_behind_path_of_linePriced :
    (Service.ofBase "//h").request linePriced =
        .ok ⟨"//h/Lines(Order=7,Line=2)/Price(at=@at)" ++ linePricedRest, .v401⟩ ∧
      (Service.ofBase "//h" .slash).request linePriced = (Service.ofBase "//h").request linePriced ∧
      ∃ r, (Service.ofBase "//g/" .slash).request linePriced = .ok r ∧ r.version = .v401 ∧
        r.uri = (Draft.visited (.ofBase "//g/" .slash) linePriced {}).path ++ linePricedRest := by
  have h : (Service.ofBase "//h").request linePriced =
      .ok ⟨"//h/Lines(Order=7,Line=2)/Price(at=@at)" ++ linePricedRest, .v401⟩ := rfl
  have hpath : (Draft.visited (.ofBase "//h") linePriced {}).path =
      "//h/Lines(Order=7,Line=2)/Price(at=@at)" := rfl
  have hkeys : ∀ node ∈ linePriced.trail.decorations, node.key.length ≠ 1 := by
    simp [linePriced, Expr.trail, Trail.decorations]
  refine ⟨h, (same_behind_path "//h" "//h" .slash .parentheses linePriced).2 rfl hkeys, ?_⟩
  rcases (same_behind_path "//h" "//g/" .parentheses .slash linePriced).1 with
    ⟨fault, hf, -⟩ | ⟨r, r', hr, hr', hv, -, -, rest, hrest, hrest'⟩
  · rw [h] at hf
    cases hf
  · rw [h] at hr
    obtain rfl := Except.ok.inj hr
    have heq : linePricedRest = rest := by
      rw [hpath] at hrest
      exact (String.append_right_inj _).1 hrest
    exact ⟨r', hr', hv.symm, heq ▸ hrest'⟩

end RequestUri
