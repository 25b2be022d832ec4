import RequestUri.Proofs.Labels
import RequestUri.Proofs.Visit

/-! The URI of a bound tree in closed form, over its nodes from the root on. Labels depend only on
the names of the arguments that were moved before, and slashes only on the text before them. -/

namespace RequestUri

open AliasTable (label labels entriesFor allocate_of_entriesFor)
open OptionTable (grouped)

def movedArgument : String × Argument → Option (String × String)
  | (name, .structured text) => some (name, text)
  | (_, .primitive _) => none

def Operation.moved (operation : Operation) : List (String × String) :=
  if operation.isAction then [] else operation.parameters.filterMap movedArgument

/-- The arguments of a function, after arguments with the names `before` were moved. -/
def argumentTexts (before : List String) : List (String × Argument) → List String
  | [] => []
  | (name, .primitive text) :: rest => (name ++ "=" ++ text) :: argumentTexts before rest
  | (name, .structured _) :: rest =>
    (name ++ "=" ++ label (labels before) name) :: argumentTexts (before ++ [name]) rest

def Operation.text (before : List String) (operation : Operation) : String :=
  if operation.isAction then operation.name
  else operation.name ++ ("(" ++ String.intercalate "," (argumentTexts before operation.parameters)
    ++ ")")

def slashed (text : String) : String :=
  if text.toList.getLast? = some '/' then text else text ++ "/"

def Start.text (base : String) : Start → String
  | entitySet name => slashed base ++ name
  | serviceRoot => base

theorem Start.address_ofBase (base : String) (style : KeyStyle) (start : Start) :
    start.address (.ofBase base style) = start.text base := by
  cases start with
  | entitySet name =>
    rw [Start.text, slashed]
    change Service.join base name = _
    rw [Service.join]
    split <;> rfl
  | serviceRoot => rfl

namespace Decoration

def moved (node : Decoration Expr) : List (String × String) :=
  node.operation.toList.flatMap Operation.moved

def keyed (style : KeyStyle) (node : Decoration Expr) : String :=
  style.text (node.key.map fun (name, value) => (name, value.textAt .path))

def casted (node : Decoration Expr) : String :=
  match node.cast with
  | none => ""
  | some cast => "/" ++ cast.typeName

def invoked (before : List String) (text : String) (node : Decoration Expr) : String :=
  match node.operation with
  | none => text
  | some operation => slashed text ++ operation.text before

def counted (node : Decoration Expr) : String := if node.count = .segment then "/$count" else ""

def path (style : KeyStyle) (before : List String) (text : String) (node : Decoration Expr) :
    String :=
  node.invoked before (text ++ node.keyed style ++ node.casted) ++ node.counted

end Decoration

namespace Trail

def moved (t : Trail) : List (String × String) := t.decorations.flatMap Decoration.moved

def entries (t : Trail) : List (String × String) := t.decorations.flatMap Decoration.entries

def pathFrom (style : KeyStyle) (before : List String) (text : String) :
    List (String × Decoration Expr) → String
  | [] => text
  | (name, node) :: rest =>
    pathFrom style (before ++ node.moved.map Prod.fst) (node.path style before (text ++ name)) rest

def path (base : String) (style : KeyStyle) (t : Trail) : String :=
  pathFrom style [] "" (t.nodes (t.start.text base))

def query (t : Trail) : String :=
  String.intercalate "&" ((grouped t.entries).map fun (key, values) =>
    key ++ "=" ++ String.intercalate "," values)

def aliases (t : Trail) : String :=
  String.intercalate "&" ((entriesFor t.moved).map fun (label, value) => label ++ "=" ++ value)

def uri (base : String) (style : KeyStyle) (t : Trail) : String :=
  t.path base style ++ (if t.entries = [] then "" else "?" ++ t.query) ++
    (if t.moved = [] then "" else (if t.entries = [] then "?" else "&") ++ t.aliases)

end Trail

/-- The draft has the given path, and aliases for the given arguments. -/
structure Draft.Holds (d : Draft) (path : String) (moved : List (String × String)) : Prop where
  path : d.path = path
  aliases : d.aliases.entries = entriesFor moved

namespace Draft.Holds
variable {d : Draft} {path : String} {m : List (String × String)}

theorem push (h : d.Holds path m) (text : String) : (d.push text).Holds (path ++ text) m :=
  ⟨congrArg (· ++ text) h.path, h.aliases⟩

theorem endSegment (h : d.Holds path m) : d.endSegment.Holds (slashed path) m := by
  rw [Draft.endSegment, slashed, ← h.path]
  split
  · exact ⟨rfl, h.aliases⟩
  · exact ⟨rfl, h.aliases⟩

theorem arguments (h : d.Holds path m) (parameters : List (String × Argument)) :
    (d.arguments parameters).1 = argumentTexts (m.map Prod.fst) parameters ∧
      (d.arguments parameters).2.Holds path (m ++ parameters.filterMap movedArgument) := by
  induction parameters generalizing d m with
  | nil => simpa [Draft.arguments, argumentTexts] using h
  | cons parameter rest ih =>
    obtain ⟨name, value⟩ := parameter
    cases value with
    | primitive text =>
      obtain ⟨ht, hd⟩ := ih h
      exact ⟨congrArg (_ :: ·) ht, hd⟩
    | structured text =>
      -- the label depends only on the names before it, so the table gives the one foretold
      obtain ⟨hl, ha⟩ := allocate_of_entriesFor h.aliases name text
      have hnext : (d.argument name (.structured text)).2.Holds path (m ++ [(name, text)]) :=
        ⟨h.path, ha⟩
      obtain ⟨ht, hd⟩ := ih hnext
      rw [List.map_append, List.map_singleton] at ht
      rw [List.append_assoc] at hd
      refine ⟨?_, hd⟩
      rw [Draft.arguments, argumentTexts, ← ht, ← hl]
      rfl

theorem invoke (h : d.Holds path m) (operation : Operation) :
    (d.invoke operation).Holds (slashed path ++ operation.text (m.map Prod.fst))
      (m ++ operation.moved) := by
  have hname := h.endSegment.push operation.name
  obtain ⟨ht, hd⟩ := hname.arguments operation.parameters
  rw [Draft.invoke, Operation.text, Operation.moved]
  cases operation.isAction with
  | true => simpa using hname
  | false =>
    rw [← ht]
    have hend := hd.push ("(" ++ String.intercalate ","
      ((d.endSegment.push operation.name).arguments operation.parameters).1 ++ ")")
    exact ⟨hend.path.trans String.append_assoc, hend.aliases⟩

end Draft.Holds

namespace Edit
variable {d : Draft} {path : String} {m : List (String × String)}

theorem actAll_append (u v : List Edit) (d : Draft) :
    actAll (u ++ v) d = actAll v (actAll u d) := List.foldl_append

def isQuiet : Edit → Bool
  | add .. => true
  | mark _ => true
  | _ => false

theorem actAll_quiet (h : d.Holds path m) {edits : List Edit}
    (hq : ∀ edit ∈ edits, edit.isQuiet) : (actAll edits d).Holds path m := by
  induction edits generalizing d with
  | nil => exact h
  | cons edit edits ih =>
    have hrest : ∀ e ∈ edits, e.isQuiet := fun e he => hq e (List.mem_cons_of_mem edit he)
    have hedit := hq edit List.mem_cons_self
    cases edit with
    | add key value => exact ih (d := d.addOption key value) ⟨h.path, h.aliases⟩ hrest
    | mark m => exact ih (d := { d with journal := m.act d.journal }) ⟨h.path, h.aliases⟩ hrest
    | push text => cases hedit
    | invoke operation => cases hedit

theorem isQuiet_of_mem_optionEdits {node : Decoration Expr} {edit : Edit}
    (h : edit ∈ node.optionEdits) : edit.isQuiet := by
  simp only [Decoration.optionEdits, QueryOption.edits, List.mem_append, List.mem_flatMap,
    List.mem_map] at h
  rcases h with ⟨option, -, ⟨m, -, rfl⟩ | ⟨entry, -, rfl⟩⟩ | ⟨entry, -, rfl⟩ <;> rfl

theorem actAll_cast (h : d.Holds path m) (node : Decoration Expr) :
    (actAll (node.cast.toList.flatMap Cast.edits) d).Holds (path ++ node.casted) m := by
  rw [Decoration.casted]
  cases node.cast with
  | none =>
    rw [String.append_empty]
    exact h
  | some cast =>
    have hp := h.push ("/" ++ cast.typeName)
    exact ⟨hp.path, hp.aliases⟩

theorem actAll_invoke (h : d.Holds path m) (node : Decoration Expr) :
    (actAll (node.operation.toList.map invoke) d).Holds (node.invoked (m.map Prod.fst) path)
      (m ++ node.moved) := by
  rw [Decoration.invoked, Decoration.moved]
  cases node.operation with
  | none => simpa [actAll] using h
  | some operation => simpa [actAll, act] using h.invoke operation

theorem actAll_count (h : d.Holds path m) (node : Decoration Expr) :
    (actAll (if node.count = .segment then [push "/$count"] else []) d).Holds
      (path ++ node.counted) m := by
  rw [Decoration.counted]
  split
  · exact h.push "/$count"
  · rw [String.append_empty]
    exact h

theorem actAll_pathEdits (base : String) (style : KeyStyle) (h : d.Holds path m)
    (node : Decoration Expr) : (actAll (node.pathEdits (.ofBase base style)) d).Holds
      (node.path style (m.map Prod.fst) path) (m ++ node.moved) := by
  have hkey : keyText (.ofBase base style) node.key = node.keyed style := by
    rw [keyText, Decoration.keyed]
    cases node.key with
    | nil => cases style <;> rfl
    | cons entry rest => rfl
  have hkeyed : (actAll [mark (.need node.version), push (node.keyed style)] d).Holds
      (path ++ node.keyed style) m :=
    ⟨congrArg (· ++ node.keyed style) h.path, h.aliases⟩
  rw [Decoration.pathEdits, hkey, actAll_append, actAll_append, actAll_append]
  exact actAll_count (actAll_invoke (actAll_cast hkeyed node) node) node

theorem actAll_node (base : String) (style : KeyStyle) (h : d.Holds path m)
    (node : Decoration Expr) : (actAll (node.edits (.ofBase base style)) d).Holds
      (node.path style (m.map Prod.fst) path) (m ++ node.moved) := by
  rw [Decoration.edits, actAll_append]
  exact actAll_quiet (actAll_pathEdits base style h node) fun _ => isQuiet_of_mem_optionEdits

/- Along the trail, each node starts from the path and the labels that the nodes before it left. -/
theorem actAll_nodes (base : String) (style : KeyStyle) (h : d.Holds path m)
    (nodes : List (String × Decoration Expr)) :
    (actAll (nodes.flatMap fun (text, node) => push text :: node.edits (.ofBase base style))
      d).Holds (Trail.pathFrom style (m.map Prod.fst) path nodes)
        (m ++ nodes.flatMap fun (_, node) => node.moved) := by
  induction nodes generalizing d path m with
  | nil => simpa [actAll, Trail.pathFrom] using h
  | cons entry nodes ih =>
    obtain ⟨text, node⟩ := entry
    have hnode := ih (actAll_node base style (h.push text) node)
    rw [List.map_append, List.append_assoc] at hnode
    rw [List.flatMap_cons, actAll_append]
    exact hnode

end Edit

theorem Draft.uri_of_trail {d : Draft} {base : String} {style : KeyStyle} {t : Trail}
    (h : d.Holds (t.path base style) t.moved)
    (ho : d.options = OptionTable.addAll {} t.entries) : d.uri = t.uri base style := by
  have hoptions : d.options.isEmpty = t.entries.isEmpty := by
    rw [ho, OptionTable.isEmpty_addAll]
  have hquery : d.options.text = t.query := by
    rw [ho, OptionTable.text, OptionTable.buckets_addAll]
    rfl
  have haliases : d.aliases.isEmpty = t.moved.isEmpty := by
    rw [AliasTable.isEmpty, h.aliases, Bool.eq_iff_iff, List.isEmpty_iff_length_eq_zero,
      List.isEmpty_iff_length_eq_zero, AliasTable.length_entriesFor]
  have htext : d.aliases.text = t.aliases := by
    rw [AliasTable.text, h.aliases]
    rfl
  simp only [Draft.uri, Trail.uri, h.path, hoptions, hquery, haliases, htext, List.isEmpty_iff]

namespace Expr
variable (base : String) (style : KeyStyle) (tree : Expr)

theorem holds_edits : (Edit.actAll (tree.edits (.ofBase base style)) {}).Holds
    (tree.trail.path base style) tree.trail.moved := by
  have hquiet : ∀ edit ∈ tree.descent.map Edit.mark, edit.isQuiet := by
    intro edit he
    obtain ⟨m, -, rfl⟩ := List.mem_map.1 he
    rfl
  have hstart : (Edit.actAll (tree.descent.map Edit.mark) {}).Holds "" [] :=
    Edit.actAll_quiet ⟨rfl, rfl⟩ hquiet
  have htrail := Edit.actAll_nodes base style hstart (tree.trail.nodes (tree.trail.start.text base))
  have hmoved := tree.trail.flatMap_nodes Decoration.moved (tree.trail.start.text base)
  rw [List.nil_append, List.map_nil, ← Trail.path, hmoved, ← Trail.moved] at htrail
  rw [Expr.edits, Edit.actAll_append, Trail.edits, Start.address_ofBase]
  exact htrail

theorem options_edits : (Edit.actAll (tree.edits (.ofBase base style)) {}).options =
    OptionTable.addAll {} tree.trail.entries := by
  have hd : (tree.descent.map Edit.mark).filterMap Edit.entry? = [] := by
    simp [List.filterMap_map, Function.comp_def, Edit.entry?]
  rw [Edit.options_actAll, Expr.edits, List.filterMap_append, hd,
    Trail.filterMap_edits (fun _ => rfl) (Decoration.entries_edits _)]
  rfl

theorem uri_edits : (Edit.actAll (tree.edits (.ofBase base style)) {}).uri =
    tree.trail.uri base style := by
  exact Draft.uri_of_trail (holds_edits base style tree) (options_edits base style tree)

end Expr

/-- The closed form of the URI, for every tree that has one. -/
theorem uri_of_request (base : String) (style : KeyStyle) (tree : Expr) (r : Request)
    (h : (Service.ofBase base style).request tree = .ok r) :
    r.uri = tree.trail.uri base style := by
  obtain ⟨-, rfl⟩ := (request_eq_ok_iff (Service.ofBase_writes base style) rfl tree r).1 h
  exact Expr.uri_edits base style tree

/-- Lines of an order near two places: both nodes filter, and both places want the same label. -/
def linesNear : Expr :=
  .follow
    (.root (.entitySet "Orders")
      { key := [("Id", .int32 7)]
        cast := some { typeName := "S.Order", version := .v401 }
        options := [.filter (.binary .gt (.property "Total") (.literal (.int32 5)))] })
    (.navigation "Lines")
    { operation := some
        { name := "Near", isAction := false
          parameters := [("p", .structured "[1]"), ("p", .structured "[2]"), ("q", .primitive "1")] }
      count := .segment
      options := [.orderBy [], .filter (.property "Open")] }

def linesNearUri : String :=
  "//h/Orders/7/S.Order/Lines/Near(p=@p,p=@p1,q=1)/$count" ++
    "?$filter=Total gt 5,Open&@p=[1]&@p1=[2]"

theorem uri_of_linesNear :
    (Service.ofBase "//h" .slash).request linesNear = .ok ⟨linesNearUri, .v401⟩ ∧
      linesNearUri = linesNear.trail.uri "//h" .slash := by
  have h : (Service.ofBase "//h" .slash).request linesNear = .ok ⟨linesNearUri, .v401⟩ := rfl
  exact ⟨h, uri_of_request "//h" .slash linesNear ⟨linesNearUri, .v401⟩ h⟩

end RequestUri
