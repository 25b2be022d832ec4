import RequestUri.Proofs.Edits

/-! A visit of a resource tree: down its sources to the root, and back along the trail, where each
node makes its edits. -/

namespace RequestUri

namespace Expr

/-- A tree is bound if each of its sources is a resource. -/
def IsBound : Expr → Prop
  | root .. => True
  | follow source _ _ => source.IsBound
  | _ => False

/-- What stands at the end of the sources. -/
def origin : Expr → Expr
  | follow source _ _ => source.origin
  | e => e

/- The trail of a tree that is not bound is never used. -/
def trail : Expr → Trail
  | root start decoration => { start, decoration }
  | follow source link decoration => source.trail.extend link decoration
  | _ => { start := .serviceRoot, decoration := {} }

def descent : Expr → List Mark
  | root start _ => [.note (.started start)]
  | follow source link node =>
    .note (.followed link) ::
      ((if source.kind ≠ .resource ∧ node.operation.isSome then [.note (.binding source.kind)]
        else []) ++ source.descent)
  | e => [.stop (.unsupportedKind e.kind)]

/-- Induction along the sources, down to the root or to what is no resource. -/
@[elab_as_elim]
theorem sourceInduction {motive : Expr → Prop}
    (follow : ∀ source link node, motive source → motive (follow source link node))
    (root : ∀ start node, motive (root start node))
    (scalar : ∀ e : Expr, e.kind ≠ .resource → motive e) (e : Expr) : motive e := by
  induction e using origin.induct with
  | case1 source link node ih => exact follow source link node ih
  | case2 e h =>
    cases e with
    | follow source link node => exact absurd rfl (h source link node)
    | root start node => exact root start node
    | _ => exact scalar _ (by simp [kind])

theorem origin_of_kind {e : Expr} (h : e.kind ≠ .resource) : e.origin = e := by
  cases e <;> simp_all [origin, kind]

theorem start_of_kind {e : Expr} (h : e.kind ≠ .resource) : e.trail.start = .serviceRoot := by
  cases e <;> simp_all [trail, kind]

theorem descent_of_kind {e : Expr} (h : e.kind ≠ .resource) :
    e.descent = [.stop (.unsupportedKind e.kind)] := by
  cases e <;> simp_all [descent, kind]

theorem kind_of_isBound {e : Expr} (h : e.IsBound) : e.kind = .resource := by
  cases e with
  | root start node => rfl
  | follow source link node => rfl
  | _ => cases h

theorem isBound_iff (e : Expr) : e.IsBound ↔ e.origin.kind = .resource := by
  induction e using sourceInduction with
  | follow source link node ih => exact ih
  | root start node => simp [IsBound, origin, kind]
  | scalar e h =>
    rw [origin_of_kind h]
    exact ⟨kind_of_isBound, fun hk => absurd hk h⟩

theorem faults_descent (e : Expr) : e.descent.filterMap Mark.fault? =
    if e.origin.kind = .resource then [] else [.unsupportedKind e.origin.kind] := by
  induction e using sourceInduction with
  | follow source link node ih =>
    rw [origin, descent]
    split <;> simpa [Mark.fault?, List.filterMap_cons] using ih
  | root start node => rfl
  | scalar e h =>
    rw [origin_of_kind h, descent_of_kind h, if_neg h]
    rfl

theorem versions_descent (e : Expr) : e.descent.filterMap Mark.version? = [] := by
  induction e using sourceInduction with
  | follow source link node ih =>
    rw [descent]
    split <;> simpa [Mark.version?, List.filterMap_cons] using ih
  | root start node => rfl
  | scalar e h =>
    rw [descent_of_kind h]
    rfl

theorem versions_down (e : Expr) : (e.descent.map Edit.mark).filterMap Edit.version? = [] := by
  rw [List.filterMap_map]
  exact versions_descent e

theorem origin_cases (e : Expr) :
    e.origin.kind ≠ .resource ∨ ∃ node, e.origin = .root e.trail.start node := by
  induction e using sourceInduction with
  | follow source link node ih => exact ih
  | root start node => exact .inr ⟨node, rfl⟩
  | scalar e h =>
    rw [origin_of_kind h]
    exact .inl h

theorem start_of_origin {e : Expr} {start : Start} {node : Decoration Expr}
    (h : e.origin = .root start node) : e.trail.start = start := by
  rcases e.origin_cases with hk | ⟨node', hn⟩
  · rw [h] at hk
    exact absurd rfl hk
  · rw [h] at hn
    exact (root.inj hn).1.symm

/- What is no resource has no entity set at the start of its trail. -/
theorem isBound_of_start {e : Expr} {name : String} (h : e.trail.start = .entitySet name) :
    e.IsBound := by
  induction e using sourceInduction with
  | follow source link node ih => exact ih h
  | root start node => trivial
  | scalar e hk =>
    rw [start_of_kind hk] at h
    cases h

end Expr

section Takes
open Trail

theorem walk_of_kind (bind : Expr → Except Fault Expr) (onward : Expr → Run Journal Trail) {e : Expr}
    (h : e.kind ≠ .resource) : walk bind onward e = throw (.unsupportedKind e.kind) := by
  cases e <;> simp_all [walk, Expr.kind]

theorem walk_takes {onward : Expr → Run Journal Trail}
    (ho : ∀ e : Expr, e.kind ≠ .resource → Takes (onward e) e.descent e.trail) (e : Expr) :
    Takes (walk .ok onward e) e.descent e.trail := by
  induction e using Expr.sourceInduction with
  | follow source link node ih =>
    rw [walk, Expr.descent, Expr.trail]
    refine Takes.bind (Mark.note_takes (.followed link)) ?_
    by_cases h : source.kind ≠ .resource ∧ node.operation.isSome
    · -- the source is bound to itself and the walk goes on behind it
      rw [if_pos h, if_pos h]
      have hbound : Takes (do
          modify (·.note (.binding source.kind))
          onward (← walk.liftExcept (.ok source)))
          ([.note (.binding source.kind)] ++ source.descent) source.trail :=
        (Mark.note_takes (.binding source.kind)).bind (ho source h.1)
      exact hbound.bind_pure fun trail => trail.extend link node
    · rw [if_neg h, if_neg h]
      exact ih.bind_pure fun trail => trail.extend link node
  | root start node =>
    exact (Mark.note_takes (.started start)).bind_pure fun _ =>
      { start, decoration := node : Trail }
  | scalar e h =>
    rw [walk_of_kind _ _ h, Expr.descent_of_kind h]
    exact Takes.throw _ rfl

/- However often a source is bound to itself, it stays what it is. -/
theorem within_takes (n : Nat) (e : Expr) : Takes (within .ok n e) e.descent e.trail := by
  induction n generalizing e with
  | zero =>
    apply walk_takes
    intro e he
    rw [Expr.descent_of_kind he]
    exact Takes.throw _ rfl
  | succ n ih => exact walk_takes (fun e _ => ih e) e

theorem trail_takes {service : Service} (hb : service.bind = .ok) (tree : Expr) :
    Takes (service.trail tree) tree.descent tree.trail := by
  rw [Service.trail, hb]
  exact within_takes bindingLimit tree

/- A bound tree never asks what a source is bound to. -/
theorem walk_takes_of_isBound (bind : Expr → Except Fault Expr) (onward : Expr → Run Journal Trail)
    {e : Expr} (h : e.IsBound) : Takes (walk bind onward e) e.descent e.trail := by
  induction e using Expr.sourceInduction with
  | follow source link node ih =>
    have hsource : ¬ (source.kind ≠ .resource ∧ node.operation.isSome) := by
      simp [Expr.kind_of_isBound (show source.IsBound from h)]
    rw [walk, Expr.descent, Expr.trail, if_neg hsource, if_neg hsource]
    refine Takes.bind (Mark.note_takes (.followed link)) ?_
    exact (ih h).bind_pure fun trail => trail.extend link node
  | root start node =>
    exact (Mark.note_takes (.started start)).bind_pure fun _ =>
      { start, decoration := node : Trail }
  | scalar e hk => exact absurd (Expr.kind_of_isBound h) hk

theorem trail_takes_of_isBound (service : Service) {tree : Expr} (h : tree.IsBound) :
    Takes (service.trail tree) tree.descent tree.trail := by
  rw [Service.trail]
  cases bindingLimit with
  | zero => exact walk_takes_of_isBound service.bind _ h
  | succ n => exact walk_takes_of_isBound service.bind _ h

end Takes

namespace Start

def address (service : Service) : Start → String
  | entitySet name => service.collection name
  | serviceRoot => service.root

end Start

namespace Trail

def decorations (t : Trail) : List (Decoration Expr) := t.decoration :: t.links.map Prod.snd

/-- The nodes of a trail that starts at `address`, each with the text that leads to it. -/
def nodes (address : String) (t : Trail) : List (String × Decoration Expr) :=
  (address, t.decoration) :: t.links.map fun (link, node) => ("/" ++ link.member, node)

theorem flatMap_nodes {β : Type} (g : Decoration Expr → List β) (address : String) (t : Trail) :
    (t.nodes address).flatMap (fun stop => g stop.2) = t.decorations.flatMap g := by
  simp [nodes, decorations, List.flatMap_map]

def edits (service : Service) (t : Trail) : List Edit :=
  (t.nodes (t.start.address service)).flatMap fun (text, node) =>
    Edit.push text :: node.edits service

end Trail

/-- An entity set needs a draft without a path; the service root goes anywhere. -/
def Draft.Admits (d : Draft) : Start → Prop
  | .entitySet _ => d.path = ""
  | .serviceRoot => True

theorem Draft.admits_of_path {d : Draft} (h : d.path = "") (start : Start) : d.Admits start := by
  cases start with
  | entitySet name => exact h
  | serviceRoot => trivial

theorem Draft.begin_run (service : Service) {start : Start} {d : Draft} (h : d.Admits start) :
    (begin service start).run d = (.ok (), d.push (start.address service)) := by
  cases start with
  | entitySet name =>
    change (if d.path = "" then set (d.push (service.collection name))
      else throw (.misplacedEntitySet name d.path) : Run Draft Unit).run d = _
    rw [if_pos (show d.path = "" from h)]
    rfl
  | serviceRoot => rfl

theorem Draft.begin_run_misplaced (service : Service) (name : String) {d : Draft} (hd : d.path ≠ "") :
    (begin service (.entitySet name)).run d = (.error (.misplacedEntitySet name d.path), d) := by
  change (if d.path = "" then set (d.push (service.collection name))
    else throw (.misplacedEntitySet name d.path) : Run Draft Unit).run d = _
  rw [if_neg hd]
  rfl

theorem along_run_misplaced (service : Service) {t : Trail} {name : String}
    (hs : t.start = .entitySet name) {d : Draft} (hd : d.path ≠ "") :
    (Draft.along service t).run d = (.error (.misplacedEntitySet name d.path), d) := by
  rw [Draft.along, run_bind, hs, Draft.begin_run_misplaced service name hd]

/-- The way down a bound tree leaves notes in the journal, whatever the service, and nothing else. -/
theorem descent_run (service : Service) {tree : Expr} (h : tree.IsBound) (d : Draft) :
    ∃ j, j.version = d.journal.version ∧ (Draft.journaled (service.trail tree)).run d =
      (.ok tree.trail, { d with journal := j }) := by
  have hfaults : (tree.descent.map Edit.mark).filterMap Act.fault? = [] := by
    rw [List.filterMap_map]
    exact tree.faults_descent.trans (if_pos (tree.isBound_iff.1 h))
  have hversion := Edit.version_actAll (tree.descent.map Edit.mark) d
  rw [tree.versions_down] at hversion
  -- the same course once as edits of the draft, which are all done, and once as marks
  have hmarks := Edit.carry_mark tree.trail tree.descent d
  have hboth := hmarks.symm.trans (carry_of_faultless tree.trail _ d hfaults)
  have hok : (carry tree.trail tree.descent d.journal).1 = .ok tree.trail := congrArg Prod.fst hboth
  refine ⟨_, (congrArg (·.2.journal.version) hboth).trans hversion, ?_⟩
  rw [journaled_takes (trail_takes_of_isBound service h) d, hmarks, hok]

/-- An entity set behind other text ends the visit before any node is written. -/
theorem visit_run_misplaced (service : Service) {tree : Expr} {name : String}
    (hs : tree.trail.start = .entitySet name) {d : Draft} (hd : d.path ≠ "") :
    ∃ j, j.version = d.journal.version ∧ (Draft.visit service tree).run d =
      (.error (.misplacedEntitySet name d.path), { d with journal := j }) := by
  obtain ⟨j, hj, hdown⟩ := descent_run service (Expr.isBound_of_start hs) d
  refine ⟨j, hj, ?_⟩
  rw [Draft.visit, run_bind, hdown]
  exact along_run_misplaced service hs hd

section Run
variable {service : Service} (hw : service.Writes)
include hw

theorem along_run (t : Trail) (d : Draft) (hd : d.Admits t.start) :
    (Draft.along service t).run d = carry () (t.edits service) d := by
  have hlinks : ∀ entry ∈ t.links, Takes (do
      modify (·.push ("/" ++ entry.1.member))
      Draft.decorate service entry.2)
      (Edit.push ("/" ++ entry.1.member) :: entry.2.edits service) () := by
    intro entry _
    exact Takes.bind (u := [_]) (Takes.modify rfl fun _ => rfl) (decorate_takes hw entry.2)
  have hedits : t.edits service = Edit.push (t.start.address service) ::
      (t.decoration.edits service ++
        t.links.flatMap fun entry =>
          Edit.push ("/" ++ entry.1.member) :: entry.2.edits service) := by
    simp [Trail.edits, Trail.nodes, List.flatMap_map]
  rw [Draft.along, run_bind, Draft.begin_run service hd, hedits, carry_cons_none _ _ _ rfl]
  exact Takes.bind (decorate_takes hw t.decoration) (Takes.forM t.links hlinks) _

theorem visit_run_of_admits (hb : service.bind = .ok) (tree : Expr) (d : Draft)
    (hd : d.Admits tree.trail.start) :
    (Draft.visit service tree).run d =
      carry () (tree.descent.map Edit.mark ++ tree.trail.edits service) d := by
  rw [Draft.visit, run_bind, journaled_takes (trail_takes hb tree) d, carry_append tree.trail,
    Edit.carry_mark]
  cases h : carry tree.trail tree.descent d.journal with
  | mk result j =>
    cases result with
    | ok t =>
      rw [eq_of_carry_ok h]
      -- the way down leaves the path as it is, so the start is still admitted
      exact along_run hw tree.trail { d with journal := j } hd
    | error fault => rfl

theorem visit_run (hb : service.bind = .ok) (tree : Expr) (d : Draft) (hd : d.path = "") :
    (Draft.visit service tree).run d =
      carry () (tree.descent.map Edit.mark ++ tree.trail.edits service) d :=
  visit_run_of_admits hw hb tree d (Draft.admits_of_path hd _)

end Run

def Draft.visited (service : Service) (tree : Expr) (d : Draft) : Draft :=
  ((visit service tree).run d).2

/-- The faults of a tree: first a source that is no resource, then those of the nodes. -/
def Expr.faults (tree : Expr) : List Fault :=
  (if tree.origin.kind = .resource then [] else [.unsupportedKind tree.origin.kind]) ++
    tree.trail.decorations.flatMap Decoration.faults

def Expr.edits (service : Service) (tree : Expr) : List Edit :=
  tree.descent.map Edit.mark ++ tree.trail.edits service

/- What the edits of a trail hold is what the edits of its nodes hold. -/
theorem Trail.filterMap_edits {β : Type} {f : Edit → Option β} {g : Decoration Expr → List β}
    {service : Service} (hp : ∀ text, f (.push text) = none)
    (hg : ∀ node : Decoration Expr, (node.edits service).filterMap f = g node) (t : Trail) :
    (t.edits service).filterMap f = t.decorations.flatMap g := by
  rw [edits, List.filterMap_flatMap]
  simp [nodes, decorations, List.flatMap_map, hp, hg]

theorem Expr.faults_edits (service : Service) (tree : Expr) :
    (tree.edits service).filterMap Edit.fault? = tree.faults := by
  have hd : (tree.descent.map Edit.mark).filterMap Edit.fault? =
      tree.descent.filterMap Mark.fault? := by
    rw [List.filterMap_map]
    rfl
  rw [edits, List.filterMap_append, hd, faults_descent,
    Trail.filterMap_edits (fun _ => rfl) (Decoration.faults_edits service), faults]

theorem Service.ofBase_writes (base : String) (style : KeyStyle) : (ofBase base style).Writes :=
  fun _ _ => rfl

section Request
variable {service : Service} (hw : service.Writes) (hb : service.bind = .ok)
include hw hb

theorem request_of_faultless (tree : Expr) (h : tree.faults = []) :
    service.request tree = .ok (Edit.actAll (tree.edits service) {}).request := by
  have hc : carry () (tree.edits service) {} = (.ok (), Edit.actAll (tree.edits service) {}) :=
    carry_of_faultless () (tree.edits service) {} ((tree.faults_edits service).trans h)
  rw [Service.request, Service.logged, visit_run hw hb tree {} rfl, ← Expr.edits, hc]

theorem request_of_fault (tree : Expr) {fault : Fault} (h : tree.faults.head? = some fault) :
    service.request tree = .error fault := by
  have hc : (carry () (tree.edits service) {}).1 = .error fault :=
    carry_of_fault () (tree.edits service) {} (by rw [← h, ← tree.faults_edits service]; rfl)
  rw [Service.request, Service.logged, visit_run hw hb tree {} rfl, ← Expr.edits]
  cases hr : carry () (tree.edits service) ({} : Draft) with
  | mk result d =>
    rw [hr] at hc
    rw [show result = .error fault from hc]

theorem request_eq_ok_iff (tree : Expr) (r : Request) : service.request tree = .ok r ↔
    tree.faults = [] ∧ r = (Edit.actAll (tree.edits service) {}).request := by
  cases hf : tree.faults with
  | nil => simp [request_of_faultless hw hb tree hf, eq_comm]
  | cons fault rest => simp [request_of_fault hw hb tree (show _ = some fault by rw [hf]; rfl)]

theorem request_eq_error_iff (tree : Expr) (fault : Fault) :
    service.request tree = .error fault ↔ tree.faults.head? = some fault := by
  cases hf : tree.faults with
  | nil => simp [request_of_faultless hw hb tree hf]
  | cons first rest => simp [request_of_fault hw hb tree (show _ = some first by rw [hf]; rfl)]

end Request

end RequestUri
