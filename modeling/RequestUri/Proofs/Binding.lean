import RequestUri.Proofs.Influence

/-! Sources that have to be bound. The way down a tree leaves nothing but notes in the journal, and
what is written afterwards does not depend on them; so a source may just as well be replaced by what
it is bound to before the request is made. -/

namespace RequestUri

variable {σ α β : Type}

/-- From states that are related, the computation ends in the same way, in states that are
related. -/
def Respects (R : σ → σ → Prop) (x : Run σ α) : Prop :=
  ∀ s s', R s s' → (x.run s).1 = (x.run s').1 ∧ R (x.run s).2 (x.run s').2

namespace Respects
variable {R : σ → σ → Prop}

theorem pure (a : α) : Respects R (Pure.pure a : Run σ α) := fun _ _ h => ⟨rfl, h⟩

theorem throw (fault : Fault) : Respects R (throw fault : Run σ α) := fun _ _ h => ⟨rfl, h⟩

theorem modify {f : σ → σ} (hf : ∀ s s', R s s' → R (f s) (f s')) :
    Respects R (modify f : Run σ Unit) := fun s s' h => ⟨rfl, hf s s' h⟩

theorem bind {x : Run σ α} {g : α → Run σ β} (hx : Respects R x) (hg : ∀ a, Respects R (g a)) :
    Respects R (x >>= g) := by
  intro s s' h
  have hend := hx s s' h
  rw [run_bind, run_bind]
  revert hend
  rcases x.run s with ⟨result, t⟩
  rcases x.run s' with ⟨result', t'⟩
  rintro ⟨rfl, hstate⟩
  cases result with
  | ok a => exact hg a t t' hstate
  | error fault => exact ⟨rfl, hstate⟩

theorem mapM {ι : Type} {f : ι → Run σ α} (hf : ∀ i, Respects R (f i)) (is : List ι) :
    Respects R (is.mapM f) := by
  induction is with
  | nil => exact pure []
  | cons i is ih =>
    rw [List.mapM_cons]
    exact (hf i).bind fun _ => ih.bind fun _ => pure _

theorem forM {ι : Type} {f : ι → Run σ Unit} (hf : ∀ i, Respects R (f i)) (is : List ι) :
    Respects R (is.forM f) := by
  induction is with
  | nil => exact pure ()
  | cons i is ih => exact (hf i).bind fun _ => ih

end Respects

def Journal.SameVersion (j j' : Journal) : Prop := j.version = j'.version

theorem Journal.SameVersion.raise {j j' : Journal} (h : j.SameVersion j') (v : Version) :
    (j.raise v).SameVersion (j'.raise v) := by
  rw [SameVersion, version_raise, version_raise, show j.version = j'.version from h]

structure Draft.SameContent (d d' : Draft) : Prop where
  path : d.path = d'.path
  aliases : d.aliases = d'.aliases
  options : d.options = d'.options
  version : d.journal.SameVersion d'.journal

namespace Draft.SameContent
variable {d d' d'' : Draft}

theorem symm (h : d.SameContent d') : d'.SameContent d :=
  ⟨h.path.symm, h.aliases.symm, h.options.symm, h.version.symm⟩

theorem trans (h : d.SameContent d') (h' : d'.SameContent d'') : d.SameContent d'' :=
  ⟨h.path.trans h'.path, h.aliases.trans h'.aliases, h.options.trans h'.options,
    h.version.trans h'.version⟩

theorem push (h : d.SameContent d') (text : String) : (d.push text).SameContent (d'.push text) :=
  ⟨congrArg (· ++ text) h.path, h.aliases, h.options, h.version⟩

theorem raise (h : d.SameContent d') (v : Version) : (d.raise v).SameContent (d'.raise v) :=
  ⟨h.path, h.aliases, h.options, h.version.raise v⟩

theorem addOption (h : d.SameContent d') (key value : String) :
    (d.addOption key value).SameContent (d'.addOption key value) :=
  ⟨h.path, h.aliases, congrArg (·.add key value) h.options, h.version⟩

theorem addOptions (h : d.SameContent d') (options : List (String × String)) :
    (d.addOptions options).SameContent (d'.addOptions options) := by
  induction options generalizing d d' with
  | nil => exact h
  | cons entry rest ih => exact ih (h.addOption entry.1 entry.2)

theorem endSegment (h : d.SameContent d') : d.endSegment.SameContent d'.endSegment := by
  rw [Draft.endSegment, Draft.endSegment, h.path]
  split
  · exact h
  · exact h.push "/"

theorem arguments (h : d.SameContent d') (parameters : List (String × Argument)) :
    (d.arguments parameters).1 = (d'.arguments parameters).1 ∧
      (d.arguments parameters).2.SameContent (d'.arguments parameters).2 := by
  induction parameters generalizing d d' with
  | nil => exact ⟨rfl, h⟩
  | cons parameter rest ih =>
    obtain ⟨name, value⟩ := parameter
    have hargument : (d.argument name value).1 = (d'.argument name value).1 ∧
        (d.argument name value).2.SameContent (d'.argument name value).2 := by
      cases value with
      | primitive text => exact ⟨rfl, h⟩
      | structured text =>
        refine ⟨?_, h.path, ?_, h.options, h.version⟩ <;> simp [Draft.argument, h.aliases]
    obtain ⟨htexts, hrest⟩ := ih hargument.2
    refine ⟨?_, hrest⟩
    simp only [Draft.arguments, hargument.1, htexts]

theorem invoke (h : d.SameContent d') (operation : Operation) :
    (d.invoke operation).SameContent (d'.invoke operation) := by
  have hname := h.endSegment.push operation.name
  obtain ⟨htexts, hrest⟩ := hname.arguments operation.parameters
  rw [Draft.invoke, Draft.invoke]
  cases operation.isAction with
  | true => exact hname
  | false =>
    dsimp only
    rw [htexts]
    exact hrest.push _

theorem request (h : d.SameContent d') : d.request = d'.request := by
  rw [Draft.request, Draft.request, Draft.uri, Draft.uri, h.path, h.aliases, h.options,
    show d.journal.version = d'.journal.version from h.version]

end Draft.SameContent

/-- The text of an operand can depend on the version that is needed so far, but not on anything else
in the journal. -/
def Service.FormatsByVersion (service : Service) : Prop :=
  ∀ e place, Respects Journal.SameVersion (service.format e place)

theorem Takes.respects {x : Run Journal α} {marks : List Mark} {a : α} (h : Takes x marks a) :
    Respects Journal.SameVersion x := by
  have hact : ∀ (m : Mark) j j', j.SameVersion j' → (m.act j).SameVersion (m.act j') := by
    intro m j j' hj
    cases m with
    | need version => exact hj.raise version
    | note event => exact hj
    | stop fault => exact hj
  intro j j' hj
  rw [h j, h j']
  clear h
  induction marks generalizing j j' with
  | nil => exact ⟨rfl, hj⟩
  | cons m marks ih =>
    cases hm : m.fault? with
    | none =>
      rw [carry_cons_none a marks j hm, carry_cons_none a marks j' hm]
      exact ih (m.act j) (m.act j') (hact m j j' hj)
    | some fault =>
      rw [carry_cons_some a marks j hm, carry_cons_some a marks j' hm]
      exact ⟨rfl, hj⟩

theorem Service.Writes.formatsByVersion {service : Service} (hw : service.Writes) :
    service.FormatsByVersion := by
  intro e place
  rw [hw]
  exact (e.write_takes place).respects

section Clause
variable {ε : Type} {R : Journal → Journal → Prop} {format : ε → Run Journal String}
  (hf : ∀ e, Respects R (format e))
include hf

theorem Aggregation.respects_entry (a : Aggregation ε) : Respects R (a.entry format) := by
  have hoperand : Respects R (a.operandText format) := by
    rw [operandText]
    split
    · exact Respects.pure ""
    · split
      · exact hf _
      · exact Respects.throw _
  rw [entry]
  split
  · exact Respects.throw _
  · exact hoperand.bind fun _ => Respects.pure _

theorem Apply.respects_pipeline (clause : Apply ε) : Respects R (clause.pipeline format) := by
  have hfilter : Respects R (clause.filterStage format) := by
    rw [filterStage]
    split
    · exact Respects.pure ""
    · exact (hf _).bind fun _ => Respects.pure _
  have haggregate : Respects R (clause.aggregateStage format) := by
    rw [aggregateStage]
    split
    · exact Respects.pure none
    · exact (Respects.mapM (Aggregation.respects_entry hf) _).bind fun _ => Respects.pure _
  rw [pipeline]
  split
  · exact Respects.pure none
  · refine hfilter.bind fun _ => haggregate.bind fun _ => (Respects.mapM hf _).bind fun _ => ?_
    split <;> exact Respects.pure _

theorem QueryOption.respects_entry (option : QueryOption ε) : Respects R (option.entry format) := by
  cases option with
  | skip amount => exact (hf amount).bind fun _ => Respects.pure _
  | top amount => exact (hf amount).bind fun _ => Respects.pure _
  | orderBy selectors =>
    have hselector : ∀ s : Selector ε, Respects R (s.entry format) := fun s =>
      (hf s.operand).bind fun _ => Respects.pure _
    rw [entry]
    split
    · exact Respects.pure none
    · exact (Respects.mapM hselector selectors).bind fun _ => Respects.pure _
  | filter predicate => exact (hf predicate).bind fun _ => Respects.pure _
  | apply clause => exact (clause.respects_pipeline hf).bind fun _ => Respects.pure _

end Clause

theorem respects_journaled {x : Run Journal α} (hx : Respects Journal.SameVersion x) :
    Respects Draft.SameContent (Draft.journaled x) := by
  intro d d' h
  obtain ⟨hresult, hversion⟩ := hx d.journal d'.journal h.version
  exact ⟨hresult, h.path, h.aliases, h.options, hversion⟩

theorem respects_begin (service : Service) (start : Start) :
    Respects Draft.SameContent (Draft.begin service start) := by
  intro d d' h
  cases start with
  | entitySet name =>
    by_cases hd : d.path = ""
    · have hd' : d'.path = "" := h.path.symm.trans hd
      rw [Draft.begin_run service (show d.Admits (.entitySet name) from hd),
        Draft.begin_run service (show d'.Admits (.entitySet name) from hd')]
      exact ⟨rfl, h.push _⟩
    · have hd' : d'.path ≠ "" := h.path ▸ hd
      rw [Draft.begin_run_misplaced service name hd, Draft.begin_run_misplaced service name hd',
        h.path]
      exact ⟨rfl, h⟩
  | serviceRoot => exact ⟨rfl, h.push _⟩

section Draft
variable {service : Service} (hs : service.FormatsByVersion)
include hs

theorem respects_decorate (node : Decoration Expr) :
    Respects Draft.SameContent (Draft.decorate service node) := by
  have hkeyed : Respects Draft.SameContent (Draft.keyed service node.key) := by
    rw [Draft.keyed]
    split
    · exact Respects.pure ()
    · refine Respects.bind (Respects.mapM (fun entry => ?_) node.key) fun pairs =>
        Respects.modify fun d d' h => h.push _
      exact (respects_journaled (hs _ _)).bind fun _ => Respects.pure _
  have hcast : Respects Draft.SameContent (Draft.castIf node.cast) := by
    cases node.cast with
    | none => exact Respects.pure ()
    | some cast => exact Respects.modify fun d d' h => (h.push _).raise _
  have hinvoke : Respects Draft.SameContent (Draft.invokeIf node.operation) := by
    cases node.operation with
    | none => exact Respects.pure ()
    | some operation => exact Respects.modify fun d d' h => h.invoke operation
  have hcount : Respects Draft.SameContent (Draft.countIf node.count) := by
    rw [Draft.countIf]
    split
    · exact Respects.modify fun d d' h => h.push _
    · exact Respects.pure ()
  have hoption : ∀ option, Respects Draft.SameContent (Draft.optional service option) := by
    intro option
    refine (respects_journaled (option.respects_entry fun e => hs e .query)).bind fun entry => ?_
    cases entry with
    | none => exact Respects.pure ()
    | some entry => exact Respects.modify fun d d' h => h.addOption _ _
  rw [Draft.decorate_eq]
  exact (Respects.modify fun d d' h => h.raise _).bind fun _ => hkeyed.bind fun _ =>
    hcast.bind fun _ => hinvoke.bind fun _ => hcount.bind fun _ =>
    (Respects.forM hoption node.options).bind fun _ => Respects.modify fun d d' h => h.addOptions _

theorem respects_along (t : Trail) : Respects Draft.SameContent (Draft.along service t) := by
  have hlink : ∀ entry : Link × Decoration Expr, Respects Draft.SameContent (do
      modify (·.push ("/" ++ entry.1.member))
      Draft.decorate service entry.2) := fun entry =>
    (Respects.modify fun d d' h => h.push _).bind fun _ => respects_decorate hs entry.2
  exact (respects_begin service t.start).bind fun _ =>
    (respects_decorate hs t.decoration).bind fun _ => Respects.forM hlink t.links

end Draft

/-- The computation ends with the result and leaves nothing but notes in the journal. -/
def Notes (x : Run Journal α) (result : Except Fault α) : Prop :=
  ∀ j, ∃ j', j'.SameVersion j ∧ x.run j = (result, j')

namespace Notes

theorem pure (a : α) : Notes (Pure.pure a : Run Journal α) (.ok a) := fun j => ⟨j, rfl, rfl⟩

theorem throw (fault : Fault) : Notes (throw fault : Run Journal α) (.error fault) :=
  fun j => ⟨j, rfl, rfl⟩

theorem note (event : Event) : Notes (modify (·.note event) : Run Journal Unit) (.ok ()) :=
  fun j => ⟨j.note event, rfl, rfl⟩

theorem bind {x : Run Journal α} {g : α → Run Journal β} {a : α} {result : Except Fault β}
    (hx : Notes x (.ok a)) (hg : Notes (g a) result) : Notes (x >>= g) result := by
  intro j
  obtain ⟨j', hj', hrun⟩ := hx j
  obtain ⟨j'', hj'', hrun'⟩ := hg j'
  exact ⟨j'', hj''.trans hj', by rw [run_bind, hrun]; exact hrun'⟩

theorem map {x : Run Journal α} {result : Except Fault α} (hx : Notes x result) (f : α → β) :
    Notes (x >>= fun a => Pure.pure (f a)) (result.map f) := by
  intro j
  obtain ⟨j', hj', hrun⟩ := hx j
  refine ⟨j', hj', ?_⟩
  rw [run_bind, hrun]
  cases result <;> rfl

end Notes

def Expr.through (e : Expr) (nodes : List (Link × Decoration Expr)) : Expr :=
  nodes.foldl (fun source (link, node) => .follow source link node) e

def Trail.through (t : Trail) (nodes : List (Link × Decoration Expr)) : Trail :=
  nodes.foldl (fun t (link, node) => t.extend link node) t

section Walk
open Trail
variable (bind : Expr → Except Fault Expr) (onward : Expr → Run Journal Trail)

theorem walk_follow {source : Expr} (hk : source.kind = .resource) {result : Except Fault Trail}
    (h : Notes (walk bind onward source) result) (link : Link) (node : Decoration Expr) :
    Notes (walk bind onward (.follow source link node)) (result.map (·.extend link node)) := by
  rw [walk, if_neg (by simp [hk])]
  exact (Notes.note (.followed link)).bind (h.map fun t => t.extend link node)

theorem walk_through {e : Expr} (hk : e.kind = .resource) {result : Except Fault Trail}
    (h : Notes (walk bind onward e) result) (nodes : List (Link × Decoration Expr)) :
    Notes (walk bind onward (e.through nodes)) (result.map (·.through nodes)) := by
  induction nodes generalizing e result with
  | nil => cases result <;> exact h
  | cons entry nodes ih =>
    have hnodes := ih rfl (walk_follow bind onward hk h entry.1 entry.2)
    cases result <;> exact hnodes

theorem walk_of_isBound {e : Expr} (h : e.IsBound) : Notes (walk bind onward e) (.ok e.trail) := by
  induction e using Expr.sourceInduction with
  | follow source link node ih =>
    have hk := Expr.kind_of_isBound (show source.IsBound from h)
    exact walk_follow bind onward hk (ih h) link node
  | root start node =>
    rw [walk]
    exact (Notes.note (.started start)).bind (Notes.pure (Expr.root start node).trail)
  | scalar e hk => exact absurd (Expr.kind_of_isBound h) hk

section Raw
variable {bind} {raw : Expr} (hk : raw.kind ≠ .resource) (link : Link) {node : Decoration Expr}
include hk

theorem walk_raw_bound (ho : node.operation.isSome) {bound : Expr} (hb : bind raw = .ok bound)
    {result : Except Fault Trail} (h : Notes (onward bound) result) :
    Notes (walk bind onward (.follow raw link node)) (result.map (·.extend link node)) := by
  rw [walk, if_pos ⟨hk, ho⟩, hb]
  refine (Notes.note (.followed link)).bind ((Notes.note (.binding raw.kind)).bind ?_)
  exact (Notes.pure bound).bind (h.map fun t => t.extend link node)

theorem walk_raw_refused (ho : node.operation.isSome) {fault : Fault}
    (hb : bind raw = .error fault) :
    Notes (walk bind onward (.follow raw link node)) (.error fault) := by
  rw [walk, if_pos ⟨hk, ho⟩, hb]
  refine (Notes.note (.followed link)).bind ((Notes.note (.binding raw.kind)).bind ?_)
  exact Notes.throw fault

theorem walk_raw_unbound (ho : node.operation = none) :
    Notes (walk bind onward (.follow raw link node)) (.error (.unsupportedKind raw.kind)) := by
  rw [walk, if_neg (by simp [ho]), walk_of_kind bind onward hk]
  refine (Notes.note (.followed link)).bind ?_
  exact Notes.throw (.unsupportedKind raw.kind)

end Raw

theorem within_of_isBound (n : Nat) {e : Expr} (h : e.IsBound) :
    Notes (within bind n e) (.ok e.trail) := by
  cases n with
  | zero => exact walk_of_isBound bind _ h
  | succ n => exact walk_of_isBound bind _ h

theorem within_of_kind (n : Nat) {e : Expr} (h : e.kind ≠ .resource) :
    Notes (within bind n e) (.error (.unsupportedKind e.kind)) := by
  cases n with
  | zero =>
    rw [within, walk_of_kind bind _ h]
    exact Notes.throw _
  | succ n =>
    rw [within, walk_of_kind bind _ h]
    exact Notes.throw _

end Walk

namespace Service
variable {service : Service} {tree tree' : Expr}

theorem visit_of_notes {result : Except Fault Trail} (h : Notes (service.trail tree) result) :
    ∃ d, d.SameContent {} ∧ (Draft.visit service tree).run {} = match result with
      | .ok t => (Draft.along service t).run d
      | .error fault => (.error fault, d) := by
  obtain ⟨j, hj, hrun⟩ := h {}
  refine ⟨{ journal := j }, ⟨rfl, rfl, rfl, hj⟩, ?_⟩
  have hdown : (Draft.journaled (service.trail tree)).run {} = (result, { journal := j }) := by
    change ((((service.trail tree).run {}).1, { journal := ((service.trail tree).run {}).2 }) :
      Except Fault Trail × Draft) = _
    rw [hrun]
  rw [Draft.visit, run_bind, hdown]
  cases result <;> rfl

theorem request_of_notes_error {fault : Fault} (h : Notes (service.trail tree) (.error fault)) :
    service.request tree = .error fault := by
  obtain ⟨d, -, hrun⟩ := visit_of_notes h
  rw [request_eq_map, hrun]
  rfl

/-- Trees with the same trail have the same request, whatever was noted on the way. -/
theorem request_of_notes_ok (hs : service.FormatsByVersion) {t : Trail}
    (h : Notes (service.trail tree) (.ok t)) (h' : Notes (service.trail tree') (.ok t)) :
    service.request tree = service.request tree' := by
  obtain ⟨d, hd, hrun⟩ := visit_of_notes h
  obtain ⟨d', hd', hrun'⟩ := visit_of_notes h'
  have hdraft : d.SameContent d' := hd.trans hd'.symm
  obtain ⟨hresult, hend⟩ := respects_along hs t d d' hdraft
  rw [request_eq_map, request_eq_map, Draft.visited, Draft.visited, hrun, hrun']
  dsimp only
  rw [hresult, hend.request]

end Service

/-- A source that is no resource can only be bound by the operation of the node right above it. If
it is bound to a tree that needs no further binding, the request is that of the tree with the bound
source in place of the raw one; in all other cases it fails with a fault that the nodes do not
change. -/
theorem request_of_raw_source (service : Service) (hs : service.FormatsByVersion) (raw : Expr)
    (hk : raw.kind ≠ .resource) (link : Link) (node : Decoration Expr)
    (above : List (Link × Decoration Expr)) :
    (node.operation.isSome →
      (∀ bound, service.bind raw = .ok bound → bound.IsBound →
        service.request ((Expr.follow raw link node).through above) =
          service.request ((Expr.follow bound link node).through above)) ∧
      (∀ fault, service.bind raw = .error fault →
        service.request ((Expr.follow raw link node).through above) = .error fault) ∧
      ∀ bound, service.bind raw = .ok bound → bound.kind ≠ .resource →
        service.request ((Expr.follow raw link node).through above) =
          .error (.unsupportedKind bound.kind)) ∧
    (node.operation = none → ∀ bind,
      { service with bind }.request ((Expr.follow raw link node).through above) =
        .error (.unsupportedKind raw.kind)) := by
  constructor
  · intro ho
    refine ⟨?_, ?_, ?_⟩
    · intro bound hb hbound
      have hraw := walk_raw_bound _ hk link ho hb
        (within_of_isBound service.bind (Trail.bindingLimit - 1) hbound)
      have hspliced := walk_follow service.bind (Trail.within service.bind (Trail.bindingLimit - 1))
        (Expr.kind_of_isBound hbound) (walk_of_isBound _ _ hbound) link node
      exact Service.request_of_notes_ok hs (walk_through _ _ rfl hraw above)
        (walk_through _ _ rfl hspliced above)
    · intro fault hb
      apply Service.request_of_notes_error
      exact walk_through _ _ rfl (walk_raw_refused _ hk link ho hb) above
    · intro bound hb hbound
      have hraw := walk_raw_bound _ hk link ho hb
        (within_of_kind service.bind (Trail.bindingLimit - 1) hbound)
      exact Service.request_of_notes_error (walk_through _ _ rfl hraw above)
  · intro ho bind
    apply Service.request_of_notes_error
    exact walk_through _ _ rfl (walk_raw_unbound _ hk link ho) above

def linesOfOrder : Expr :=
  .follow
    (.root (.entitySet "Orders")
      { key := [("Id", .int32 7)]
        operation := some
          { name := "Near", isAction := false, parameters := [("p", .structured "[1]")] } })
    (.navigation "Lines")
    { version := .v401, options := [.filter (.property "Open")] }

def knowingService : Service :=
  { Service.ofBase "//h" with
    bind := fun e => match e with
      | .parameter name => if name = "it" then .ok linesOfOrder else .error (.unbound name)
      | e => .ok e }

def nearAndDue : Decoration Expr where
  operation := some { name := "Near", isAction := false, parameters := [("p", .structured "[2]")] }
  options := [.filter (.property "Due")]

def makersOf (source : Expr) : Expr :=
  (Expr.follow source (.navigation "Parts") nearAndDue).through
    [(.singleton "Maker", { count := .segment })]

def makersUri : String :=
  "//h/Orders(7)/Near(p=@p)/Lines/Parts/Near(p=@p1)/Maker/$count" ++
    "?$filter=Open,Due&@p=[1]&@p1=[2]"

theorem request_of_makers :
    knowingService.FormatsByVersion ∧
      knowingService.request (makersOf (.parameter "it")) = .ok ⟨makersUri, .v401⟩ ∧
      knowingService.request (makersOf (.parameter "us")) = .error (.unbound "us") ∧
      knowingService.request (makersOf (.property "us")) = .error (.unsupportedKind .member) := by
  have hs : knowingService.FormatsByVersion :=
    Service.Writes.formatsByVersion (Service.ofBase_writes "//h" .parentheses)
  have hsource (raw : Expr) (hk : raw.kind ≠ .resource) :=
    (request_of_raw_source knowingService hs raw hk (.navigation "Parts") nearAndDue
      [(.singleton "Maker", { count := .segment })]).1 rfl
  refine ⟨hs, ?_, ?_, ?_⟩
  · exact ((hsource (.parameter "it") (by decide)).1 linesOfOrder rfl trivial).trans rfl
  · exact (hsource (.parameter "us") (by decide)).2.1 (.unbound "us") rfl
  · exact (hsource (.property "us") (by decide)).2.2 (.property "us") rfl (by decide)

end RequestUri
