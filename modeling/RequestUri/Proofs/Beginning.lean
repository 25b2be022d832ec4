import RequestUri.Proofs.Growth

/-! Where a URI begins: what a visit does to a draft in which something is written already. An entity
set is refused there. The service root is not, and its address lands in the middle of the path. -/

namespace RequestUri

/-- Behind other text an entity set is refused, with all that the tree has on top of it, and the draft
is as it was. The service can be any. -/
theorem entitySet_refused (service : Service) {tree : Expr} {name : String} {node : Decoration Expr}
    (h : tree.origin = .root (.entitySet name) node) {d : Draft} (hd : d.path ≠ "") :
    ((Draft.visit service tree).run d).1 = .error (.misplacedEntitySet name d.path) ∧
      (d.visited service tree).path = d.path ∧
      (d.visited service tree).aliases = d.aliases ∧
      (d.visited service tree).options = d.options ∧
      (d.visited service tree).journal.version = d.journal.version := by
  obtain ⟨j, hj, hrun⟩ := visit_run_misplaced service (Expr.start_of_origin h) hd
  rw [Draft.visited, hrun]
  exact ⟨rfl, rfl, rfl, rfl, hj⟩

def silentService : Service where
  collection name := "//g/" ++ name
  root := "//g"
  format _ _ := throw (.unbound "no format")
  bind _ := .error (.unbound "no binding")

def ordersNear : Draft :=
  Draft.visited (.ofBase "//h")
    (.root (.entitySet "Orders")
      { operation := some
          { name := "Near", isAction := false, parameters := [("p", .structured "[1]")] }
        options := [.top (.literal (.int32 5))] })
    {}

def dressedLines : Expr :=
  .follow
    (.root (.entitySet "Lines")
      { version := .v401, key := [("Id", .int32 7)], cast := some { typeName := "S.Line" } })
    (.navigation "Parts")
    { operation := some
        { name := "Sum", isAction := false, parameters := [("p", .structured "[2]")] }
      count := .segment
      options := [.filter (.property "Open")]
      select := ["Id"] }

theorem dressedLines_refused :
    ordersNear.path = "//h/Orders/Near(p=@p)" ∧
      ((Draft.visit silentService dressedLines).run ordersNear).1 =
        .error (.misplacedEntitySet "Lines" "//h/Orders/Near(p=@p)") ∧
      (ordersNear.visited silentService dressedLines).path = ordersNear.path ∧
      (ordersNear.visited silentService dressedLines).aliases = ordersNear.aliases ∧
      (ordersNear.visited silentService dressedLines).options = ordersNear.options ∧
      (ordersNear.visited silentService dressedLines).journal.version =
        ordersNear.journal.version := by
  have hpath : ordersNear.path = "//h/Orders/Near(p=@p)" := rfl
  have hd : ordersNear.path ≠ "" := by
    rw [hpath]
    decide
  obtain ⟨node, horigin⟩ : ∃ node, dressedLines.origin = .root (.entitySet "Lines") node := ⟨_, rfl⟩
  have h := entitySet_refused silentService horigin hd
  rw [hpath] at h
  exact ⟨hpath, h⟩

section Roots
variable (service : Service) {tree : Expr}

/- A source that is no resource is found on the way down, before anything is written. -/
theorem visit_run_unbound (hb : service.bind = .ok) (h : tree.origin.kind ≠ .resource) (d : Draft) :
    ∃ j, (Draft.visit service tree).run d =
      (.error (.unsupportedKind tree.origin.kind), { d with journal := j }) := by
  have hfault : (carry tree.trail tree.descent d.journal).1 =
      .error (.unsupportedKind tree.origin.kind) := by
    apply carry_of_fault
    exact congrArg List.head? (tree.faults_descent.trans (if_neg h))
  refine ⟨(carry tree.trail tree.descent d.journal).2, ?_⟩
  rw [Draft.visit, run_bind, journaled_takes (trail_takes hb tree) d, Edit.carry_mark, hfault]

theorem visited_path_of_serviceRoot {service : Service} (hw : service.Writes) {node : Decoration Expr}
    (h : tree.origin = .root .serviceRoot node) (d : Draft) :
    ∃ text, (d.visited service tree).path = d.path ++ service.root ++ text := by
  have hbound : tree.IsBound := tree.isBound_iff.2 (by rw [h]; rfl)
  have hs := Expr.start_of_origin h
  obtain ⟨j, -, hdown⟩ := descent_run service hbound d
  have hadmits : ({ d with journal := j } : Draft).Admits tree.trail.start := by
    rw [hs]
    trivial
  obtain ⟨edits, hedits⟩ : ∃ edits, tree.trail.edits service = Edit.push service.root :: edits := by
    rw [Trail.edits, Trail.nodes, hs]
    exact ⟨_, rfl⟩
  rw [Draft.visited, Draft.visit, run_bind, hdown]
  dsimp only
  rw [along_run hw tree.trail _ hadmits, hedits, carry_cons_none _ _ _ rfl]
  exact (grows_carry () edits _).path

end Roots

/-- Behind other text the path stays as it is just if the tree does not come from the service root.
An entity set is refused; the root of the service is written once more. -/
theorem path_kept_iff (style : KeyStyle) {base : String} (hb : base ≠ "") (tree : Expr) {d : Draft}
    (hd : d.path ≠ "") :
    ((d.visited (.ofBase base style) tree).path = d.path ↔
      ∀ node, tree.origin ≠ .root .serviceRoot node) ∧
    (∀ name node, tree.origin = .root (.entitySet name) node →
      ((Draft.visit (.ofBase base style) tree).run d).1 = .error (.misplacedEntitySet name d.path)) ∧
    ∀ node, tree.origin = .root .serviceRoot node →
      ∃ text, (d.visited (.ofBase base style) tree).path = d.path ++ base ++ text := by
  have hw := Service.ofBase_writes base style
  refine ⟨⟨?_, ?_⟩, ?_, ?_⟩
  · intro hpath node h
    obtain ⟨text, ht⟩ := visited_path_of_serviceRoot hw h d
    rw [hpath, String.append_assoc] at ht
    have hempty : "" = base ++ text := (String.append_right_inj d.path).1 (String.append_empty.trans ht)
    exact hb (String.append_eq_empty_iff.1 hempty.symm).1
  · intro h
    rcases tree.origin_cases with hkind | ⟨node, horigin⟩
    · obtain ⟨j, hrun⟩ := visit_run_unbound (.ofBase base style) rfl hkind d
      rw [Draft.visited, hrun]
    · cases hs : tree.trail.start with
      | entitySet name =>
        obtain ⟨j, -, hrun⟩ := visit_run_misplaced (.ofBase base style) hs hd
        rw [Draft.visited, hrun]
      | serviceRoot =>
        rw [hs] at horigin
        exact absurd horigin (h node)
  · intro name node h
    obtain ⟨j, -, hrun⟩ := visit_run_misplaced (.ofBase base style) (Expr.start_of_origin h) hd
    rw [hrun]
  · exact fun node h => visited_path_of_serviceRoot hw h d

theorem path_kept_iff_of_orders :
    "//h" ≠ "" ∧ ordersNear.path ≠ "" ∧
      (ordersNear.visited (.ofBase "//h") dressedLines).path = ordersNear.path ∧
      (ordersNear.visited (.ofBase "//h") (.root .serviceRoot {})).path ≠ ordersNear.path := by
  have hb : "//h" ≠ "" := by decide
  have hd : ordersNear.path ≠ "" := by
    rw [show ordersNear.path = "//h/Orders/Near(p=@p)" from rfl]
    decide
  refine ⟨hb, hd, (path_kept_iff .parentheses hb dressedLines hd).1.2 ?_, ?_⟩
  · intro node h
    cases h
  · intro h
    exact (path_kept_iff .parentheses hb (.root .serviceRoot {}) hd).1.1 h {} rfl

/-- The service root behind an entity set is accepted, and its address is written again. -/
theorem serviceRoot_written_behind :
    (Draft.visitedAll (.ofBase "//h") [.root (.entitySet "Orders") {}] {}).path = "//h/Orders" ∧
      ((Draft.visit (.ofBase "//h") (.root .serviceRoot {})).run
        (Draft.visitedAll (.ofBase "//h") [.root (.entitySet "Orders") {}] {})).1 = .ok () ∧
      (Draft.visitedAll (.ofBase "//h") [.root (.entitySet "Orders") {}, .root .serviceRoot {}]
        {}).path = "//h/Orders//h" := ⟨rfl, rfl, rfl⟩

end RequestUri
