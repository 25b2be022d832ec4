import RequestUri.Path.Draft
import RequestUri.Proofs.Clause

/-! The order in which a clause is formatted is not the order in which it is written: aggregations
take their turns before the groups and stand behind them. The formatter may be any, and its texts
may depend on what was formatted before. -/

namespace RequestUri

variable {ε α β : Type}

inductive Turn (ε : Type) where
  | format (operand : ε)
  | skip
  | stop (fault : Fault)

namespace Turn

def take (format : ε → Run Journal String) : Turn ε → Journal → Except Fault String × Journal
  | .format operand, j => (format operand).run j
  | .skip, j => (.ok "", j)
  | .stop fault, j => (.error fault, j)

/-- Takes the turns one after another, each with the journal that the one before it left, until one
ends in a fault. -/
def takeAll (format : ε → Run Journal String) :
    List (Turn ε) → Journal → Except Fault (List String) × Journal
  | [], j => (.ok [], j)
  | turn :: rest, j =>
    match turn.take format j with
    | (.error fault, j') => (.error fault, j')
    | (.ok text, j') => ((takeAll format rest j').1.map (text :: ·), (takeAll format rest j').2)

end Turn

namespace Aggregation

/-- Row counts are passed over. Without a word for the method, or without an operand, there is a
fault in the place of a text. -/
def turn (a : Aggregation ε) : Turn ε :=
  match a.method, a.operand with
  | .custom name, _ => .stop (.unsupportedMethod name)
  | .count, _ => .skip
  | _, some operand => .format operand
  | method, none => .stop (.nothingToAggregate method)

def phrase (a : Aggregation ε) (operand : String) : String :=
  let token := a.method.token?.getD ""
  (if operand = "" then token else operand ++ " with " ++ token) ++ " as " ++ a.label operand

end Aggregation

namespace Apply

def turns (clause : Apply ε) : List (Turn ε) :=
  clause.predicate.toList.map .format ++
    (clause.aggregations.map Aggregation.turn ++ clause.grouping.map .format)

def aggregated (entries : List String) : String :=
  "aggregate(" ++ String.intercalate "," entries ++ ")"

/-- The stages of a clause around the texts of its predicate and its groups and the entries of its
aggregations. -/
def layout (clause : Apply ε) (predicate entries groups : List String) : String :=
  String.join (predicate.map fun text => "filter(" ++ text ++ ")/") ++
    if clause.grouping.isEmpty then aggregated entries
    else "groupby((" ++ String.intercalate "," groups ++
      (if clause.aggregations.isEmpty then ")" else ")," ++ aggregated entries) ++ ")"

/-- The text of a clause from the texts of its turns. -/
def compose (clause : Apply ε) (texts : List String) : String :=
  let (predicate, rest) := texts.splitAt clause.predicate.toList.length
  let (operands, groups) := rest.splitAt clause.aggregations.length
  clause.layout predicate (List.zipWith Aggregation.phrase clause.aggregations operands) groups

end Apply

namespace Turn
variable (format : ε → Run Journal String)

theorem takeAll_append (u v : List (Turn ε)) (j : Journal) : takeAll format (u ++ v) j =
    match takeAll format u j with
    | (.error fault, j') => (.error fault, j')
    | (.ok texts, j') => ((takeAll format v j').1.map (texts ++ ·), (takeAll format v j').2) := by
  induction u generalizing j with
  | nil =>
    simp only [List.nil_append, takeAll]
    cases takeAll format v j with
    | mk result j' => cases result <;> rfl
  | cons turn u ih =>
    rw [List.cons_append, takeAll, takeAll]
    cases turn.take format j with
    | mk result j' =>
      cases result with
      | error fault => rfl
      | ok text =>
        simp only [ih]
        cases takeAll format u j' with
        | mk result j' =>
          cases result with
          | error fault => rfl
          | ok texts =>
            simp only [Except.map]
            cases (takeAll format v j').1 <;> rfl

theorem length_of_takeAll {turns : List (Turn ε)} {j : Journal} {texts : List String}
    (h : (takeAll format turns j).1 = .ok texts) : texts.length = turns.length := by
  induction turns generalizing j texts with
  | nil => simp_all [takeAll]
  | cons turn turns ih =>
    rw [takeAll] at h
    cases ht : turn.take format j with
    | mk result k =>
      rw [ht] at h
      cases result with
      | error fault => cases h
      | ok text =>
        cases hr : (takeAll format turns k).1 with
        | error fault => simp [hr, Except.map] at h
        | ok rest =>
          simp only [hr, Except.map, Except.ok.injEq] at h
          rw [← h, List.length_cons, ih hr, List.length_cons]

end Turn

/-- The computation takes the turns and makes its value of their texts. -/
def Follows (format : ε → Run Journal String) (turns : List (Turn ε)) (x : Run Journal α)
    (value : List String → α) : Prop :=
  ∀ j, x.run j = ((Turn.takeAll format turns j).1.map value, (Turn.takeAll format turns j).2)

namespace Follows
variable {format : ε → Run Journal String} {u v : List (Turn ε)} {x : Run Journal α}

theorem pure (a : α) : Follows format [] (Pure.pure a) fun _ => a := fun _ => rfl

theorem throw (fault : Fault) (value : List String → α) :
    Follows format [.stop fault] (throw fault) value := fun _ => rfl

theorem operand (e : ε) :
    Follows format [.format e] (format e) fun texts => texts.headD "" := by
  intro j
  rw [Turn.takeAll, Turn.take]
  cases (format e).run j with
  | mk result j' => cases result <;> rfl

theorem bind_pure {f : List String → α} (hx : Follows format u x f) (g : α → β) :
    Follows format u (x >>= fun a => Pure.pure (g a)) fun texts => g (f texts) := by
  intro j
  rw [run_bind, hx j]
  cases (Turn.takeAll format u j).1 <;> rfl

theorem congr {f g : List String → α} (hx : Follows format u x f)
    (h : ∀ texts, texts.length = u.length → f texts = g texts) : Follows format u x g := by
  intro j
  rw [hx j]
  cases ht : (Turn.takeAll format u j).1 with
  | error fault => rfl
  | ok texts => rw [Except.map, Except.map, h texts (Turn.length_of_takeAll format ht)]

/-- The texts of two computations, one behind the other, are told apart by their number. -/
theorem bind {f : List String → α} {g : α → Run Journal β} {h : List String → List String → β}
    (hx : Follows format u x f)
    (hg : ∀ texts, texts.length = u.length → Follows format v (g (f texts)) (h texts)) :
    Follows format (u ++ v) (x >>= g) fun texts =>
      h (texts.take u.length) (texts.drop u.length) := by
  intro j
  rw [run_bind, hx j, Turn.takeAll_append]
  cases ht : Turn.takeAll format u j with
  | mk result j' =>
    cases result with
    | error fault => rfl
    | ok texts =>
      have hlength : texts.length = u.length := Turn.length_of_takeAll format (congrArg Prod.fst ht)
      refine (hg texts hlength j').trans ?_
      dsimp only
      cases (Turn.takeAll format v j').1 with
      | error fault => rfl
      | ok more => simp [Except.map, ← hlength]

theorem mapM {ι : Type} {f : ι → Run Journal α} {turn : ι → Turn ε} {g : ι → String → α}
    (h : ∀ i, Follows format [turn i] (f i) fun texts => g i (texts.headD "")) (is : List ι) :
    Follows format (is.map turn) (is.mapM f) (List.zipWith g is) := by
  induction is with
  | nil => exact Follows.pure []
  | cons i is ih =>
    rw [List.mapM_cons]
    refine ((h i).bind fun texts _ => ih.bind_pure (g i (texts.headD "") :: ·)).congr ?_
    intro texts hlength
    cases texts with
    | nil => simp at hlength
    | cons text texts => simp

theorem operands (es : List ε) : Follows format (es.map .format) (es.mapM format) id := by
  have htexts : ∀ e : ε, Follows format [.format e] (format e) fun texts => texts.headD "" :=
    Follows.operand
  refine (Follows.mapM (g := fun _ text => text) htexts es).congr ?_
  intro texts hlength
  rw [List.length_map] at hlength
  calc List.zipWith (fun _ text => text) es texts
      = (es.zip texts).map Prod.snd := (List.map_zip_eq_zipWith (f := Prod.snd)).symm
    _ = texts := List.map_snd_zip (Nat.le_of_eq hlength)

end Follows

namespace Aggregation
variable (format : ε → Run Journal String) (a : Aggregation ε)

theorem operandText_follows (h : ∀ name, a.method ≠ .custom name) :
    Follows format [a.turn] (a.operandText format) fun texts => texts.headD "" := by
  obtain ⟨method, operand, given⟩ := a
  by_cases hc : method = .count
  · subst hc
    exact fun _ => rfl
  · rw [operandText, if_neg hc]
    cases operand with
    | none =>
      have ht : turn (⟨method, none, given⟩ : Aggregation ε) =
          .stop (.nothingToAggregate method) := by
        cases method <;> simp_all [turn]
      rw [ht]
      exact Follows.throw _ _
    | some operand =>
      have ht : turn (⟨method, some operand, given⟩ : Aggregation ε) = .format operand := by
        cases method <;> simp_all [turn]
      rw [ht]
      exact Follows.operand operand

theorem entry_follows :
    Follows format [a.turn] (a.entry format) fun texts => a.phrase (texts.headD "") := by
  rw [entry]
  cases ht : a.method.token? with
  | none =>
    obtain ⟨name, hn⟩ : ∃ name, a.method = .custom name := by
      cases hm : a.method <;> simp_all [Method.token?]
    simp only [turn, hn]
    exact Follows.throw _ _
  | some token =>
    have ha : ∀ name, a.method ≠ .custom name := by
      intro name hn
      simp [hn, Method.token?] at ht
    simp only [phrase, ht, Option.getD_some]
    exact (operandText_follows format a ha).bind_pure _

end Aggregation

namespace Apply
variable (format : ε → Run Journal String) (clause : Apply ε)

theorem filterStage_follows : Follows format (clause.predicate.toList.map .format)
    (clause.filterStage format) fun texts =>
      String.join (texts.map fun text => "filter(" ++ text ++ ")/") := by
  rw [filterStage]
  cases clause.predicate with
  | none => exact Follows.pure ""
  | some predicate =>
    refine ((Follows.operand predicate).bind_pure fun text => "filter(" ++ text ++ ")/").congr ?_
    intro texts hlength
    obtain ⟨text, rfl⟩ := List.length_eq_one_iff.1 hlength
    simp [String.join]

theorem aggregateStage_follows : Follows format (clause.aggregations.map Aggregation.turn)
    (clause.aggregateStage format) fun texts =>
      if clause.aggregations.isEmpty then none
      else some (aggregated (List.zipWith Aggregation.phrase clause.aggregations texts)) := by
  rw [aggregateStage]
  by_cases he : clause.aggregations.isEmpty
  · rw [if_pos he, List.isEmpty_iff.1 he]
    exact Follows.pure none
  · simp only [if_neg he]
    exact (Follows.mapM (Aggregation.entry_follows format) clause.aggregations).bind_pure
      fun entries => some (aggregated entries)

/- The groups are formatted last, whatever the stages before them gave. -/
theorem groupStage_follows (filter : String) (aggregate : Option String) :
    Follows format (clause.grouping.map .format) (do
      let groups ← clause.grouping.mapM format
      if clause.grouping.isEmpty then return some (filter ++ aggregate.getD "")
      else return some (filter ++ groupStage groups aggregate)) fun groups =>
        some (filter ++
          if clause.grouping.isEmpty then aggregate.getD "" else groupStage groups aggregate) := by
  have hgroups : Follows format (clause.grouping.map .format) (clause.grouping.mapM format) id :=
    Follows.operands clause.grouping
  cases clause.grouping.isEmpty with
  | true => exact hgroups.bind_pure fun _ => some (filter ++ aggregate.getD "")
  | false => exact hgroups.bind_pure fun groups => some (filter ++ groupStage groups aggregate)

theorem layout_eq (h : clause.isIdle = false) (predicate entries groups : List String) :
    clause.layout predicate entries groups =
      String.join (predicate.map fun text => "filter(" ++ text ++ ")/") ++
        if clause.grouping.isEmpty then
          (if clause.aggregations.isEmpty then none else some (aggregated entries)).getD ""
        else groupStage groups
          (if clause.aggregations.isEmpty then none else some (aggregated entries)) := by
  rw [isIdle] at h
  rw [layout]
  cases hg : clause.grouping.isEmpty with
  | true =>
    have ha : clause.aggregations.isEmpty = false := by simpa [hg] using h
    simp [ha]
  | false =>
    have hclose : "))" = ")" ++ ")" := rfl
    cases clause.aggregations.isEmpty <;> simp [groupStage, hclose, String.append_assoc]

theorem pipeline_follows (h : clause.isIdle = false) : Follows format clause.turns
    (clause.pipeline format) fun texts => some (clause.compose texts) := by
  have hi : ¬ (clause.aggregations.isEmpty && clause.grouping.isEmpty) = true := by
    simp [show (clause.aggregations.isEmpty && clause.grouping.isEmpty) = false from h]
  rw [pipeline, if_neg hi]
  refine ((filterStage_follows format clause).bind fun predicate _ =>
    (aggregateStage_follows format clause).bind fun operands _ =>
      groupStage_follows format clause _ _).congr ?_
  intro texts _
  simp only [compose, clause.layout_eq h, List.splitAt_eq, List.length_map]

theorem pipeline_idle (h : clause.isIdle = true) : clause.pipeline format = pure none := by
  rw [pipeline]
  exact if_pos h

theorem isIdle_iff : clause.isIdle = true ↔ clause.aggregations = [] ∧ clause.grouping = [] := by
  simp [isIdle]

theorem pipeline_run (j : Journal) : (clause.pipeline format).run j =
    if clause.isIdle then (.ok none, j)
    else ((Turn.takeAll format clause.turns j).1.map fun texts => some (clause.compose texts),
      (Turn.takeAll format clause.turns j).2) := by
  cases hi : clause.isIdle with
  | true =>
    rw [clause.pipeline_idle _ hi]
    rfl
  | false => exact clause.pipeline_follows _ hi j

theorem pipeline_none_iff (j : Journal) :
    (∃ j', (clause.pipeline format).run j = (.ok none, j')) ↔ clause.isIdle = true := by
  rw [pipeline_run]
  cases clause.isIdle with
  | true => simp
  | false =>
    simp only [Bool.false_eq_true, if_false, iff_false]
    rintro ⟨j', he⟩
    have hnone := congrArg Prod.fst he
    cases ht : (Turn.takeAll format clause.turns j).1 with
    | error fault =>
      rw [ht] at hnone
      cases hnone
    | ok texts =>
      rw [ht] at hnone
      cases hnone

end Apply

theorem journaled_run (x : Run Journal α) (d : Draft) : (Draft.journaled x).run d =
    ((x.run d.journal).1, { d with journal := (x.run d.journal).2 }) := rfl

theorem optional_apply_run (service : Service) (clause : Apply Expr) (d : Draft) :
    (Draft.optional service (.apply clause)).run d =
      match (clause.pipeline fun e => service.format e .query).run d.journal with
      | (.error fault, j) => (.error fault, { d with journal := j })
      | (.ok none, j) => (.ok (), { d with journal := j })
      | (.ok (some text), j) =>
        (.ok (), ({ d with journal := j } : Draft).addOption "$apply" text) := by
  have hentry : (Draft.journaled (QueryOption.entry (fun e => service.format e .query)
      (.apply clause))).run d =
      match (clause.pipeline fun e => service.format e .query).run d.journal with
      | (.error fault, j) => (.error fault, { d with journal := j })
      | (.ok text, j) => (.ok (text.map fun value => ("$apply", value)), { d with journal := j }) := by
    rw [journaled_run, QueryOption.entry, run_bind]
    cases (clause.pipeline fun e => service.format e .query).run d.journal with
    | mk result j => cases result <;> rfl
  rw [Draft.optional, run_bind, hentry]
  cases (clause.pipeline fun e => service.format e .query).run d.journal with
  | mk result j =>
    cases result with
    | error fault => rfl
    | ok text => cases text <;> rfl

/-- A clause that neither groups nor aggregates has no text and leaves the journal alone. Any other
takes its turns: the predicate, the aggregations, the groups. The first fault ends it; the texts of
all turns make up its text. -/
theorem pipeline_in_turns (service : Service) (clause : Apply Expr) :
    (∀ j, (clause.pipeline fun e => service.format e .query).run j =
      if clause.isIdle then (.ok none, j)
      else
        ((Turn.takeAll (fun e => service.format e .query) clause.turns j).1.map fun texts =>
          some (clause.compose texts),
        (Turn.takeAll (fun e => service.format e .query) clause.turns j).2)) ∧
    (∀ j, (∃ j', (clause.pipeline fun e => service.format e .query).run j = (.ok none, j')) ↔
      clause.aggregations = [] ∧ clause.grouping = []) ∧
    ∀ d, (Draft.optional service (.apply clause)).run d =
      match (clause.pipeline fun e => service.format e .query).run d.journal with
      | (.error fault, j) => (.error fault, { d with journal := j })
      | (.ok none, j) => (.ok (), { d with journal := j })
      | (.ok (some text), j) =>
        (.ok (), ({ d with journal := j } : Draft).addOption "$apply" text) := by
  refine ⟨clause.pipeline_run _, fun j => ?_, optional_apply_run service clause⟩
  rw [← clause.isIdle_iff]
  exact clause.pipeline_none_iff _ j

/- A formatter that numbers its texts: the aggregation comes before the group, and behind it. -/
example :
    let number : String → Run Journal String := fun name => do
      let j ← get
      set (j.note (.binding .member))
      return name ++ toString j.events.length
    let clause : Apply String :=
      { grouping := ["A"]
        aggregations := [{ method := .count }, { method := .sum, operand := some "B" }] }
    ((clause.pipeline number).run {}).1 = .ok (some
      "groupby((A1),aggregate($count as VirtualPropertyCount,B0 with sum as SumB0))") := rfl

end RequestUri
