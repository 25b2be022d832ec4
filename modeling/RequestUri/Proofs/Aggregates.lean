import Mathlib.Data.List.Forall2
import RequestUri.Proofs.FirstFault
import RequestUri.Proofs.PlainText
import RequestUri.Proofs.PropertyPath
import RequestUri.Proofs.Turns

/-! The entries of the aggregations in a written clause: what each of them says, and what it is
called. -/

namespace RequestUri

theorem Json.text_ne_empty (value : Json) : value.text ≠ "" := by
  cases value with
  | null => decide
  | bool b => cases b <;> decide
  | number n => exact n.text_ne_empty
  | string s => simp [text, stringText]
  | array items => simp [text]
  | object fields => simp [text]

namespace Expr

theorem mem_parts_self (e : Expr) : e ∈ e.parts := by
  cases e <;> simp [parts]

def IsNameless : Expr → Prop
  | property name => name = ""
  | parameter name => name = ""
  | literal (.guid text) => text = ""
  | literal (.dateTime text) => text = ""
  | _ => False

theorem text_literal_eq_empty_iff (value : Literal) :
    (literal value).text .query = "" ↔ (literal value).IsNameless := by
  change value.text = "" ↔ _
  cases value with
  | guid text => rfl
  | dateTime text => rfl
  | string s => simp [Literal.text, Text.quote, IsNameless]
  | enum typeName member => simp [Literal.text, Text.quote, IsNameless]
  | json value => simp [Literal.text, value.text_ne_empty, IsNameless]
  | _ => exact iff_of_false (Literal.text_ne_empty rfl) id

theorem text_eq_empty_iff {e : Expr} (h : e.kind.isTextless = false) :
    e.text .query = "" ↔ e.IsNameless := by
  cases e with
  | literal value => exact text_literal_eq_empty_iff value
  | property name => rfl
  | parameter name => rfl
  | member object name => simp [text, IsNameless]
  | unary op operand => cases op <;> simp [text, UnaryOp.lead, IsNameless]
  | binary op left right => simp [text, IsNameless]
  | call function args => simp [text, IsNameless]
  | lambda quantifier collection bound body => simp [text, IsNameless]
  | list items => simp [text, IsNameless]
  | _ => simp [kind, Kind.isTextless] at h

end Expr

theorem Apply.shown_eq_layout {ε : Type} (text : ε → String) (clause : Apply ε) :
    clause.shown text = clause.layout (clause.predicate.toList.map text)
      (clause.aggregations.map (Aggregation.shown text)) (clause.grouping.map text) := by
  have hfilter : clause.filterText text = String.join
      ((clause.predicate.toList.map text).map fun text => "filter(" ++ text ++ ")/") := by
    rw [filterText]
    cases clause.predicate <;> simp [String.join]
  rw [shown, layout, hfilter]
  cases clause.grouping.isEmpty with
  | true => rfl
  | false =>
    have hclose : "))" = ")" ++ ")" := rfl
    cases clause.aggregations.isEmpty <;>
      simp [groupText, aggregateText, aggregated, hclose, String.append_assoc]

/-- A clause that gets a text is written as far as it goes: its operands are the texts of its
expressions, and its aggregations are complete. -/
theorem Apply.pipeline_ok {clause : Apply Expr} {j j' : Journal} {text : String}
    (h : (clause.pipeline (Expr.write .query)).run j = (.ok (some text), j')) :
    clause.isIdle = false ∧ (QueryOption.apply clause).IsWritable ∧
      text = clause.layout (clause.predicate.toList.map (Expr.text .query))
        (clause.aggregations.map (Aggregation.shown (Expr.text .query)))
        (clause.grouping.map (Expr.text .query)) := by
  have hcarry := (clause.pipeline_takes (Expr.write_takes .query) j).symm.trans h
  have hvalue := eq_of_carry_ok hcarry
  have hfaults := faultless_of_carry_ok hcarry
  have hi : clause.isIdle = false := by
    cases hi : clause.isIdle with
    | true => simp [hi] at hvalue
    | false => rfl
  refine ⟨hi, ?_, ?_⟩
  · rw [← QueryOption.isWritable_iff, ← QueryOption.faults_course]
    exact hfaults
  · rw [← shown_eq_layout]
    simpa [hi] using hvalue

namespace Aggregation

/-- The ways to write an aggregation. The last one is left for operands without a text of their own,
and looks like a row count by another method. -/
inductive IsEntry (a : Aggregation Expr) : String → Prop where
  | rows (hm : a.method = .count) : IsEntry a ("$count as " ++ a.label "")
  | column {operand : Expr} {token : String} (hm : a.method ≠ .count)
    (ho : a.operand = some operand) (ht : a.method.token? = some token)
    (hn : ¬ operand.IsNameless) (hne : operand.text .query ≠ "") :
    IsEntry a (operand.text .query ++ " with " ++ token ++ " as " ++
      a.label (operand.text .query))
  | bare {operand : Expr} {token : String} (hm : a.method ≠ .count)
    (ho : a.operand = some operand) (ht : a.method.token? = some token)
    (hn : operand.IsNameless) : IsEntry a (token ++ " as " ++ a.label "")

theorem isEntry_shown {a : Aggregation Expr} (h : a.IsComplete)
    (hw : ∀ e ∈ a.written, e.kind.isTextless = false) :
    a.IsEntry (a.shown (Expr.text .query)) := by
  obtain ⟨hcustom, hoperand⟩ := h
  by_cases hm : a.method = .count
  · have hshown : a.shown (Expr.text .query) = "$count as " ++ a.label "" := by
      have hword : "$count as " = "$count" ++ " as " := rfl
      simp [shown, operandShown, hm, Method.token?, hword]
    rw [hshown]
    exact .rows hm
  · obtain ⟨operand, ho⟩ := Option.isSome_iff_exists.1 (hoperand.resolve_left hm)
    obtain ⟨token, ht⟩ : ∃ token, a.method.token? = some token := by
      cases hmethod : a.method <;> simp_all [Method.token?]
    have hk : operand.kind.isTextless = false := hw operand (by simp [written, hm, ho])
    have htext : a.operandShown (Expr.text .query) = operand.text .query := by
      simp [operandShown, hm, ho]
    by_cases hn : operand.IsNameless
    · have hempty := (Expr.text_eq_empty_iff hk).2 hn
      have hshown : a.shown (Expr.text .query) = token ++ " as " ++ a.label "" := by
        simp [shown, htext, ht, hempty]
      rw [hshown]
      exact .bare hm ho ht hn
    · have hne : operand.text .query ≠ "" := fun he => hn ((Expr.text_eq_empty_iff hk).1 he)
      have hshown : a.shown (Expr.text .query) = operand.text .query ++ " with " ++ token ++
          " as " ++ a.label (operand.text .query) := by
        simp [shown, htext, ht, hne]
      rw [hshown]
      exact .column hm ho ht hn hne

end Aggregation

theorem Apply.isEntry_of_isWritable {clause : Apply Expr}
    (hw : (QueryOption.apply clause).IsWritable) : ∀ a ∈ clause.aggregations,
      a.IsEntry (a.shown (Expr.text .query)) := by
  obtain ⟨hcomplete, hparts⟩ := hw
  intro a ha
  have hidle : clause.isIdle = false := by
    simp [isIdle, List.ne_nil_of_mem ha]
  refine Aggregation.isEntry_shown (hcomplete a ha) fun e he => ?_
  have hoperand : e ∈ (QueryOption.apply clause).operands := by
    simp only [QueryOption.operands, hidle, Bool.false_eq_true, if_false, List.mem_append,
      List.mem_flatMap]
    exact .inr (.inl ⟨a, ha, he⟩)
  exact hparts e hoperand e e.mem_parts_self

/-- A clause gets a text just if it is not idle, its aggregations are complete and all that is
written has a text. Each aggregation then has an entry of its own in the text. -/
theorem aggregates_of_clause (clause : Apply Expr) (j : Journal) :
    ((∃ text j', (clause.pipeline (Expr.write .query)).run j = (.ok (some text), j')) ↔
      clause.isIdle = false ∧ (QueryOption.apply clause).IsWritable) ∧
    ∀ text j', (clause.pipeline (Expr.write .query)).run j = (.ok (some text), j') →
      ∃ entries, text = clause.layout (clause.predicate.toList.map (Expr.text .query)) entries
          (clause.grouping.map (Expr.text .query)) ∧
        List.Forall₂ Aggregation.IsEntry clause.aggregations entries := by
  refine ⟨⟨?_, ?_⟩, ?_⟩
  · rintro ⟨text, j', h⟩
    exact ⟨(Apply.pipeline_ok h).1, (Apply.pipeline_ok h).2.1⟩
  · rintro ⟨hi, hw⟩
    have hfaults : (clause.course .stop Expr.marks).filterMap Mark.fault? = [] := by
      have hcourse := (QueryOption.isWritable_iff _).2 hw
      rw [← QueryOption.faults_course] at hcourse
      exact hcourse
    have hrun := clause.pipeline_takes (Expr.write_takes .query) j
    rw [carry_of_faultless _ _ _ hfaults, hi] at hrun
    exact ⟨_, _, hrun⟩
  · intro text j' h
    obtain ⟨-, hw, ht⟩ := Apply.pipeline_ok h
    refine ⟨_, ht, ?_⟩
    rw [List.forall₂_map_right_iff, List.forall₂_same]
    exact Apply.isEntry_of_isWritable hw

def turnover : Apply Expr :=
  { predicate := some (.binary .gt (.property "Amount") (.literal (.int32 0)))
    grouping := [.member (.property "Region") "Name"]
    aggregations :=
      [{ method := .sum, operand := some (.property "Amount"), given := some "Total" },
        { method := .count }] }

theorem aggregates_of_turnover :
    ∃ text j', (turnover.pipeline (Expr.write .query)).run {} = (.ok (some text), j') ∧
      text = "filter(Amount gt 0)/groupby((Region/Name),aggregate(Amount with sum as Total," ++
        "$count as VirtualPropertyCount))" ∧
      turnover.isIdle = false ∧ (QueryOption.apply turnover).IsWritable ∧
      ∃ entries, text = turnover.layout ["Amount gt 0"] entries ["Region/Name"] ∧
        List.Forall₂ Aggregation.IsEntry turnover.aggregations entries := by
  obtain ⟨hiff, hentries⟩ := aggregates_of_clause turnover {}
  refine ⟨_, _, rfl, rfl, ?_⟩
  obtain ⟨hidle, hwritable⟩ := hiff.1 ⟨_, _, rfl⟩
  exact ⟨hidle, hwritable, hentries _ _ rfl⟩

def sumOfNothing : Apply Expr :=
  { aggregations := [{ method := .sum, operand := some (.ofPath "/") }] }

theorem aggregate_of_sumOfNothing :
    (∃ j', (sumOfNothing.pipeline (Expr.write .query)).run {} =
      (.ok (some "aggregate(sum as Sum)"), j')) ∧
    ∀ column name : String, "sum as Sum" ≠ column ++ " with sum as " ++ name := by
  refine ⟨⟨_, rfl⟩, fun column name he => ?_⟩
  have hlength := congrArg String.length he
  have hbefore : "sum as Sum".length = 10 := rfl
  have hafter : " with sum as ".length = 13 := rfl
  rw [String.length_append, String.length_append] at hlength
  omega

def underscored (s : String) : String :=
  String.ofList (s.toList.map fun c => if c = '/' then '_' else c)

theorem underscored_inj {s t : String} (hs : '_' ∉ s.toList) (ht : '_' ∉ t.toList) :
    underscored s = underscored t ↔ s = t := by
  -- the slashes come back if no underscore was there before
  have hback : ∀ cs : List Char, '_' ∉ cs → (cs.map fun c => if c = '/' then '_' else c).map
      (fun c => if c = '_' then '/' else c) = cs := by
    intro cs hcs
    rw [List.map_map]
    refine (List.map_congr_left fun c hc => ?_).trans (List.map_id cs)
    have hne : c ≠ '_' := fun he => hcs (he ▸ hc)
    by_cases hslash : c = '/' <;> simp [hslash, hne]
  constructor
  · intro h
    rw [underscored, underscored, String.ofList_inj] at h
    have hmap := congrArg (List.map fun c => if c = '_' then '/' else c) h
    rw [hback _ hs, hback _ ht] at hmap
    exact String.toList_inj.1 hmap
  · rintro rfl
    rfl

def Method.ofColumns : List Method := [.sum, .average, .min, .max, .countDistinct]

/- No name of a method is the beginning of another. -/
theorem Method.name_append_eq_iff {m n : Method} (hm : m ∈ ofColumns) (hn : n ∈ ofColumns)
    (s t : String) : m.name ++ s = n.name ++ t ↔ m = n ∧ s = t := by
  constructor
  · intro h
    rw [← String.toList_inj, String.toList_append, String.toList_append] at h
    simp only [ofColumns, List.mem_cons, List.not_mem_nil, or_false] at hm hn
    rcases hm with rfl | rfl | rfl | rfl | rfl <;> rcases hn with rfl | rfl | rfl | rfl | rfl <;>
      simp_all [Method.name, String.toList_inj]
  · rintro ⟨rfl, rfl⟩
    rfl

namespace Aggregation

def isUnnamed {ε : Type} (a : Aggregation ε) : Bool := a.given.getD "" = ""

/-- What an aggregation is called in the text of its clause. -/
def columnName (a : Aggregation Expr) : String := a.label (a.operandShown (Expr.text .query))

def measure (a : Aggregation Expr) : String :=
  let operand := a.operandShown (Expr.text .query)
  let token := a.method.token?.getD ""
  if operand = "" then token else operand ++ " with " ++ token

theorem label_of_isUnnamed {ε : Type} {a : Aggregation ε} (h : a.isUnnamed) (operand : String) :
    a.label operand = a.method.name ++ underscored operand := by
  rw [label]
  cases hg : a.given with
  | none => rfl
  | some name =>
    have hname : name = "" := by simpa [isUnnamed, hg] using h
    simp [hname, underscored]

structure IsColumn (a : Aggregation Expr) (path : Expr) : Prop where
  unnamed : a.isUnnamed
  method : a.method ∈ Method.ofColumns
  operand : a.operand = some path
  segments : path.IsSegments

namespace IsColumn
variable {a b : Aggregation Expr} {p q : Expr}

theorem method_ne_count (h : a.IsColumn p) : a.method ≠ .count := by
  intro hm
  have hmem := h.method
  simp [hm, Method.ofColumns] at hmem

theorem columnName (h : a.IsColumn p) :
    a.columnName = a.method.name ++ underscored (p.text .query) := by
  have hp : a.operandShown (Expr.text .query) = p.text .query := by
    simp [operandShown, h.method_ne_count, h.operand]
  rw [Aggregation.columnName, hp, label_of_isUnnamed h.unnamed]

theorem columnName_eq_iff (ha : a.IsColumn p) (hb : b.IsColumn q) : a.columnName = b.columnName ↔
    a.method = b.method ∧ underscored (p.text .query) = underscored (q.text .query) := by
  rw [ha.columnName, hb.columnName, Method.name_append_eq_iff ha.method hb.method]

/- Without underscores, the name tells the path as well. -/
theorem eq_of_columnName_eq (ha : a.IsColumn p) (hb : b.IsColumn q)
    (hp : '_' ∉ (p.text .query).toList) (hq : '_' ∉ (q.text .query).toList)
    (h : a.columnName = b.columnName) : a.method = b.method ∧ a.operand = b.operand := by
  obtain ⟨hm, hu⟩ := (ha.columnName_eq_iff hb).1 h
  refine ⟨hm, ?_⟩
  have htext := (underscored_inj hp hq).1 hu
  have hpath : p = q := by
    rw [← (Expr.ofPath_text_of_isSegments ha.segments).2,
      ← (Expr.ofPath_text_of_isSegments hb.segments).2, htext]
  rw [ha.operand, hb.operand, hpath]

/- The name of row counts begins like no other. -/
theorem columnName_ne_of_count (ha : a.IsColumn p) (hb : b.isUnnamed) (hm : b.method = .count) :
    a.columnName ≠ b.columnName := by
  rw [ha.columnName, Aggregation.columnName, label_of_isUnnamed hb, hm, ne_eq, ← String.toList_inj]
  have hmethod := ha.method
  simp only [Method.ofColumns, List.mem_cons, List.not_mem_nil, or_false] at hmethod
  rcases hmethod with h | h | h | h | h <;> simp [h, Method.name]

end IsColumn

/- Two different columns, or a column and the number of rows. -/
theorem columnName_ne {a b : Aggregation Expr} (hua : a.isUnnamed) (hub : b.isUnnamed)
    (ha : a.method = .count ∨ ∃ p, a.IsColumn p ∧ '_' ∉ (p.text .query).toList)
    (hb : b.method = .count ∨ ∃ p, b.IsColumn p ∧ '_' ∉ (p.text .query).toList)
    (hpair : a.method ≠ .count → (a.method, a.operand) ≠ (b.method, b.operand))
    (hrows : a.method = .count → b.method ≠ .count) : a.columnName ≠ b.columnName := by
  rcases ha with hma | ⟨p, hp, hpu⟩
  · rcases hb with hmb | ⟨q, hq, -⟩
    · exact absurd hmb (hrows hma)
    · exact (hq.columnName_ne_of_count hua hma).symm
  · rcases hb with hmb | ⟨q, hq, hqu⟩
    · exact hp.columnName_ne_of_count hub hmb
    · intro he
      obtain ⟨hm, ho⟩ := hp.eq_of_columnName_eq hq hpu hqu he
      exact hpair hp.method_ne_count (Prod.ext hm ho)

end Aggregation

def Apply.unnamed {ε : Type} (clause : Apply ε) : List (Aggregation ε) :=
  clause.aggregations.filter Aggregation.isUnnamed

theorem Apply.pairwise_unnamed_of_count_le {ε : Type} {clause : Apply ε}
    (h : (clause.unnamed.filter fun a => a.method = .count).length ≤ 1) :
    clause.unnamed.Pairwise fun a b => a.method = .count → b.method ≠ .count := by
  have hone : (clause.unnamed.filter fun a => a.method = .count).Pairwise fun _ _ => False := by
    cases hl : clause.unnamed.filter fun a => a.method = .count with
    | nil => exact .nil
    | cons a rest =>
      rw [hl, List.length_cons] at h
      obtain rfl : rest = [] := List.length_eq_zero_iff.1 (by omega)
      exact List.pairwise_singleton _ a
  simpa [List.pairwise_filter] using hone

/-- The name that is made up for a column is that of another one just if the methods are the same
and the paths differ in nothing but slashes and underscores. So the names in a clause without
underscores differ if no two columns are the same and rows are counted once at most. -/
theorem columnName_collisions (clause : Apply Expr) :
    (∀ j j' text, (clause.pipeline (Expr.write .query)).run j = (.ok (some text), j') →
      text = clause.layout (clause.predicate.toList.map (Expr.text .query))
        (clause.aggregations.map fun a => a.measure ++ " as " ++ a.columnName)
        (clause.grouping.map (Expr.text .query))) ∧
    (∀ (a b : Aggregation Expr) (p q : Expr), a.IsColumn p → b.IsColumn q →
      (a.columnName = b.columnName ↔
        a.method = b.method ∧ underscored (p.text .query) = underscored (q.text .query))) ∧
    ((∀ a ∈ clause.unnamed, a.method = .count ∨
        ∃ p, a.IsColumn p ∧ '_' ∉ (p.text .query).toList) →
      (clause.unnamed.filter fun a => a.method = .count).length ≤ 1 →
      (clause.unnamed.Pairwise fun a b => a.method ≠ .count →
        (a.method, a.operand) ≠ (b.method, b.operand)) →
      (clause.unnamed.map Aggregation.columnName).Nodup) := by
  refine ⟨fun j j' text h => (Apply.pipeline_ok h).2.2,
    fun a b p q ha hb => ha.columnName_eq_iff hb, ?_⟩
  intro hcolumns hcount hpairs
  rw [List.Nodup, List.pairwise_map]
  refine (hpairs.and (Apply.pairwise_unnamed_of_count_le hcount)).imp_of_mem ?_
  rintro a b ha hb ⟨hpair, hrows⟩
  exact Aggregation.columnName_ne (List.mem_filter.1 ha).2 (List.mem_filter.1 hb).2
    (hcolumns a ha) (hcolumns b hb) hpair hrows

def ofNetPrice (method : Method) : Aggregation Expr :=
  { method, operand := some (.member (.property "Price") "Net") }

def netPrices : Apply Expr :=
  { aggregations := [ofNetPrice .sum, ofNetPrice .max, { method := .count }] }

theorem isColumn_ofNetPrice {m : Method} (hm : m ∈ Method.ofColumns) :
    (ofNetPrice m).IsColumn (.member (.property "Price") "Net") :=
  ⟨rfl, hm, rfl, ⟨by decide, by decide⟩, ⟨by decide, by decide⟩⟩

/-- The names in the clause differ. The sum of a column `Price_Net` would have one of them too. -/
theorem columnName_of_netPrices :
    (∃ text j', (netPrices.pipeline (Expr.write .query)).run {} = (.ok (some text), j') ∧
      text = "aggregate(Price/Net with sum as SumPrice_Net,Price/Net with max as MaxPrice_Net," ++
        "$count as VirtualPropertyCount)") ∧
    (netPrices.unnamed.map Aggregation.columnName).Nodup ∧
    ({ method := .sum, operand := some (.property "Price_Net") } : Aggregation Expr).columnName =
      (ofNetPrice .sum).columnName := by
  have hplain : '_' ∉ ((Expr.member (.property "Price") "Net").text .query).toList := by
    simp [Expr.text]
  have hunnamed : netPrices.unnamed = netPrices.aggregations := rfl
  obtain ⟨htext, hnames, hdistinct⟩ := columnName_collisions netPrices
  refine ⟨⟨_, _, rfl, ?_⟩, hdistinct ?_ (by decide) ?_, ?_⟩
  · refine (htext {} _ _ rfl).trans ?_
    simp [netPrices, ofNetPrice, Apply.layout, Apply.aggregated, Aggregation.measure,
      Aggregation.operandShown, Aggregation.columnName, Aggregation.label, Expr.text,
      Method.token?, Method.name]
  · intro a ha
    rw [hunnamed] at ha
    simp only [netPrices, List.mem_cons, List.not_mem_nil, or_false] at ha
    rcases ha with rfl | rfl | rfl
    · exact .inr ⟨_, isColumn_ofNetPrice (by decide), hplain⟩
    · exact .inr ⟨_, isColumn_ofNetPrice (by decide), hplain⟩
    · exact .inl rfl
  · rw [hunnamed]
    simp [netPrices, ofNetPrice]
  · refine (hnames _ _ (.property "Price_Net") _ ⟨rfl, by decide, rfl, ⟨by decide, by decide⟩⟩
      (isColumn_ofNetPrice (by decide))).2 ⟨rfl, ?_⟩
    simp [underscored, Expr.text]

end RequestUri
