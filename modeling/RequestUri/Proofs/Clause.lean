import Mathlib.Data.List.Basic
import RequestUri.Proofs.Course
import RequestUri.Query.Pipeline

/-! The text of a query option and the course of its formatting, from the texts and the courses of
its operands. -/

namespace RequestUri

variable {ε κ : Type}

namespace Aggregation

/-- Row counts have no operand, whatever they come with. -/
def written (a : Aggregation ε) : List ε := if a.method = .count then [] else a.operand.toList

def IsComplete (a : Aggregation ε) : Prop :=
  (∀ name, a.method ≠ .custom name) ∧ (a.method = .count ∨ a.operand.isSome)

def operandShown (text : ε → String) (a : Aggregation ε) : String :=
  if a.method = .count then "" else (a.operand.map text).getD ""

def shown (text : ε → String) (a : Aggregation ε) : String :=
  let operand := a.operandShown text
  let token := a.method.token?.getD ""
  (if operand = "" then token else operand ++ " with " ++ token) ++ " as " ++ a.label operand

def course (stop : Fault → κ) (course : ε → List κ) (a : Aggregation ε) : List κ :=
  match a.method, a.operand with
  | .custom name, _ => [stop (.unsupportedMethod name)]
  | .count, _ => []
  | _, some operand => course operand
  | method, none => [stop (.nothingToAggregate method)]

end Aggregation

namespace Apply

/-- A clause that neither groups nor aggregates is left out. -/
def isIdle (clause : Apply ε) : Bool := clause.aggregations.isEmpty && clause.grouping.isEmpty

def filterText (text : ε → String) (clause : Apply ε) : String :=
  match clause.predicate with
  | none => ""
  | some predicate => "filter(" ++ text predicate ++ ")/"

def aggregateText (text : ε → String) (clause : Apply ε) : String :=
  "aggregate(" ++ String.intercalate "," (clause.aggregations.map (Aggregation.shown text)) ++ ")"

def groupText (text : ε → String) (clause : Apply ε) : String :=
  String.intercalate "," (clause.grouping.map text)

def shown (text : ε → String) (clause : Apply ε) : String :=
  clause.filterText text ++
    match clause.grouping.isEmpty, clause.aggregations.isEmpty with
    | true, _ => clause.aggregateText text
    | false, true => "groupby((" ++ clause.groupText text ++ "))"
    | false, false =>
      "groupby((" ++ clause.groupText text ++ ")," ++ clause.aggregateText text ++ ")"

/-- The predicate comes first, then the aggregations, then the groups. -/
def course (stop : Fault → κ) (course : ε → List κ) (clause : Apply ε) : List κ :=
  if clause.isIdle then []
  else
    clause.predicate.toList.flatMap course ++
      (clause.aggregations.flatMap (Aggregation.course stop course) ++
        clause.grouping.flatMap course)

end Apply

def Selector.shown (text : ε → String) (s : Selector ε) : String :=
  text s.operand ++ if s.descending then " desc" else ""

namespace QueryOption

def shown (text : ε → String) : QueryOption ε → Option (String × String)
  | skip amount => some ("$skip", text amount)
  | top amount => some ("$top", text amount)
  | orderBy [] => none
  | orderBy selectors =>
    some ("$orderby", String.intercalate "," (selectors.map (Selector.shown text)))
  | filter predicate => some ("$filter", text predicate)
  | apply clause => if clause.isIdle then none else some ("$apply", clause.shown text)

def course (stop : Fault → κ) (course : ε → List κ) : QueryOption ε → List κ
  | skip amount => course amount
  | top amount => course amount
  | orderBy selectors => selectors.flatMap fun s => course s.operand
  | filter predicate => course predicate
  | apply clause => clause.course stop course

def operands : QueryOption ε → List ε
  | skip amount => [amount]
  | top amount => [amount]
  | orderBy selectors => selectors.map Selector.operand
  | filter predicate => [predicate]
  | apply clause =>
    if clause.isIdle then []
    else clause.predicate.toList ++
      (clause.aggregations.flatMap Aggregation.written ++ clause.grouping)

def aggregations : QueryOption ε → List (Aggregation ε)
  | apply clause => clause.aggregations
  | _ => []

end QueryOption

section Complete
variable (stop : Fault → κ) (course : ε → List κ)

theorem Aggregation.course_of_isComplete {a : Aggregation ε} (h : a.IsComplete) :
    a.course stop course = a.written.flatMap course := by
  obtain ⟨method, operand, given⟩ := a
  cases method <;> cases operand <;> simp_all [IsComplete, Aggregation.course, written]

/-- If all aggregations are complete, only the written operands count. -/
theorem QueryOption.course_of_isComplete {option : QueryOption ε}
    (h : ∀ a ∈ option.aggregations, a.IsComplete) :
    option.course stop course = option.operands.flatMap course := by
  cases option with
  | skip amount => simp [QueryOption.course, operands]
  | top amount => simp [QueryOption.course, operands]
  | orderBy selectors => simp [QueryOption.course, operands, List.flatMap_map]
  | filter predicate => simp [QueryOption.course, operands]
  | apply clause =>
    have ha : clause.aggregations.flatMap (Aggregation.course stop course) =
        (clause.aggregations.flatMap Aggregation.written).flatMap course := by
      rw [List.flatMap_assoc]
      exact List.flatMap_congr fun a ha => a.course_of_isComplete stop course (h a ha)
    rw [QueryOption.course, operands, Apply.course]
    cases clause.isIdle with
    | true => rfl
    | false => simp [ha]

theorem Aggregation.isComplete_of_course {a : Aggregation ε} (h : a.course stop course = []) :
    a.IsComplete := by
  obtain ⟨method, operand, given⟩ := a
  cases method <;> cases operand <;> simp_all [IsComplete, Aggregation.course]

theorem QueryOption.isComplete_of_course {option : QueryOption ε}
    (h : option.course stop course = []) : ∀ a ∈ option.aggregations, a.IsComplete := by
  intro a ha
  cases option with
  | apply clause =>
    have hi : clause.isIdle = false := by
      simp [Apply.isIdle, List.ne_nil_of_mem (show a ∈ clause.aggregations from ha)]
    rw [QueryOption.course, Apply.course, hi, if_neg Bool.false_ne_true,
      List.append_eq_nil_iff, List.append_eq_nil_iff] at h
    exact a.isComplete_of_course stop course (List.flatMap_eq_nil_iff.1 h.2.1 a ha)
  | skip amount => cases ha
  | top amount => cases ha
  | orderBy selectors => cases ha
  | filter predicate => cases ha

end Complete

section FilterMap
variable {ι : Type} {stop : Fault → κ} {f : κ → Option ι} {g : Fault → ι}

theorem Aggregation.filterMap_course (h : ∀ fault, f (stop fault) = some (g fault))
    (course : ε → List κ) (a : Aggregation ε) :
    (a.course stop course).filterMap f = a.course g fun e => (course e).filterMap f := by
  obtain ⟨method, operand, given⟩ := a
  cases method <;> cases operand <;> simp [Aggregation.course, h]

theorem QueryOption.filterMap_course (h : ∀ fault, f (stop fault) = some (g fault))
    (course : ε → List κ) (option : QueryOption ε) :
    (option.course stop course).filterMap f = option.course g fun e => (course e).filterMap f := by
  cases option with
  | apply clause =>
    rw [QueryOption.course, QueryOption.course, Apply.course, Apply.course]
    cases clause.isIdle with
    | true => rfl
    | false => simp [List.filterMap_flatMap, Aggregation.filterMap_course h]
  | orderBy selectors => exact List.filterMap_flatMap
  | skip amount => rfl
  | top amount => rfl
  | filter predicate => rfl

end FilterMap

section Formatted
variable {format : ε → Run Journal String} {text : ε → String} {marks : ε → List Mark}

theorem Aggregation.operandText_takes (h : ∀ e, Takes (format e) (marks e) (text e))
    (a : Aggregation ε) (ha : ∀ name, a.method ≠ .custom name) :
    Takes (a.operandText format) (a.course .stop marks) (a.operandShown text) := by
  obtain ⟨method, operand, given⟩ := a
  by_cases hc : method = .count
  · subst hc
    exact Takes.pure ""
  · rw [operandText, operandShown, if_neg hc, if_neg hc]
    cases operand with
    | none =>
      have hm : Aggregation.course .stop marks ⟨method, none, given⟩ =
          [.stop (.nothingToAggregate method)] := by
        cases method <;> simp_all [Aggregation.course]
      rw [hm]
      exact Takes.throw _ rfl
    | some operand =>
      have hm : Aggregation.course .stop marks ⟨method, some operand, given⟩ = marks operand := by
        cases method <;> simp_all [Aggregation.course]
      rw [hm]
      exact h operand

theorem Aggregation.entry_takes (h : ∀ e, Takes (format e) (marks e) (text e))
    (a : Aggregation ε) : Takes (a.entry format) (a.course .stop marks) (a.shown text) := by
  rw [entry]
  cases ht : a.method.token? with
  | none =>
    obtain ⟨name, hn⟩ : ∃ name, a.method = .custom name := by
      cases hm : a.method <;> simp_all [Method.token?]
    simp only [Aggregation.course, hn]
    exact Takes.throw _ rfl
  | some token =>
    have ha : ∀ name, a.method ≠ .custom name := by
      intro name hn
      simp [hn, Method.token?] at ht
    simp only [shown, ht, Option.getD_some]
    exact (operandText_takes h a ha).bind_pure _

theorem Selector.entry_takes (h : ∀ e, Takes (format e) (marks e) (text e)) (s : Selector ε) :
    Takes (s.entry format) (marks s.operand) (s.shown text) := by
  have hs : s.shown text = if s.descending then text s.operand ++ " desc" else text s.operand := by
    cases hd : s.descending <;> simp [shown, hd]
  rw [hs]
  exact (h s.operand).bind_pure fun text => if s.descending then text ++ " desc" else text

namespace Apply

theorem filterStage_takes (h : ∀ e, Takes (format e) (marks e) (text e)) (clause : Apply ε) :
    Takes (clause.filterStage format) (clause.predicate.toList.flatMap marks)
      (clause.filterText text) := by
  rw [filterStage, filterText]
  cases clause.predicate with
  | none => exact Takes.pure ""
  | some predicate =>
    simp only [Option.toList_some, List.flatMap_cons, List.flatMap_nil, List.append_nil]
    exact (h predicate).bind_pure fun text => "filter(" ++ text ++ ")/"

theorem aggregateStage_takes (h : ∀ e, Takes (format e) (marks e) (text e)) (clause : Apply ε) :
    Takes (clause.aggregateStage format) (clause.aggregations.flatMap (Aggregation.course .stop marks))
      (if clause.aggregations.isEmpty then none else some (clause.aggregateText text)) := by
  rw [aggregateStage]
  by_cases he : clause.aggregations.isEmpty
  · rw [if_pos he, if_pos he, List.isEmpty_iff.1 he]
    exact Takes.pure none
  · rw [if_neg he, if_neg he]
    exact (Takes.mapM clause.aggregations fun a _ => a.entry_takes h).bind_pure fun entries =>
      some ("aggregate(" ++ String.intercalate "," entries ++ ")")

theorem pipeline_takes (h : ∀ e, Takes (format e) (marks e) (text e)) (clause : Apply ε) :
    Takes (clause.pipeline format) (clause.course .stop marks)
      (if clause.isIdle then none else some (clause.shown text)) := by
  rw [pipeline, Apply.course, isIdle]
  by_cases hi : (clause.aggregations.isEmpty && clause.grouping.isEmpty) = true
  · rw [if_pos hi, if_pos hi, if_pos hi]
    exact Takes.pure none
  · rw [if_neg hi, if_neg hi, if_neg hi]
    refine Takes.bind (filterStage_takes h clause) ?_
    refine Takes.bind (aggregateStage_takes h clause) ?_
    have hgroups := Takes.mapM clause.grouping fun e _ => h e
    cases hg : clause.grouping.isEmpty with
    | true =>
      have ha : clause.aggregations.isEmpty = false := by simpa [hg] using hi
      have hs : clause.shown text = clause.filterText text ++ clause.aggregateText text := by
        simp [shown, hg]
      simp only [ha, hs]
      exact hgroups.bind_pure fun _ => some (clause.filterText text ++ clause.aggregateText text)
    | false =>
      have hs : clause.shown text = clause.filterText text ++ groupStage (clause.grouping.map text)
          (if clause.aggregations.isEmpty then none else some (clause.aggregateText text)) := by
        cases ha : clause.aggregations.isEmpty <;>
          simp [shown, hg, ha, groupStage, groupText]
      rw [hs]
      exact hgroups.bind_pure fun groups => some (clause.filterText text ++ groupStage groups
        (if clause.aggregations.isEmpty then none else some (clause.aggregateText text)))

end Apply

theorem QueryOption.entry_takes (h : ∀ e, Takes (format e) (marks e) (text e))
    (option : QueryOption ε) :
    Takes (option.entry format) (option.course .stop marks) (option.shown text) := by
  cases option with
  | skip amount => exact (h amount).bind_pure fun text => some ("$skip", text)
  | top amount => exact (h amount).bind_pure fun text => some ("$top", text)
  | orderBy selectors =>
    cases selectors with
    | nil => exact Takes.pure none
    | cons s rest =>
      exact (Takes.mapM (s :: rest) fun s _ => s.entry_takes h).bind_pure fun texts =>
        some ("$orderby", String.intercalate "," texts)
  | filter predicate => exact (h predicate).bind_pure fun text => some ("$filter", text)
  | apply clause =>
    have hs : (apply clause).shown text = (if clause.isIdle then none
        else some (clause.shown text)).map fun value => ("$apply", value) := by
      cases hi : clause.isIdle <;> simp [shown, hi]
    rw [hs]
    exact (clause.pipeline_takes h).bind_pure (Option.map fun value => ("$apply", value))

end Formatted

end RequestUri
