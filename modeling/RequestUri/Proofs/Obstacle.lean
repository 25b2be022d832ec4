import RequestUri.Proofs.Operand

/-! How far the writing of an expression gets. It goes through the parts in the order of the walk
and ends at the first one that has no text; the version is raised if a membership test was met on
the way, also when the writing fails later. -/

namespace RequestUri

theorem Journal.raise_raise (j : Journal) (v : Version) : (j.raise v).raise v = j.raise v := by
  have hv : ¬ (j.raise v).version < v := by
    rw [version_raise, Version.not_lt]
    exact (Version.le_max j.version v).2
  rw [raise.eq_def (j.raise v), if_neg hv]

namespace Expr

def isMembership : Expr → Bool
  | binary .isIn _ _ => true
  | _ => false

def obstacle? (parts : List Expr) : Option Expr := parts.find? fun part => part.kind.isTextless

/-- The parts that come before the first one without a text; all of them if there is none. -/
def reached (parts : List Expr) : List Expr := parts.takeWhile fun part => !part.kind.isTextless

def verdict {α : Type} (a : α) : Option Expr → Except Fault α
  | none => .ok a
  | some part => .error (.unsupportedKind part.kind)

def journalAfter (parts : List Expr) (j : Journal) : Journal :=
  if (reached parts).any isMembership then j.raise .v401 else j

theorem obstacle?_eq_none_iff (parts : List Expr) :
    obstacle? parts = none ↔ ∀ part ∈ parts, part.kind.isTextless = false := by
  simp [obstacle?]

theorem mark?_of_isTextless {part : Expr} (h : part.kind.isTextless = true) :
    part.mark? = some (.stop (.unsupportedKind part.kind)) := if_pos h

theorem mark?_of_isMembership {part : Expr} (h : part.isMembership = true) :
    part.kind.isTextless = false ∧ part.mark? = some (.need .v401) := by
  cases part with
  | binary op left right =>
    cases op <;> simp_all [isMembership, mark?, kind, Kind.isTextless]
  | _ => simp [isMembership] at h

theorem mark?_of_quiet {part : Expr} (ht : part.kind.isTextless = false)
    (hm : part.isMembership = false) : part.mark? = none := by
  rw [mark?.eq_def, if_neg (by simp [ht])]
  split
  · simp [isMembership] at hm
  · rfl

section Journal
variable {part : Expr} (parts : List Expr) (j : Journal)

theorem journalAfter_textless (h : part.kind.isTextless = true) :
    journalAfter (part :: parts) j = j := by
  simp [journalAfter, reached, h]

/- Later tests ask for no more than the first one. -/
theorem journalAfter_membership (h : part.isMembership = true) :
    journalAfter parts (j.raise .v401) = journalAfter (part :: parts) j := by
  have ht := (mark?_of_isMembership h).1
  simp [journalAfter, reached, h, ht, Journal.raise_raise]

theorem journalAfter_quiet (ht : part.kind.isTextless = false) (hm : part.isMembership = false) :
    journalAfter (part :: parts) j = journalAfter parts j := by
  simp [journalAfter, reached, ht, hm]

end Journal

theorem carry_marks {α : Type} (a : α) (parts : List Expr) (j : Journal) :
    carry a (parts.filterMap mark?) j =
      (verdict a (obstacle? parts), journalAfter parts j) := by
  induction parts generalizing j with
  | nil => rfl
  | cons part parts ih =>
    cases ht : part.kind.isTextless with
    | true =>
      have ho : obstacle? (part :: parts) = some part := by simp [obstacle?, ht]
      rw [List.filterMap_cons_some (mark?_of_isTextless ht), ho, journalAfter_textless parts j ht]
      exact carry_cons_some a _ j rfl
    | false =>
      have ho : obstacle? (part :: parts) = obstacle? parts := by simp [obstacle?, ht]
      rw [ho]
      cases hm : part.isMembership with
      | true =>
        have hneed : Act.fault? (Mark.need .v401) = none := rfl
        rw [List.filterMap_cons_some (mark?_of_isMembership hm).2, carry_cons_none a _ j hneed,
          ← journalAfter_membership parts j hm]
        exact ih (j.raise .v401)
      | false =>
        rw [List.filterMap_cons_none (mark?_of_quiet ht hm), journalAfter_quiet parts j ht hm]
        exact ih j

/-- The result and the journal of a writing, from the parts alone. -/
theorem write_run (place : Place) (e : Expr) (j : Journal) :
    (e.write place).run j =
      (verdict (e.text place) (obstacle? e.parts), journalAfter e.parts j) := by
  rw [write_takes place e j, marks, carry_marks]

theorem version_journalAfter (parts : List Expr) (j : Journal) :
    (journalAfter parts j).version =
      if (reached parts).any isMembership then max j.version .v401 else j.version := by
  rw [journalAfter]
  split
  · exact j.version_raise .v401
  · rfl

/-- An expression is written just if no part of it is textless; else the first textless part is the
reason. In both cases the version is raised just if a membership test comes before that part. -/
theorem write_outcome (place : Place) (e : Expr) (j : Journal) :
    ((∃ text, ((e.write place).run j).1 = .ok text) ↔
      ∀ part ∈ e.parts, part.kind.isTextless = false) ∧
    (∀ fault, ((e.write place).run j).1 = .error fault ↔
      ∃ part, obstacle? e.parts = some part ∧ fault = .unsupportedKind part.kind) ∧
    ((e.write place).run j).2.version =
      if (reached e.parts).any isMembership then max j.version .v401 else j.version := by
  rw [write_run]
  refine ⟨?_, ?_, version_journalAfter e.parts j⟩
  · rw [← obstacle?_eq_none_iff]
    cases obstacle? e.parts <;> simp [verdict]
  · intro fault
    cases obstacle? e.parts <;> simp [verdict, eq_comm]

/- A membership test is met and then a condition, so the type test is not reached. -/
example : ((list [binary .isIn (property "Id") (list []),
      conditional (property "A") (property "B") (property "C"),
      typeTest (property "D") "NS.T"]).write .query).run {} =
    (.error (.unsupportedKind .conditional), Journal.raise {} .v401) := rfl

end Expr

end RequestUri
