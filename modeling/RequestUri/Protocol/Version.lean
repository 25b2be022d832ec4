import RequestUri.Text.Blank
import RequestUri.Text.Digit

/-! Protocol versions. -/

namespace RequestUri

structure Version where
  major : UInt8
  minor : UInt8
deriving DecidableEq

namespace Version

def baseline : Version := ⟨4, 0⟩

def v401 : Version := ⟨4, 1⟩

instance : LE Version where
  le a b := a.major < b.major ∨ a.major = b.major ∧ a.minor ≤ b.minor

instance : LT Version where
  lt a b := a.major < b.major ∨ a.major = b.major ∧ a.minor < b.minor

instance (a b : Version) : Decidable (a ≤ b) :=
  inferInstanceAs (Decidable (a.major < b.major ∨ a.major = b.major ∧ a.minor ≤ b.minor))

instance (a b : Version) : Decidable (a < b) :=
  inferInstanceAs (Decidable (a.major < b.major ∨ a.major = b.major ∧ a.minor < b.minor))

instance : Max Version := maxOfLe

theorem le_def {a b : Version} :
    a ≤ b ↔ a.major < b.major ∨ a.major = b.major ∧ a.minor ≤ b.minor := Iff.rfl

theorem lt_def {a b : Version} :
    a < b ↔ a.major < b.major ∨ a.major = b.major ∧ a.minor < b.minor := Iff.rfl

protected theorem le_refl (a : Version) : a ≤ a := le_def.2 (.inr ⟨rfl, UInt8.le_refl _⟩)

protected theorem le_total (a b : Version) : a ≤ b ∨ b ≤ a := by
  simp only [le_def]
  grind

protected theorem le_trans {a b c : Version} (h : a ≤ b) (h' : b ≤ c) : a ≤ c := by
  simp only [le_def] at *
  grind

protected theorem le_antisymm {a b : Version} (h : a ≤ b) (h' : b ≤ a) : a = b := by
  cases a
  cases b
  simp only [le_def] at h h'
  grind

protected theorem not_lt {a b : Version} : ¬ a < b ↔ b ≤ a := by
  simp only [le_def, lt_def]
  grind

protected theorem le_of_lt {a b : Version} (h : a < b) : a ≤ b := by
  simp only [le_def, lt_def] at *
  grind

theorem max_def (a b : Version) : max a b = if a ≤ b then b else a := rfl

theorem le_max (a b : Version) : a ≤ max a b ∧ b ≤ max a b := by
  by_cases h : a ≤ b
  · rw [max_def, if_pos h]
    exact ⟨h, Version.le_refl b⟩
  · rw [max_def, if_neg h]
    exact ⟨Version.le_refl a, (Version.le_total a b).resolve_left h⟩

/-- A minor number other than zero has at least two digits. -/
def minorText (n : UInt8) : String :=
  if n.toNat = 0 then "0"
  else if n.toNat < 10 then "0" ++ toString n.toNat
  else toString n.toNat

def text (v : Version) : String :=
  toString v.major.toNat ++ "." ++ minorText v.minor

/-- A number below 256; a plus sign may stand before it. -/
def byte? (cs : List Char) : Option UInt8 := do
  let digits := match cs with
    | '+' :: rest => rest
    | rest => rest
  let n ← Text.natural? digits
  if n < 256 then some n.toUInt8 else none

def ofText? (s : String) : Option Version := do
  let cs := Text.trim s.toList
  match cs.dropWhile (· != '.') with
  | [] => none
  | _ :: minor => return ⟨← byte? (cs.takeWhile (· != '.')), ← byte? minor⟩

end Version

end RequestUri
