/-! Aliases: names for arguments that are moved out of the path. -/

namespace RequestUri

structure AliasTable where
  entries : List (String × String) := []

namespace AliasTable

def isEmpty (t : AliasTable) : Bool := t.entries.isEmpty

def names (t : AliasTable) : List String := t.entries.map Prod.fst

/-- `@name` is tried first, then `@name1`, `@name2` and so on. -/
def candidate (name : String) : Nat → String
  | 0 => "@" ++ name
  | k + 1 => "@" ++ name ++ toString (k + 1)

/-- The first candidate from the `k`th on that is free, if that is found among the next `n`; else
the one behind them. -/
def freeFrom (t : AliasTable) (name : String) : Nat → Nat → String
  | 0, k => candidate name k
  | n + 1, k =>
    if candidate name k ∈ t.names then freeFrom t name n (k + 1) else candidate name k

/-- Among as many candidates as the table has entries and one more, one is free. -/
def free (t : AliasTable) (name : String) : String := t.freeFrom name t.entries.length 0

/-- Sets the value of an alias, in its place if it has one and else behind all others. -/
def put (label value : String) : List (String × String) → List (String × String)
  | [] => [(label, value)]
  | (l, v) :: rest =>
    if l = label then (l, value) :: rest else (l, v) :: put label value rest

def insert (t : AliasTable) (label value : String) : AliasTable := ⟨put label value t.entries⟩

theorem put_of_not_mem {label : String} {entries : List (String × String)}
    (h : label ∉ entries.map Prod.fst) (value : String) :
    put label value entries = entries ++ [(label, value)] := by
  induction entries with
  | nil => rfl
  | cons entry rest ih =>
    obtain ⟨l, v⟩ := entry
    rw [List.map_cons, List.mem_cons, not_or] at h
    rw [put, if_neg (Ne.symm h.1), ih h.2, List.cons_append]

theorem entries_insert {t : AliasTable} {label : String} (h : label ∉ t.names) (value : String) :
    (t.insert label value).entries = t.entries ++ [(label, value)] :=
  put_of_not_mem h value

def allocate (t : AliasTable) (name value : String) : String × AliasTable :=
  (t.free name, t.insert (t.free name) value)

def text (t : AliasTable) : String :=
  String.intercalate "&" (t.entries.map fun (label, value) => label ++ "=" ++ value)

end AliasTable

end RequestUri
