/-! JSON values. The fields of an object stand in the order of their names. -/

namespace RequestUri

/-- Whole numbers of at most 64 bits are kept as they are; all others are doubles, held as bits. -/
inductive Json.Number where
  | whole (n : Int)
  | double (bits : UInt64)
deriving DecidableEq

inductive Json where
  | null
  | bool (b : Bool)
  | number (n : Json.Number)
  | string (s : String)
  | array (items : List Json)
  | object (fields : List (String × Json))

namespace Json

abbrev Fields := List (String × Json)

/-- Sets a field: the last value given for a name counts. -/
def Fields.insert (key : String) (value : Json) : Fields → Fields
  | [] => [(key, value)]
  | (k, v) :: rest =>
    if key < k then (key, value) :: (k, v) :: rest
    else if key = k then (key, value) :: rest
    else (k, v) :: insert key value rest

def Fields.has (fields : Fields) (key : String) : Bool := (fields.lookup key).isSome

def isAtom : Json → Bool
  | array _ => false
  | object _ => false
  | _ => true

mutual
def depth : Json → Nat
  | array items => itemDepth items + 1
  | object fields => fieldDepth fields + 1
  | _ => 0

def itemDepth : List Json → Nat
  | [] => 0
  | item :: rest => max item.depth (itemDepth rest)

def fieldDepth : List (String × Json) → Nat
  | [] => 0
  | (_, value) :: rest => max value.depth (fieldDepth rest)
end

theorem depth_le_itemDepth {value : Json} {items : List Json} (h : value ∈ items) :
    value.depth ≤ itemDepth items := by
  induction items with
  | nil => simp at h
  | cons item rest ih =>
    rcases List.mem_cons.1 h with rfl | h
    · exact Nat.le_max_left ..
    · exact Nat.le_trans (ih h) (Nat.le_max_right ..)

theorem Fields.depth_le_of_lookup {fields : Fields} {key : String} {value : Json}
    (h : fields.lookup key = some value) : value.depth ≤ fieldDepth fields := by
  induction fields with
  | nil => simp at h
  | cons field rest ih =>
    obtain ⟨k, v⟩ := field
    rw [List.lookup_cons] at h
    split at h
    · cases h
      exact Nat.le_max_left ..
    · exact Nat.le_trans (ih h) (Nat.le_max_right ..)

end Json

end RequestUri
