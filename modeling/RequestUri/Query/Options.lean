/-! The query options of a whole request: each key once, where it was first met, with all its
values. -/

namespace RequestUri

structure OptionTable where
  buckets : List (String × List String) := []

namespace OptionTable

def isEmpty (t : OptionTable) : Bool := t.buckets.isEmpty

def keys (t : OptionTable) : List String := t.buckets.map Prod.fst

def put (key value : String) : List (String × List String) → List (String × List String)
  | [] => [(key, [value])]
  | (k, values) :: rest =>
    if k = key then (k, values ++ [value]) :: rest else (k, values) :: put key value rest

def add (t : OptionTable) (key value : String) : OptionTable := ⟨put key value t.buckets⟩

theorem keys_put (key value : String) (buckets : List (String × List String)) :
    (put key value buckets).map Prod.fst =
      if key ∈ buckets.map Prod.fst then buckets.map Prod.fst
      else buckets.map Prod.fst ++ [key] := by
  induction buckets with
  | nil => simp [put]
  | cons bucket rest ih =>
    obtain ⟨k, values⟩ := bucket
    by_cases h : k = key
    · simp [put, h]
    · by_cases hr : key ∈ rest.map Prod.fst <;> simp_all [put, Ne.symm h]

theorem keys_add (t : OptionTable) (key value : String) :
    (t.add key value).keys = if key ∈ t.keys then t.keys else t.keys ++ [key] :=
  keys_put key value t.buckets

def text (t : OptionTable) : String :=
  String.intercalate "&" (t.buckets.map fun (key, values) =>
    key ++ "=" ++ String.intercalate "," values)

end OptionTable

end RequestUri
