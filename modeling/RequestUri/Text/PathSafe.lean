/-! Characters that would end a path segment or the path itself are percent-encoded. -/

namespace RequestUri.Text

def pathSafeChar (c : Char) : List Char :=
  if c = '%' then ['%', '2', '5']
  else if c = '/' then ['%', '2', 'F']
  else if c = '?' then ['%', '3', 'F']
  else if c = '#' then ['%', '2', '3']
  else [c]

def pathSafe (s : String) : String := String.ofList (s.toList.flatMap pathSafeChar)

theorem not_mem_pathSafe {c : Char} (h : c = '/' ∨ c = '?' ∨ c = '#') (s : String) :
    c ∉ (pathSafe s).toList := by
  simp only [pathSafe, String.toList_ofList, List.mem_flatMap, not_exists, not_and]
  intro d _
  rcases h with rfl | rfl | rfl <;> (simp only [pathSafeChar]; split <;> grind)

end RequestUri.Text
