import RequestUri.Protocol.Fault

/-! The journal of a request: the protocol version that it needs, and what happened. -/

namespace RequestUri

inductive Event where
  | started (start : Start)
  | followed (link : Link)
  | binding (kind : Kind)
  | raised (held candidate : Version)
  | aliased (label parameter : String)
  | finished (uri : String) (version : Version)

namespace Event

def level : Event → String
  | finished .. => "DEBUG"
  | _ => "TRACE"

def message : Event → String
  | started (.entitySet name) => "entity set " ++ name
  | started .serviceRoot => "service root"
  | followed (.navigation member) => "navigation " ++ member
  | followed (.singleton member) => "singleton " ++ member
  | binding kind => "binding " ++ kind.text ++ " source of operation invocation"
  | raised held candidate =>
    "protocol version raised " ++ held.text ++ " -> " ++ candidate.text
  | aliased label parameter => "alias " ++ label ++ " allocated for parameter " ++ parameter
  | finished uri version =>
    "translated request uri " ++ uri ++ " (version " ++ version.text ++ ")"

end Event

structure Journal where
  /-- The highest version needed so far. -/
  version : Version := .baseline
  /-- Oldest first. -/
  events : List Event := []

namespace Journal

def note (j : Journal) (e : Event) : Journal := { j with events := j.events ++ [e] }

def raise (j : Journal) (candidate : Version) : Journal :=
  if j.version < candidate then
    { version := candidate, events := j.events ++ [.raised j.version candidate] }
  else j

theorem version_raise (j : Journal) (v : Version) : (j.raise v).version = max j.version v := by
  by_cases h : j.version < v
  · simp [raise, h, Version.max_def, Version.le_of_lt h]
  · by_cases hv : j.version ≤ v
    · have he := Version.le_antisymm hv (Version.not_lt.1 h)
      rw [raise, if_neg h, Version.max_def, if_pos hv]
      exact he
    · simp [raise, h, Version.max_def, hv]

theorem version_note (j : Journal) (e : Event) : (j.note e).version = j.version := rfl

end Journal

/-- A computation that ends in a value or a fault and leaves a state behind in both cases. -/
abbrev Run (σ α : Type) := ExceptT Fault (StateM σ) α

end RequestUri
