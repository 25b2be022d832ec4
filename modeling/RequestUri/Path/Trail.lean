import RequestUri.Path.Service

/-! The trail of a resource tree: its nodes in the order in which the path goes through them. -/

namespace RequestUri

structure Trail where
  start : Start
  decoration : Decoration Expr
  links : List (Link × Decoration Expr) := []

namespace Trail

def extend (t : Trail) (link : Link) (decoration : Decoration Expr) : Trail :=
  { t with links := t.links ++ [(link, decoration)] }

/-- Goes from a node through its sources to the root. A source that is no resource can be bound
if an operation is invoked on it; the trail then goes on from what it is bound to, by `onward`. -/
def walk (bind : Expr → Except Fault Expr) (onward : Expr → Run Journal Trail) :
    Expr → Run Journal Trail
  | .root start decoration => do
    modify (·.note (.started start))
    return { start, decoration }
  | .follow source link decoration => do
    modify (·.note (.followed link))
    let trail ←
      if source.kind ≠ .resource ∧ decoration.operation.isSome then do
        modify (·.note (.binding source.kind))
        onward (← liftExcept (bind source))
      else walk bind onward source
    return trail.extend link decoration
  | e => throw (.unsupportedKind e.kind)
where
  liftExcept (x : Except Fault Expr) : Run Journal Expr :=
    match x with
    | .ok e => pure e
    | .error fault => throw fault

/-- What a source is bound to may have an unbound source in turn. This is a bound of the library's
own, so that a walk always ends: past it a source is refused that could still be bound. -/
def bindingLimit : Nat := 1000

def within (bind : Expr → Except Fault Expr) : Nat → Expr → Run Journal Trail
  | 0, e => walk bind (fun bound => throw (.unsupportedKind bound.kind)) e
  | n + 1, e => walk bind (within bind n) e

end Trail

def Service.trail (service : Service) (tree : Expr) : Run Journal Trail :=
  Trail.within service.bind Trail.bindingLimit tree

end RequestUri
