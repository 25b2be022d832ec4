import RequestUri.Protocol.Journal

/-! The course of a computation: acts that it carries out one after another, whatever the state,
until one of them ends it with a fault. -/

namespace RequestUri

/-- An act of a kind `κ` changes the state, or ends the computation with a fault. -/
class Act (κ : Type) (σ : outParam Type) where
  fault? : κ → Option Fault
  act : κ → σ → σ

variable {κ σ α β : Type}

theorem run_bind (x : Run σ α) (g : α → Run σ β) (s : σ) :
    (x >>= g).run s = match x.run s with
      | (.ok a, s') => (g a).run s'
      | (.error fault, s') => (.error fault, s') := by
  change ExceptT.bindCont g (x s).1 (x s).2 = _
  unfold ExceptT.run
  rcases x s with ⟨result, s'⟩
  cases result <;> rfl

section Carry
variable [Act κ σ]

/-- Carries out a course; the value `a` is reached unless an act ends in a fault. -/
def carry (a : α) : List κ → σ → Except Fault α × σ
  | [], s => (.ok a, s)
  | k :: course, s =>
    match Act.fault? k with
    | none => carry a course (Act.act k s)
    | some fault => (.error fault, s)

theorem carry_cons_none (a : α) {k : κ} (course : List κ) (s : σ) (h : Act.fault? k = none) :
    carry a (k :: course) s = carry a course (Act.act k s) := by
  rw [carry, h]

theorem carry_cons_some (a : α) {k : κ} (course : List κ) (s : σ) {fault : Fault}
    (h : Act.fault? k = some fault) : carry a (k :: course) s = (.error fault, s) := by
  rw [carry, h]

theorem carry_append (a : α) (b : β) (u v : List κ) (s : σ) :
    carry b (u ++ v) s = match carry a u s with
      | (.ok _, s') => carry b v s'
      | (.error fault, s') => (.error fault, s') := by
  induction u generalizing s with
  | nil => rfl
  | cons k u ih =>
    rw [List.cons_append]
    cases h : Act.fault? k with
    | none => rw [carry_cons_none _ _ _ h, carry_cons_none _ _ _ h, ih]
    | some fault => rw [carry_cons_some _ _ _ h, carry_cons_some _ _ _ h]

theorem carry_of_faultless (a : α) (course : List κ) (s : σ)
    (h : course.filterMap Act.fault? = []) :
    carry a course s = (.ok a, course.foldl (fun s k => Act.act k s) s) := by
  induction course generalizing s with
  | nil => rfl
  | cons k course ih =>
    have hk : Act.fault? k = none := List.filterMap_eq_nil_iff.1 h k List.mem_cons_self
    rw [List.filterMap_cons_none hk] at h
    rw [carry_cons_none _ _ _ hk, List.foldl_cons]
    exact ih (Act.act k s) h

theorem carry_of_fault (a : α) (course : List κ) (s : σ) {fault : Fault}
    (h : (course.filterMap Act.fault?).head? = some fault) :
    (carry a course s).1 = .error fault := by
  induction course generalizing s with
  | nil => simp at h
  | cons k course ih =>
    cases hk : Act.fault? k with
    | none =>
      rw [List.filterMap_cons_none hk] at h
      rw [carry_cons_none _ _ _ hk]
      exact ih (Act.act k s) h
    | some f =>
      rw [List.filterMap_cons_some hk, List.head?_cons, Option.some.injEq] at h
      rw [carry_cons_some _ _ _ hk, h]

theorem faultless_of_carry_ok {a b : α} {course : List κ} {s s' : σ}
    (h : carry a course s = (.ok b, s')) : course.filterMap Act.fault? = [] := by
  cases hf : course.filterMap Act.fault? with
  | nil => rfl
  | cons fault faults =>
    have he : (carry a course s).1 = .error fault :=
      carry_of_fault a course s (by rw [hf, List.head?_cons])
    simp [h] at he

theorem eq_of_carry_ok {a b : α} {course : List κ} {s s' : σ}
    (h : carry a course s = (.ok b, s')) : b = a := by
  rw [carry_of_faultless a course s (faultless_of_carry_ok h)] at h
  simp_all

/-- What no act breaks holds between the first state of a course and the last, wherever it ends. -/
theorem carry_rel {R : σ → σ → Prop} (hrefl : ∀ s, R s s)
    (htrans : ∀ {s t u}, R s t → R t u → R s u) (hact : ∀ (k : κ) s, R s (Act.act k s)) (a : α)
    (course : List κ) (s : σ) : R s (carry a course s).2 := by
  induction course generalizing s with
  | nil => exact hrefl s
  | cons k course ih =>
    cases hk : Act.fault? k with
    | none =>
      rw [carry_cons_none _ _ _ hk]
      exact htrans (hact k s) (ih (Act.act k s))
    | some fault =>
      rw [carry_cons_some _ _ _ hk]
      exact hrefl s

/-- From every state the computation takes the same course, and ends with `a` if no act ends it
before. -/
def Takes (x : Run σ α) (course : List κ) (a : α) : Prop := ∀ s, x.run s = carry a course s

namespace Takes

theorem pure (a : α) : Takes (Pure.pure a : Run σ α) ([] : List κ) a := fun _ => rfl

theorem bind {x : Run σ α} {g : α → Run σ β} {u v : List κ} {a : α} {b : β}
    (hx : Takes x u a) (hg : Takes (g a) v b) : Takes (x >>= g) (u ++ v) b := by
  intro s
  rw [run_bind, hx s, carry_append a]
  cases h : carry a u s with
  | mk result s' =>
    cases result with
    | ok a' => rw [eq_of_carry_ok h]; exact hg s'
    | error fault => rfl

theorem bind_pure {x : Run σ α} {u : List κ} {a : α} (f : α → β) (hx : Takes x u a) :
    Takes (x >>= fun a => Pure.pure (f a)) u (f a) := by
  rw [← List.append_nil u]
  exact hx.bind (Takes.pure (f a))

theorem modify {course : List κ} {f : σ → σ} (h : course.filterMap Act.fault? = [])
    (hf : ∀ s, course.foldl (fun s k => Act.act k s) s = f s) :
    Takes (modify f : Run σ Unit) course () := by
  intro s
  rw [carry_of_faultless _ _ _ h, hf s]
  rfl

theorem throw {k : κ} {fault : Fault} (a : α) (h : Act.fault? k = some fault) :
    Takes (throw fault : Run σ α) [k] a := by
  intro s
  rw [carry_cons_some _ _ _ h]
  rfl

theorem mapM {ι : Type} {f : ι → Run σ α} {u : ι → List κ} {a : ι → α} (is : List ι)
    (h : ∀ i ∈ is, Takes (f i) (u i) (a i)) : Takes (is.mapM f) (is.flatMap u) (is.map a) := by
  induction is with
  | nil => exact Takes.pure []
  | cons i is ih =>
    rw [List.mapM_cons, List.flatMap_cons, List.map_cons]
    have hi := h i List.mem_cons_self
    have hr := ih fun i' hi' => h i' (List.mem_cons_of_mem i hi')
    exact hi.bind (hr.bind_pure (a i :: ·))

theorem forM {ι : Type} {f : ι → Run σ Unit} {u : ι → List κ} (is : List ι)
    (h : ∀ i ∈ is, Takes (f i) (u i) ()) : Takes (is.forM f) (is.flatMap u) () := by
  induction is with
  | nil => exact Takes.pure ()
  | cons i is ih =>
    rw [List.flatMap_cons]
    have hi := h i List.mem_cons_self
    exact hi.bind (ih fun i' hi' => h i' (List.mem_cons_of_mem i hi'))

end Takes

end Carry

inductive Mark where
  /-- A version is needed. -/
  | need (version : Version)
  | note (event : Event)
  | stop (fault : Fault)

namespace Mark

def fault? : Mark → Option Fault
  | stop fault => some fault
  | _ => none

def version? : Mark → Option Version
  | need version => some version
  | _ => none

def act : Mark → Journal → Journal
  | need version, j => j.raise version
  | note event, j => j.note event
  | stop _, j => j

instance : Act Mark Journal := ⟨fault?, act⟩

theorem need_takes (version : Version) :
    Takes (modify (·.raise version) : Run Journal Unit) [need version] () :=
  Takes.modify rfl fun _ => rfl

theorem note_takes (event : Event) :
    Takes (modify (·.note event) : Run Journal Unit) [note event] () :=
  Takes.modify rfl fun _ => rfl

end Mark

end RequestUri
