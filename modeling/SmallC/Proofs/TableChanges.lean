import SmallC.Symbol.Table

/-!
# Declarations as steps

A declaration is a sequence of checks and changes. Analysis stops at the first one
that fails, so all it sees is what a declaration comes to, and the first half of
this file says what that is, one equation for each way to declare a name.

The second half is about the table that a failed declaration leaves behind. Only a
check can fail, and no check comes after the first change. So a declaration is a
row of steps that only read, then `define`, which checks before it binds, then
steps that cannot fail, and the table is the one from before.
-/

namespace SmallC

namespace Table

/-! ## What a declaration comes to -/

namespace Change

variable {α β : Type}

theorem outcome_bind (x : Change α) (f : α → Change β) (t : Table) :
    (x >>= f).outcome t = x.outcome t >>= fun p => (f p.2).outcome p.1 := by
  show outcome (EStateM.bind x f) t = _
  unfold outcome EStateM.run EStateM.bind
  cases x t <;> rfl

theorem outcome_ofExcept_bind (x : Except Fault α) (f : α → Change β) (t : Table) :
    (ofExcept x >>= f).outcome t = x >>= fun a => (f a).outcome t := by
  cases x <;> rfl

theorem outcome_get_bind (f : Table → Change β) (t : Table) :
    (get >>= f).outcome t = (f t).outcome t := rfl

theorem outcome_eq_ok_iff {x : Change α} {t t' : Table} {a : α} :
    x.outcome t = .ok (t', a) ↔ x.run t = .ok a t' := by
  unfold outcome
  cases x.run t with
  | ok b u =>
      refine ⟨fun h => ?_, fun h => ?_⟩ <;> (cases h; rfl)
  | error fault u =>
      refine ⟨fun h => ?_, fun h => ?_⟩ <;> cases h

theorem outcome_eq_error_iff {x : Change α} {t : Table} {fault : Fault} :
    x.outcome t = .error fault ↔ ∃ t', x.run t = .error fault t' := by
  unfold outcome
  cases x.run t with
  | ok a u =>
      refine ⟨fun h => ?_, fun ⟨t', h⟩ => ?_⟩ <;> cases h
  | error fault' u =>
      refine ⟨fun h => ⟨u, ?_⟩, fun ⟨t', h⟩ => ?_⟩ <;> (cases h; rfl)

end Change

section

variable (t : Table) (s : Nat) (id : Symbol)

theorem define_eq : t.define s id = (do
    checkFree id (t.lookupLocal s id.name)
    return { t with names := t.names.bind s id.name id }) := by
  unfold define Change.define
  rw [Change.outcome_get_bind, Change.outcome_ofExcept_bind]
  cases checkFree id (t.lookupLocal s id.name) <;> rfl

theorem outcome_define_bind {α : Type} (f : Unit → Change α) :
    (Change.define s id >>= f).outcome t = t.define s id >>= (f ()).outcome := by
  rw [Change.outcome_bind]
  unfold define
  cases (Change.define s id).outcome t <;> rfl

theorem addParam_eq : t.addParam s id = (do
    let some f := t.function? s | .error (.bug id.pos (.strayParameter id.name))
    checkName id
    checkFree id (f.param? id.name)
    let id := { id with storage := .param, slot := f.params.length }
    let t ← t.define s id
    return (t.modifyFunction s fun f => { f with params := f.params ++ [id] }, id)) := by
  unfold addParam Change.addParam
  rw [Change.outcome_get_bind]
  cases t.function? s with
  | none => rfl
  | some f =>
      simp only [Change.outcome_ofExcept_bind, outcome_define_bind]
      rfl

theorem addLocal_eq (f : Function) : t.addLocal s f id = (do
    checkFree id (f.find? id.name)
    let id := { id with storage := .automatic, slot := f.locals.length }
    let t ← t.define s id
    return (t.modifyFunction s fun f => { f with locals := f.locals ++ [id] }, id)) := by
  unfold addLocal Change.addLocal
  simp only [Change.outcome_ofExcept_bind, outcome_define_bind]
  rfl

theorem addStatic_eq (g : Nat) : t.addStatic s g id = (do
    let inBlock := (t.frames[s]?).any (·.level == .block)
    if inBlock then checkFree id (t.lookup s id.name)
    checkFree id (t.globalConflict g id.name)
    let storage : Storage := if inBlock then .globalLocal else .global
    let id := { id with storage := storage, slot := (t.statics g).length }
    let t ← t.define s id
    return (t.pushStatic g id, id)) := by
  unfold addStatic Change.addStatic
  rw [Change.outcome_get_bind]
  dsimp only
  split <;> (simp only [Change.outcome_ofExcept_bind, outcome_define_bind]; rfl)

theorem addVar_eq : t.addVar s id = (do
    let some g := t.global? s | .error (.bug id.pos (.strayVariable id.name))
    checkName id
    match t.function? s with
    | some f => t.addLocal s f id
    | none => t.addStatic s g id) := by
  unfold addVar Change.addVar
  rw [Change.outcome_get_bind]
  cases t.global? s with
  | none => rfl
  | some g =>
      dsimp only
      rw [Change.outcome_ofExcept_bind]
      cases t.function? s <;> rfl

theorem addFunc_eq : t.addFunc s id = (do
    let some g := t.global? s | .error (.bug id.pos (.strayFunction id.name))
    checkName id
    checkFree id (t.globalConflict g id.name)
    let id := { id with storage := .global, slot := Symbol.noSlot }
    let t ← t.define g id
    return (t, id)) := by
  unfold addFunc Change.addFunc
  rw [Change.outcome_get_bind]
  cases t.global? s with
  | none => rfl
  | some g =>
      simp only [Change.outcome_ofExcept_bind, outcome_define_bind]
      rfl

end

/-! ## The table after a failure -/

namespace Change

variable {α β : Type} {x : Change α} {f : α → Change β}

/-- A step that changes nothing, whether it fails or not. -/
def Reads (x : Change α) : Prop :=
  ∀ t, (∃ a, x.run t = .ok a t) ∨ ∃ fault, x.run t = .error fault t

/-- A step that does not fail. -/
def Sure (x : Change α) : Prop := ∀ t, ∃ a t', x.run t = .ok a t'

/-- A step that changes nothing if it fails. -/
def Atomic (x : Change α) : Prop := ∀ t t' fault, x.run t = .error fault t' → t' = t

theorem run_bind_ok {t t' : Table} {a : α} (h : x.run t = .ok a t') :
    (x >>= f).run t = (f a).run t' := by
  show EStateM.bind x f t = _
  unfold EStateM.bind
  rw [show x t = _ from h]
  rfl

theorem run_bind_error {t t' : Table} {fault : Fault} (h : x.run t = .error fault t') :
    (x >>= f).run t = .error fault t' := by
  show EStateM.bind x f t = _
  unfold EStateM.bind
  rw [show x t = _ from h]

theorem reads_get : Reads get := fun t => .inl ⟨t, rfl⟩

theorem reads_ofExcept (y : Except Fault α) : Reads (ofExcept y) := by
  intro t
  cases y with
  | ok a => exact .inl ⟨a, rfl⟩
  | error fault => exact .inr ⟨fault, rfl⟩

theorem sure_pure (a : α) : Sure (pure a) := fun t => ⟨a, t, rfl⟩

theorem sure_modify (g : Table → Table) : Sure (modify g) := fun t => ⟨⟨⟩, g t, rfl⟩

theorem Sure.bind (hx : Sure x) (hf : ∀ a, Sure (f a)) : Sure (x >>= f) := by
  intro t
  obtain ⟨a, t', h⟩ := hx t
  rw [run_bind_ok h]
  exact hf a t'

theorem Reads.atomic (hx : Reads x) : Atomic x := by
  intro t t' fault h
  rcases hx t with ⟨a, hok⟩ | ⟨fault', herror⟩
  · cases hok.symm.trans h
  · cases herror.symm.trans h
    rfl

theorem Sure.atomic (hx : Sure x) : Atomic x := by
  intro t t' fault h
  obtain ⟨a, t'', hok⟩ := hx t
  cases hok.symm.trans h

/-- What only reads may stand before anything. -/
theorem Reads.bind_atomic (hx : Reads x) (hf : ∀ a, Atomic (f a)) : Atomic (x >>= f) := by
  intro t t' fault h
  rcases hx t with ⟨a, hok⟩ | ⟨fault', herror⟩
  · rw [run_bind_ok hok] at h
    exact hf a t t' fault h
  · rw [run_bind_error herror] at h
    cases h
    rfl

/-- What cannot fail may stand after anything. -/
theorem Atomic.bind_sure (hx : Atomic x) (hf : ∀ a, Sure (f a)) : Atomic (x >>= f) := by
  intro t t' fault h
  cases hrun : x.run t with
  | ok a t'' =>
      rw [run_bind_ok hrun] at h
      obtain ⟨b, t''', hok⟩ := hf a t''
      cases hok.symm.trans h
  | error fault' t'' =>
      rw [run_bind_error hrun] at h
      cases h
      exact hx t t' fault hrun

section

variable (s : Nat) (id : Symbol)

theorem atomic_define : Atomic (define s id) :=
  reads_get.bind_atomic fun _ => (reads_ofExcept _).bind_atomic fun _ => (sure_modify _).atomic

/-- A name is bound, and what is stored about it is added afterwards. -/
theorem atomic_define_modify (g : Table → Table) (a : α) :
    Atomic (do define s id; modify g; return a) :=
  (atomic_define s id).bind_sure fun _ => (sure_modify g).bind fun _ => sure_pure a

theorem atomic_addParam : Atomic (addParam s id) := by
  refine reads_get.bind_atomic fun t => ?_
  cases t.function? s with
  | none => exact (reads_ofExcept (.error _)).atomic
  | some f =>
      exact (reads_ofExcept _).bind_atomic fun _ => (reads_ofExcept _).bind_atomic fun _ =>
        atomic_define_modify s _ _ _

theorem atomic_addLocal (f : Function) : Atomic (addLocal s f id) :=
  (reads_ofExcept _).bind_atomic fun _ => atomic_define_modify s _ _ _

theorem atomic_addStatic (g : Nat) : Atomic (addStatic s g id) := by
  refine reads_get.bind_atomic fun t => ?_
  dsimp only
  split
  · exact (reads_ofExcept _).bind_atomic fun _ => (reads_ofExcept _).bind_atomic fun _ =>
      atomic_define_modify s _ _ _
  · exact (reads_ofExcept _).bind_atomic fun _ => atomic_define_modify s _ _ _

theorem atomic_addVar : Atomic (addVar s id) := by
  refine reads_get.bind_atomic fun t => ?_
  cases t.global? s with
  | none => exact (reads_ofExcept (.error _)).atomic
  | some g =>
      refine (reads_ofExcept _).bind_atomic fun _ => ?_
      cases t.function? s with
      | none => exact atomic_addStatic s id g
      | some f => exact atomic_addLocal s id f

theorem atomic_addFunc : Atomic (addFunc s id) := by
  refine reads_get.bind_atomic fun t => ?_
  cases t.global? s with
  | none => exact (reads_ofExcept (.error _)).atomic
  | some g =>
      exact (reads_ofExcept _).bind_atomic fun _ => (reads_ofExcept _).bind_atomic fun _ =>
        (atomic_define g _).bind_sure fun _ => sure_pure _

end

end Change

end Table

end SmallC
