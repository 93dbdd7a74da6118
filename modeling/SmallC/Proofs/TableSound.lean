import SmallC.Proofs.Reach
import SmallC.Proofs.TableFrames

/-!
# Sound symbol tables

Every name in a sound table stands for something that code in its scope can use:
a variable or an array stored within reach, or a function with a signature made
of proper types. The tree of scopes is what makes this useful. A name is looked
for in the scopes around the place where it is mentioned, and whatever code in
an outer scope reaches, code in an inner scope reaches too, because one program
is all around and functions are not nested.

Storage is given out while declarations are checked, so a table is sound again
after each of its operations. Each operation has one lemma here, and those that
declare something say as well what the new symbol is.
-/

namespace SmallC

namespace Table

/-- The storage that code in a scope reaches. -/
def reach (t : Table) (s : Nat) : Reach := ⟨t.statics s, t.function? s⟩

/-- Whether a function was declared at this very scope. -/
def Marked (t : Table) (s : Nat) : Prop := (t.functionAt? s).isSome = true

/-- Scope `s` is opened right inside `p`: it belongs to the same program, unless `p` belongs to none,
and is not the scope of a function if `p` is inside of one. -/
structure Below (t : Table) (p s : Nat) : Prop where
  lt : p < s
  chain : t.chain s = s :: t.chain p
  global : t.global? p = none ∨ t.global? s = t.global? p
  function : t.Marked s → ∀ l ∈ t.chain p, ¬ t.Marked l

/-- The scopes of a table form a tree. -/
structure Shaped (t : Table) : Prop where
  levels : t.names.levels.size = t.size
  nonempty : 0 < t.size
  root : t.chain 0 = [0]
  below : ∀ s, 0 < s → s < t.size → ∃ p, t.Below p s
  top : ∀ s, t.levelAt? s = some .root → t.global? s = none
  global : ∀ s g, t.global? s = some g → t.global? g = some g

/-- A table in which every name stands for something usable. -/
structure Sound (t : Table) : Prop extends t.Shaped where
  bound : ∀ s name id, t.names.findLocal? s name = some id → id.name = name ∧ id.Known (t.reach s)
  builtins : ∀ id ∈ Symbol.builtins, (t.names.findLocal? 0 id.name).isSome = true
  placed : ∀ s f, t.functionAt? s = some f → f.Placed
  statics : ∀ s, Symbol.Static (t.staticsAt s)

/-! ## Looking outward -/

theorem Shaped.induction {t : Table} (ht : t.Shaped) {motive : Nat → Prop} (root : motive 0)
    (inner : ∀ p s, t.Below p s → s < t.size → motive p → motive s) :
    ∀ s, s < t.size → motive s := by
  intro s
  induction s using Nat.strongRecOn with
  | _ s ih =>
      intro hs
      rcases Nat.eq_zero_or_pos s with rfl | hpos
      · exact root
      · obtain ⟨p, hp⟩ := ht.below s hpos hs
        exact inner p s hp hs (ih p hp.lt (Nat.lt_trans hp.lt hs))

theorem Shaped.chain_eq_cons {t : Table} (ht : t.Shaped) {s : Nat} (hs : s < t.size) :
    ∃ outer, t.chain s = s :: outer := by
  rcases Nat.eq_zero_or_pos s with rfl | hpos
  · exact ⟨[], ht.root⟩
  · obtain ⟨p, hp⟩ := ht.below s hpos hs
    exact ⟨t.chain p, hp.chain⟩

theorem Shaped.le_of_mem_chain {t : Table} (ht : t.Shaped) {s l : Nat} (hs : s < t.size)
    (hl : l ∈ t.chain s) : l ≤ s := by
  revert hl
  refine ht.induction (motive := fun s => l ∈ t.chain s → l ≤ s) ?_ ?_ s hs
  · intro hl
    rw [ht.root] at hl
    exact Nat.le_of_eq (List.mem_singleton.1 hl)
  · intro p s hp _ ih hl
    rw [hp.chain] at hl
    rcases List.mem_cons.mp hl with rfl | hl
    · exact Nat.le_refl _
    · exact Nat.le_trans (ih hl) (Nat.le_of_lt hp.lt)

theorem Shaped.lt_of_mem_chain {t : Table} (ht : t.Shaped) {s l : Nat} (hl : l ∈ t.chain s) :
    l < t.size := by
  rcases Nat.lt_or_ge s t.size with hs | hs
  · exact Nat.lt_of_le_of_lt (ht.le_of_mem_chain hs hl) hs
  · rw [show t.chain s = [] from Scope.chain_eq_nil (ht.levels ▸ hs)] at hl
    cases hl

theorem function?_of_below {t : Table} {p s : Nat} (hp : t.Below p s) :
    t.function? s = (t.functionAt? s).or (t.function? p) := by
  show (t.chain s).findSome? t.functionAt? = _
  rw [hp.chain, List.findSome?_cons]
  cases t.functionAt? s with
  | none => rfl
  | some f => rfl

theorem reach_of_below {t : Table} {p s : Nat} (hp : t.Below p s) : (t.reach p).Le (t.reach s) := by
  refine ⟨fun id hid => ?_, fun f hf => ⟨f, ?_, Function.Le.refl f⟩⟩
  · rcases hp.global with hg | hg
    · have hid : id ∈ t.statics p := hid
      rw [statics_eq_nil hg] at hid
      cases hid
    · show id ∈ t.statics s
      unfold Table.statics
      rw [hg]
      exact hid
  · have hf : t.function? p = some f := hf
    obtain ⟨l, hl, hfl⟩ := List.exists_of_findSome?_eq_some hf
    have hnone : t.functionAt? s = none := by
      cases hs : t.functionAt? s with
      | none => rfl
      | some f' =>
          have hm : t.Marked s := by unfold Marked; rw [hs]; rfl
          exact absurd (show t.Marked l by unfold Marked; rw [hfl]; rfl) (hp.function hm l hl)
    show t.function? s = some f
    rw [function?_of_below hp, hnone, Option.none_or, hf]

/-- Code in an inner scope reaches whatever code around it reaches. -/
theorem Shaped.reach_mono {t : Table} (ht : t.Shaped) {s l : Nat} (hs : s < t.size)
    (hl : l ∈ t.chain s) : (t.reach l).Le (t.reach s) := by
  revert hl
  refine ht.induction (motive := fun s => l ∈ t.chain s → (t.reach l).Le (t.reach s)) ?_ ?_ s hs
  · intro hl
    rw [ht.root, List.mem_singleton] at hl
    subst hl
    exact Reach.Le.refl _
  · intro p s hp _ ih hl
    rw [hp.chain] at hl
    rcases List.mem_cons.mp hl with rfl | hl
    · exact Reach.Le.refl _
    · exact (ih hl).trans (reach_of_below hp)

/-- What a name stands for is usable where the name is mentioned. -/
theorem Sound.lookup {t : Table} (ht : t.Sound) {s : Nat} {name : String} {id : Symbol}
    (hs : s < t.size) (h : t.lookup s name = some id) :
    id.name = name ∧ id.Known (t.reach s) := by
  obtain ⟨l, hl, hfound⟩ := Scope.find?_some h
  obtain ⟨hname, hknown⟩ := ht.bound l name id hfound
  exact ⟨hname, hknown.mono (ht.reach_mono hs hl)⟩

theorem Shaped.root_mem_chain {t : Table} (ht : t.Shaped) {s : Nat} (hs : s < t.size) :
    0 ∈ t.chain s := by
  refine ht.induction (motive := fun s => 0 ∈ t.chain s) ?_ ?_ s hs
  · rw [ht.root]; exact List.mem_singleton_self 0
  · intro p s hp _ ih
    rw [hp.chain]
    exact List.mem_cons_of_mem _ ih

/-- A name that no scope in sight declares is not the name of a builtin function. -/
theorem Sound.not_builtin {t : Table} (ht : t.Sound) {s : Nat} {name : String} (hs : s < t.size)
    (h : t.lookup s name = none) : name ∉ Symbol.builtins.map (·.name) := by
  intro hmem
  obtain ⟨id, hid, rfl⟩ := List.mem_map.1 hmem
  have hnone := List.findSome?_eq_none_iff.1 h 0 (ht.root_mem_chain hs)
  have hsome := ht.builtins id hid
  rw [hnone] at hsome
  cases hsome

/-! ## More storage in the same tree -/

theorem findSome?_rel {α β : Type} {F F' : α → Option β} {R : β → β → Prop}
    (hsome : ∀ k x, F k = some x → ∃ x', F' k = some x' ∧ R x x')
    (hnone : ∀ k, F k = none → F' k = none) {ls : List α} {x : β} (h : ls.findSome? F = some x) :
    ∃ x', ls.findSome? F' = some x' ∧ R x x' := by
  induction ls with
  | nil => cases h
  | cons k ks ih =>
      rw [List.findSome?_cons] at h
      rw [List.findSome?_cons]
      cases hk : F k with
      | none =>
          rw [hk] at h
          rw [hnone k hk]
          exact ih h
      | some y =>
          rw [hk] at h
          cases h
          obtain ⟨x', hx', hr⟩ := hsome k x hk
          rw [hx']
          exact ⟨x', rfl, hr⟩

theorem findSome?_congr {α β : Type} {F F' : α → Option β} {ls : List α}
    (h : ∀ k ∈ ls, F k = F' k) : ls.findSome? F = ls.findSome? F' := by
  induction ls with
  | nil => rfl
  | cons k ks ih =>
      rw [List.findSome?_cons, List.findSome?_cons, h k List.mem_cons_self,
        ih fun j hj => h j (List.mem_cons_of_mem _ hj)]

/-- The same tree of scopes with more storage. -/
structure Extends (t t' : Table) : Prop where
  levels : t'.names.levels.size = t.names.levels.size
  size : t'.size = t.size
  chain : ∀ s, t'.chain s = t.chain s
  level : ∀ s, t'.levelAt? s = t.levelAt? s
  global : ∀ s, t'.global? s = t.global? s
  function : ∀ s f, t.functionAt? s = some f → ∃ f', t'.functionAt? s = some f' ∧ f.Le f'
  unmarked : ∀ s, t.functionAt? s = none → t'.functionAt? s = none
  statics : ∀ s, ∀ id ∈ t.staticsAt s, id ∈ t'.staticsAt s

theorem Extends.refl (t : Table) : t.Extends t :=
  ⟨rfl, rfl, fun _ => rfl, fun _ => rfl, fun _ => rfl, fun _ f hf => ⟨f, hf, Function.Le.refl f⟩,
    fun _ h => h, fun _ _ h => h⟩

theorem Extends.trans {t₁ t₂ t₃ : Table} (h : t₁.Extends t₂) (h' : t₂.Extends t₃) :
    t₁.Extends t₃ := by
  refine ⟨h'.levels.trans h.levels, h'.size.trans h.size,
    fun s => (h'.chain s).trans (h.chain s), fun s => (h'.level s).trans (h.level s),
    fun s => (h'.global s).trans (h.global s), ?_, fun s hs => h'.unmarked s (h.unmarked s hs),
    fun s id hid => h'.statics s id (h.statics s id hid)⟩
  intro s f hf
  obtain ⟨f', hf', hle⟩ := h.function s f hf
  obtain ⟨f'', hf'', hle'⟩ := h'.function s f' hf'
  exact ⟨f'', hf'', hle.trans hle'⟩

theorem Extends.marked {t t' : Table} (h : t.Extends t') {s : Nat} : t'.Marked s ↔ t.Marked s := by
  unfold Marked
  cases hs : t.functionAt? s with
  | none => rw [h.unmarked s hs]
  | some f =>
      obtain ⟨f', hf', -⟩ := h.function s f hs
      rw [hf']
      rfl

theorem Extends.below {t t' : Table} (h : t.Extends t') {p s : Nat} (hp : t.Below p s) :
    t'.Below p s := by
  refine ⟨hp.lt, ?_, ?_, ?_⟩
  · rw [h.chain, h.chain]; exact hp.chain
  · rw [h.global, h.global]; exact hp.global
  · rw [h.chain]
    intro hm l hl hml
    exact hp.function (h.marked.1 hm) l hl (h.marked.1 hml)

theorem Extends.shaped {t t' : Table} (h : t.Extends t') (ht : t.Shaped) : t'.Shaped := by
  refine ⟨?_, ?_, ?_, ?_, ?_, ?_⟩
  · rw [h.levels, h.size]; exact ht.levels
  · rw [h.size]; exact ht.nonempty
  · rw [h.chain]; exact ht.root
  · intro s hpos hs
    obtain ⟨p, hp⟩ := ht.below s hpos (h.size ▸ hs)
    exact ⟨p, h.below hp⟩
  · intro s hs
    rw [h.level] at hs
    rw [h.global]
    exact ht.top s hs
  · intro s g hg
    rw [h.global] at hg ⊢
    exact ht.global s g hg

theorem Extends.reach {t t' : Table} (h : t.Extends t') (s : Nat) :
    (t.reach s).Le (t'.reach s) := by
  refine ⟨fun id hid => ?_, fun f hf => ?_⟩
  · have hid : id ∈ t.statics s := hid
    show id ∈ t'.statics s
    cases hg : t.global? s with
    | none => rw [statics_eq_nil hg] at hid; cases hid
    | some g =>
        rw [statics_eq hg] at hid
        rw [statics_eq ((h.global s).trans hg)]
        exact h.statics g id hid
  · show ∃ f', t'.function? s = some f' ∧ f.Le f'
    have hf : (t.chain s).findSome? t.functionAt? = some f := hf
    show ∃ f', (t'.chain s).findSome? t'.functionAt? = some f' ∧ f.Le f'
    rw [h.chain]
    exact findSome?_rel h.function h.unmarked hf

/-- A table in which every scope reaches at least as much is sound if what is new in it is. -/
theorem Sound.of_reach {t t' : Table} (ht : t.Sound) (shaped : t'.Shaped)
    (reach : ∀ s, (t.reach s).Le (t'.reach s))
    (names : ∀ s name id, t'.names.findLocal? s name = some id →
      t.names.findLocal? s name = some id ∨ (id.name = name ∧ id.Known (t'.reach s)))
    (builtins : ∀ name, (t.names.findLocal? 0 name).isSome = true →
      (t'.names.findLocal? 0 name).isSome = true)
    (placed : ∀ s f, t'.functionAt? s = some f → f.Placed)
    (statics : ∀ s, Symbol.Static (t'.staticsAt s)) : t'.Sound := by
  refine ⟨shaped, ?_, fun id hid => builtins _ (ht.builtins id hid), placed, statics⟩
  intro s name id hid
  rcases names s name id hid with hold | hnew
  · obtain ⟨hname, hknown⟩ := ht.bound s name id hold
    exact ⟨hname, hknown.mono (reach s)⟩
  · exact hnew

/-! ## The operations -/

/-- Binds a symbol to its name. -/
def bindName (t : Table) (s : Nat) (id : Symbol) : Table :=
  t.withNames (t.names.bind s id.name id)

theorem reach_bindName {t : Table} {s l : Nat} {id : Symbol} :
    (t.bindName s id).reach l = t.reach l := by
  have hchain : (t.bindName s id).names.chain l = t.names.chain l := Scope.chain_bind
  unfold reach function?
  rw [hchain]
  rfl

theorem extends_bindName {t : Table} {s : Nat} {id : Symbol} : t.Extends (t.bindName s id) :=
  ⟨Scope.size_bind, rfl, fun _ => Scope.chain_bind, fun _ => rfl, fun _ => rfl,
    fun _ f hf => ⟨f, hf, Function.Le.refl f⟩, fun _ h => h, fun _ _ h => h⟩

theorem Sound.bindName {t : Table} (ht : t.Sound) {s : Nat} {id : Symbol}
    (hid : id.Known (t.reach s)) : (t.bindName s id).Sound := by
  refine ht.of_reach (extends_bindName.shaped ht.toShaped) extends_bindName.reach ?_ ?_ ht.placed
    ht.statics
  · intro l name id' h
    rcases Scope.findLocal?_bind_some h with ⟨rfl, hname, rfl⟩ | h
    · refine .inr ⟨hname.symm, ?_⟩
      rw [reach_bindName]
      exact hid
    · exact .inl h
  · intro name hname
    exact Scope.findLocal?_bind_isSome hname

theorem extends_pushStatic {t : Table} {g : Nat} {id : Symbol} : t.Extends (t.pushStatic g id) := by
  refine ⟨rfl, size_pushStatic, fun _ => rfl, fun _ => levelAt?_pushStatic,
    fun _ => global?_pushStatic, ?_, ?_, ?_⟩
  · intro s f hf
    exact ⟨f, by rw [functionAt?_pushStatic]; exact hf, Function.Le.refl f⟩
  · intro s hs
    rw [functionAt?_pushStatic]
    exact hs
  · intro s id' hid
    by_cases hgs : g = s
    · subst hgs
      rcases Nat.lt_or_ge g t.size with hg | hg
      · rw [staticsAt_pushStatic_self hg]
        exact List.mem_append_left _ hid
      · rw [staticsAt_eq_nil hg] at hid
        cases hid
    · rw [staticsAt_pushStatic_ne hgs]
      exact hid

theorem Sound.pushStatic {t : Table} (ht : t.Sound) {g : Nat} {id : Symbol} (hg : g < t.size)
    (hid : Symbol.Static (t.staticsAt g ++ [id])) : (t.pushStatic g id).Sound := by
  refine ht.of_reach (extends_pushStatic.shaped ht.toShaped) extends_pushStatic.reach
    (fun _ _ _ h => .inl h) (fun _ h => h) ?_ ?_
  · intro s f hf
    rw [functionAt?_pushStatic] at hf
    exact ht.placed s f hf
  · intro s
    by_cases hgs : g = s
    · subst hgs
      rw [staticsAt_pushStatic_self hg]
      exact hid
    · rw [staticsAt_pushStatic_ne hgs]
      exact ht.statics s

theorem extends_setFunction {t : Table} {l : Nat} {f f' : Function} (hf : t.functionAt? l = some f)
    (hle : f.Le f') : t.Extends (t.setFunction l (some f')) := by
  refine ⟨rfl, size_setFunction, fun _ => rfl, fun _ => levelAt?_setFunction,
    fun _ => global?_setFunction, ?_, ?_, ?_⟩
  · intro s h hs
    by_cases hls : l = s
    · subst hls
      rw [hf] at hs
      cases hs
      exact ⟨f', functionAt?_setFunction_self (lt_size_of_function hf), hle⟩
    · exact ⟨h, by rw [functionAt?_setFunction_ne hls]; exact hs, Function.Le.refl h⟩
  · intro s hs
    have hls : l ≠ s := by
      intro heq
      rw [← heq, hf] at hs
      cases hs
    rw [functionAt?_setFunction_ne hls]
    exact hs
  · intro s id hid
    rw [staticsAt_setFunction]
    exact hid

theorem Sound.setFunction {t : Table} (ht : t.Sound) {l : Nat} {f f' : Function}
    (hf : t.functionAt? l = some f) (hle : f.Le f') (hplaced : f'.Placed) :
    (t.setFunction l (some f')).Sound := by
  have hext := extends_setFunction hf hle
  refine ht.of_reach (hext.shaped ht.toShaped) hext.reach (fun _ _ _ h => .inl h) (fun _ h => h)
    ?_ ?_
  · intro s h hs
    by_cases hls : l = s
    · subst hls
      rw [functionAt?_setFunction_self (lt_size_of_function hf)] at hs
      cases hs
      exact hplaced
    · rw [functionAt?_setFunction_ne hls] at hs
      exact ht.placed s h hs
  · intro s
    rw [staticsAt_setFunction]
    exact ht.statics s

/-! ### Opening scopes -/

theorem Shaped.scope_child {t : Table} (ht : t.Shaped) {s : Nat} : (t.child s).2 = t.size :=
  ht.levels

theorem Shaped.chain_child {t : Table} (ht : t.Shaped) {s l : Nat} (hl : l < t.size) :
    (t.child s).1.chain l = t.chain l :=
  Scope.chain_child (ht.levels ▸ hl)

theorem Shaped.chain_child_new {t : Table} (ht : t.Shaped) {s : Nat} :
    (t.child s).1.chain t.size = t.size :: t.chain s := by
  rw [← ht.levels]
  exact Scope.chain_child_new

theorem Shaped.global?_child_new {t : Table} (ht : t.Shaped) {s : Nat} :
    t.global? s = none ∨ (t.child s).1.global? t.size = t.global? s := by
  rcases frame_child_new (t := t) (s := s) with ⟨hroot, -⟩ | ⟨-, hframe⟩
  · exact .inl (ht.top s hroot)
  · refine .inr ?_
    rw [Table.global?, hframe]
    rfl

theorem Shaped.below_child {t : Table} (ht : t.Shaped) {p s l : Nat} (hs : s < t.size)
    (h : t.Below p s) : (t.child l).1.Below p s := by
  have hp : p < t.size := Nat.lt_trans h.lt hs
  refine ⟨h.lt, ?_, ?_, ?_⟩
  · rw [ht.chain_child hs, ht.chain_child hp]; exact h.chain
  · rw [global?_child hp, global?_child hs]; exact h.global
  · rw [ht.chain_child hp]
    intro hm k hk
    unfold Marked at hm ⊢
    rw [functionAt?_child] at hm ⊢
    exact h.function hm k hk

theorem Shaped.child_below {t : Table} (ht : t.Shaped) {s : Nat} (hs : s < t.size) :
    (t.child s).1.Below s t.size := by
  refine ⟨hs, ?_, ?_, ?_⟩
  · rw [ht.chain_child_new, ht.chain_child hs]
  · rw [global?_child hs]; exact ht.global?_child_new
  · intro hm
    unfold Marked at hm
    rw [functionAt?_child, functionAt?_eq_none (Nat.le_refl _)] at hm
    cases hm

theorem Shaped.child {t : Table} (ht : t.Shaped) {s : Nat} (hs : s < t.size) :
    (t.child s).1.Shaped := by
  have hnew : ∀ l, l < (t.child s).1.size → l < t.size ∨ l = t.size := by
    intro l hl
    rw [size_child] at hl
    omega
  refine ⟨?_, ?_, ?_, ?_, ?_, ?_⟩
  · rw [size_child, ← ht.levels]; exact Array.size_push ..
  · rw [size_child]; omega
  · rw [ht.chain_child ht.nonempty]; exact ht.root
  · intro l hpos hl
    rcases hnew l hl with hl | rfl
    · obtain ⟨p, hp⟩ := ht.below l hpos hl
      exact ⟨p, ht.below_child hl hp⟩
    · exact ⟨s, ht.child_below hs⟩
  · intro l hroot
    rcases Nat.lt_trichotomy l t.size with hl | rfl | hl
    · rw [levelAt?_child hl] at hroot
      rw [global?_child hl]
      exact ht.top l hroot
    · rcases frame_child_new (t := t) (s := s) with ⟨-, hframe⟩ | ⟨-, hframe⟩ <;>
        simp [levelAt?, hframe] at hroot
    · exact global?_eq_none (by rw [size_child]; omega)
  · intro l g hg
    rcases hnew l (lt_size_of_global hg) with hl | rfl
    · rw [global?_child hl] at hg
      have hgg := ht.global l g hg
      rw [global?_child (lt_size_of_global hgg)]
      exact hgg
    · rcases frame_child_new (t := t) (s := s) with ⟨-, hframe⟩ | ⟨-, hframe⟩
      · rw [Table.global?, hframe] at hg
        cases hg
        rw [ht.scope_child, Table.global?, hframe, ht.scope_child]
        rfl
      · rw [Table.global?, hframe] at hg
        have hgg := ht.global s g hg
        rw [global?_child (lt_size_of_global hgg)]
        exact hgg

theorem Shaped.reach_child {t : Table} (ht : t.Shaped) {s l : Nat} (hl : l < t.size) :
    (t.child s).1.reach l = t.reach l := by
  have hf : (t.child s).1.functionAt? = t.functionAt? := funext fun _ => functionAt?_child
  have hfun : (t.child s).1.function? l = t.function? l := by
    show ((t.child s).1.chain l).findSome? _ = _
    rw [ht.chain_child hl, hf]
    rfl
  have hstat : (t.child s).1.statics l = t.statics l := by
    cases hg : t.global? l with
    | none => rw [statics_eq_nil hg, statics_eq_nil ((global?_child hl).trans hg)]
    | some g => rw [statics_eq hg, statics_eq ((global?_child hl).trans hg), staticsAt_child]
  unfold reach
  rw [hfun, hstat]

theorem Shaped.reach_eq_nil {t : Table} (ht : t.Shaped) {s : Nat} (hs : t.size ≤ s) :
    t.reach s = ⟨[], none⟩ := by
  unfold reach function?
  rw [statics_eq_nil (global?_eq_none hs), Scope.chain_eq_nil (ht.levels ▸ hs)]
  rfl

theorem Shaped.reach_le_child {t : Table} (ht : t.Shaped) (s l : Nat) :
    (t.reach l).Le ((t.child s).1.reach l) := by
  rcases Nat.lt_or_ge l t.size with hl | hl
  · rw [ht.reach_child hl]; exact Reach.Le.refl _
  · rw [ht.reach_eq_nil hl]
    exact ⟨fun _ h => (nomatch h), fun _ h => (nomatch h)⟩

theorem Sound.child {t : Table} (ht : t.Sound) {s : Nat} (hs : s < t.size) :
    (t.child s).1.Sound := by
  have hnames : ∀ l name, (t.child s).1.names.findLocal? l name = t.names.findLocal? l name :=
    fun _ _ => Scope.findLocal?_child
  refine ht.of_reach (ht.toShaped.child hs) (ht.reach_le_child s) ?_ ?_ ?_ ?_
  · intro l name id h
    rw [hnames] at h
    exact .inl h
  · intro name h
    rw [hnames]
    exact h
  · intro l f hf
    rw [functionAt?_child] at hf
    exact ht.placed l f hf
  · intro l
    rw [staticsAt_child]
    exact ht.statics l

theorem statics_setFunction {t : Table} {n s : Nat} {f : Option Function} :
    (t.setFunction n f).statics s = t.statics s := by
  cases hg : t.global? s with
  | none => rw [statics_eq_nil hg, statics_eq_nil (global?_setFunction.trans hg)]
  | some g =>
      rw [statics_eq hg, statics_eq (global?_setFunction.trans hg), staticsAt_setFunction]

section Mark

variable {t : Table} {n : Nat} {f : Function}

theorem unmarked_of_function?_eq_none (h : t.function? n = none) {l : Nat} (hl : l ∈ t.chain n) :
    ¬ t.Marked l := by
  have hat : t.functionAt? l = none := List.findSome?_eq_none_iff.1 h l hl
  unfold Marked
  rw [hat]
  simp

/-- The scope opened last is around no other scope. -/
theorem Shaped.last_not_mem_chain (ht : t.Shaped) (hn : n + 1 = t.size) {s : Nat} (hns : n ≠ s) :
    n ∉ t.chain s := by
  intro hmem
  rcases Nat.lt_or_ge s t.size with hs | hs
  · have hle := ht.le_of_mem_chain hs hmem
    omega
  · rw [show t.chain s = [] from Scope.chain_eq_nil (ht.levels ▸ hs)] at hmem
    cases hmem

theorem Shaped.function?_mark (ht : t.Shaped) (hn : n + 1 = t.size) {s : Nat} (hns : n ≠ s) :
    (t.setFunction n (some f)).function? s = t.function? s := by
  have hat : ∀ l ∈ t.chain s, (t.setFunction n (some f)).functionAt? l = t.functionAt? l := by
    intro l hl
    refine functionAt?_setFunction_ne ?_
    rintro rfl
    exact ht.last_not_mem_chain hn hns hl
  exact findSome?_congr hat

theorem Shaped.mark (ht : t.Shaped) (hn : n + 1 = t.size) (hnone : t.function? n = none) :
    (t.setFunction n (some f)).Shaped := by
  refine ⟨?_, ?_, ht.root, ?_, ?_, ?_⟩
  · rw [size_setFunction]; exact ht.levels
  · rw [size_setFunction]; exact ht.nonempty
  · intro s hpos hs
    rw [size_setFunction] at hs
    obtain ⟨p, hp⟩ := ht.below s hpos hs
    refine ⟨p, hp.lt, hp.chain, ?_, ?_⟩
    · rw [global?_setFunction, global?_setFunction]; exact hp.global
    · intro hm l hl
      have hpn : n ≠ p := by have := hp.lt; omega
      have hnl : n ≠ l := by
        rintro rfl
        exact ht.last_not_mem_chain hn hpn hl
      unfold Marked
      rw [functionAt?_setFunction_ne hnl]
      by_cases hns : n = s
      · subst hns
        exact unmarked_of_function?_eq_none hnone (hp.chain ▸ List.mem_cons_of_mem _ hl)
      · unfold Marked at hm
        rw [functionAt?_setFunction_ne hns] at hm
        exact hp.function hm l hl
  · intro s hs
    rw [levelAt?_setFunction] at hs
    rw [global?_setFunction]
    exact ht.top s hs
  · intro s g hg
    rw [global?_setFunction] at hg ⊢
    exact ht.global s g hg

/-- The scope of a function is marked when it has just been opened. -/
theorem Sound.mark (ht : t.Sound) (hn : n + 1 = t.size) (hnone : t.function? n = none)
    (hf : f.Placed) : (t.setFunction n (some f)).Sound := by
  refine ht.of_reach (ht.toShaped.mark hn hnone) ?_ (fun _ _ _ h => .inl h) (fun _ h => h) ?_ ?_
  · intro s
    refine ⟨fun id hid => ?_, fun h hh => ?_⟩
    · show id ∈ (t.setFunction n (some f)).statics s
      rw [statics_setFunction]
      exact hid
    · have hns : n ≠ s := by
        rintro rfl
        exact absurd (hnone.symm.trans hh) (by simp)
      exact ⟨h, (ht.function?_mark hn hns).trans hh, Function.Le.refl h⟩
  · intro s h hs
    by_cases hns : n = s
    · subst hns
      rw [functionAt?_setFunction_self (by omega)] at hs
      cases hs
      exact hf
    · rw [functionAt?_setFunction_ne hns] at hs
      exact ht.placed s h hs
  · intro s
    rw [staticsAt_setFunction]
    exact ht.statics s

end Mark

/-! ## The table that analysis starts from -/

theorem foldl_bind_some {ids : List Symbol} {sc : Scope Symbol} {l : Nat} {name : String}
    {id : Symbol}
    (h : (ids.foldl (fun sc id => sc.bind 0 id.name id) sc).findLocal? l name = some id) :
    (id ∈ ids ∧ id.name = name) ∨ sc.findLocal? l name = some id := by
  induction ids generalizing sc with
  | nil => exact .inr h
  | cons x xs ih =>
      rcases ih h with ⟨hid, hname⟩ | h
      · exact .inl ⟨List.mem_cons_of_mem _ hid, hname⟩
      · rcases Scope.findLocal?_bind_some h with ⟨-, hname, rfl⟩ | h
        · exact .inl ⟨List.mem_cons_self, hname.symm⟩
        · exact .inr h

theorem Shaped.initial : Table.initial.Shaped := by
  refine ⟨by decide, by decide, by decide, ?_, ?_, ?_⟩
  · intro s hpos hs
    have hsize : Table.initial.size = 1 := rfl
    omega
  · intro s _
    rcases s with _ | s
    · rfl
    · exact global?_eq_none (Nat.le_add_left 1 s)
  · intro s g hg
    have hs : s < 1 := lt_size_of_global hg
    obtain rfl : s = 0 := by omega
    cases hg

theorem Sound.initial : Table.initial.Sound := by
  refine ⟨Shaped.initial, ?_, by decide, ?_, ?_⟩
  · intro s name id h
    rcases foldl_bind_some h with ⟨hid, hname⟩ | h
    · exact ⟨hname, Symbol.Known.of_mem_builtins hid⟩
    · rcases s with _ | s <;> cases h
  · intro s f hf
    have hs : s < 1 := lt_size_of_function hf
    obtain rfl : s = 0 := by omega
    cases hf
  · intro s
    have hnil : Table.initial.staticsAt s = [] := by
      rcases s with _ | s
      · rfl
      · exact staticsAt_eq_nil (Nat.le_add_left 1 s)
    rw [hnil]
    exact ⟨Symbol.Row.nil, List.nodup_nil⟩

end Table

end SmallC
