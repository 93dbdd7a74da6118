import SmallC.Proofs.CheckSteps
import SmallC.Proofs.TableChanges
import SmallC.Proofs.TableSound

/-!
# How declarations change a table

Checking in a scope opens scopes and declares variables. Seen from the scopes
that were there before, nothing happens but this: the symbols that were declared
are added to the locals of the function around, or to the static symbols of the
program if there is no function around. `Table.Grows` says it, with the list of
those symbols, so that in the end the storage of a function is the list of
symbols that its body declares.

Declaring a function is different, for the symbols of its body go to a scope
that was not there before: `Table.Keeps` says that nothing at all has changed
below some number of scopes.
-/

namespace SmallC

namespace Table

/-! ## The function around a scope -/

theorem findSome?_eq_bind_find? {α β : Type} (F : α → Option β) (ls : List α) :
    ls.findSome? F = (ls.find? fun k => (F k).isSome).bind F := by
  induction ls with
  | nil => rfl
  | cons k ks ih =>
      rw [List.findSome?_cons, List.find?_cons, ih]
      cases hk : F k with
      | none => rfl
      | some x => exact hk.symm

theorem find?_congr {α : Type} {p q : α → Bool} {ls : List α} (h : ∀ k ∈ ls, p k = q k) :
    ls.find? p = ls.find? q := by
  induction ls with
  | nil => rfl
  | cons k ks ih =>
      rw [List.find?_cons, List.find?_cons, h k List.mem_cons_self,
        ih fun j hj => h j (List.mem_cons_of_mem _ hj)]

theorem function?_eq_owner? (t : Table) (s : Nat) :
    t.function? s = (t.owner? s).bind t.functionAt? :=
  findSome?_eq_bind_find? _ _

theorem owner?_of_function? {t : Table} {s : Nat} {f : Function} (h : t.function? s = some f) :
    ∃ l, t.owner? s = some l ∧ t.functionAt? l = some f := by
  rw [function?_eq_owner?] at h
  exact Option.bind_eq_some_iff.1 h

theorem owner?_eq_none {t : Table} {s : Nat} (h : t.function? s = none) : t.owner? s = none := by
  refine List.find?_eq_none.2 fun l hl => ?_
  have hat : t.functionAt? l = none := List.findSome?_eq_none_iff.1 h l hl
  rw [hat]
  simp

theorem owner?_mem {t : Table} {s l : Nat} (h : t.owner? s = some l) : l ∈ t.chain s :=
  List.mem_of_find?_eq_some h

theorem owner?_congr {t t' : Table} {s : Nat} (hc : t'.chain s = t.chain s)
    (hm : ∀ l ∈ t.chain s, (t'.functionAt? l).isSome = (t.functionAt? l).isSome) :
    t'.owner? s = t.owner? s := by
  show (t'.chain s).find? _ = (t.chain s).find? _
  rw [hc]
  exact find?_congr hm

/-! ## Growth -/

/-- Nothing has changed below `n` scopes. -/
structure Keeps (n : Nat) (t t' : Table) : Prop where
  size : t.size ≤ t'.size
  chain : ∀ l < n, t'.chain l = t.chain l
  global : ∀ l < n, t'.global? l = t.global? l
  function : ∀ l < n, t'.functionAt? l = t.functionAt? l
  statics : ∀ l < n, t'.staticsAt l = t.staticsAt l

theorem Keeps.refl (n : Nat) (t : Table) : Keeps n t t :=
  ⟨Nat.le_refl _, fun _ _ => rfl, fun _ _ => rfl, fun _ _ => rfl, fun _ _ => rfl⟩

theorem Keeps.trans {n : Nat} {t₁ t₂ t₃ : Table} (h : Keeps n t₁ t₂) (h' : Keeps n t₂ t₃) :
    Keeps n t₁ t₃ :=
  ⟨Nat.le_trans h.size h'.size, fun l hl => (h'.chain l hl).trans (h.chain l hl),
    fun l hl => (h'.global l hl).trans (h.global l hl),
    fun l hl => (h'.function l hl).trans (h.function l hl),
    fun l hl => (h'.statics l hl).trans (h.statics l hl)⟩

theorem keeps_child {t : Table} (ht : t.Shaped) (s : Nat) : Keeps t.size t (t.child s).1 := by
  refine ⟨?_, fun l hl => ht.chain_child hl, fun l hl => global?_child hl,
    fun _ _ => functionAt?_child, fun _ _ => staticsAt_child⟩
  rw [size_child]
  omega

theorem keeps_setFunction {n s : Nat} {t : Table} {f : Option Function} (h : n ≤ s) :
    Keeps n t (t.setFunction s f) := by
  refine ⟨Nat.le_of_eq size_setFunction.symm, fun _ _ => rfl, fun _ _ => global?_setFunction, ?_,
    fun _ _ => staticsAt_setFunction⟩
  intro l hl
  exact functionAt?_setFunction_ne (by omega)

theorem keeps_bindName {n s : Nat} {t : Table} {id : Symbol} : Keeps n t (t.bindName s id) :=
  ⟨Nat.le_refl _, fun _ _ => Scope.chain_bind, fun _ _ => rfl, fun _ _ => rfl, fun _ _ => rfl⟩

/-- Of the scopes that were there, only the function or the program around `s` has changed: it stores
the symbols `new` as well. -/
structure Grows (t t' : Table) (s : Nat) (new : List Symbol) : Prop where
  size : t.size ≤ t'.size
  chain : ∀ l < t.size, t'.chain l = t.chain l
  global : ∀ l < t.size, t'.global? l = t.global? l
  function : ∀ l < t.size, t'.functionAt? l =
    if t.owner? s = some l then (t.functionAt? l).map (·.addLocals new) else t.functionAt? l
  statics : ∀ l < t.size, t'.staticsAt l =
    if t.owner? s = none ∧ t.global? s = some l then t.staticsAt l ++ new else t.staticsAt l

theorem Keeps.grows {t t' : Table} (h : Keeps t.size t t') (s : Nat) : t.Grows t' s [] := by
  refine ⟨h.size, h.chain, h.global, fun l hl => ?_, fun l hl => ?_⟩
  · have hmap : (t.functionAt? l).map (·.addLocals []) = t.functionAt? l := by
      cases t.functionAt? l with
      | none => rfl
      | some f => rw [Option.map_some, Function.addLocals_nil]
    rw [h.function l hl, hmap, ite_self]
  · rw [h.statics l hl, List.append_nil, ite_self]

theorem Grows.refl (t : Table) (s : Nat) : t.Grows t s [] := (Keeps.refl _ t).grows s

section Grows

variable {t t' : Table} {s : Nat} {new : List Symbol}

theorem Grows.marked (h : t.Grows t' s new) {l : Nat} (hl : l < t.size) :
    (t'.functionAt? l).isSome = (t.functionAt? l).isSome := by
  rw [h.function l hl]
  split
  · exact Option.isSome_map
  · rfl

theorem Grows.owner? (ht : t.Shaped) (h : t.Grows t' s new) {l : Nat} (hl : l < t.size) :
    t'.owner? l = t.owner? l :=
  owner?_congr (h.chain l hl) fun _ hk => h.marked (ht.lt_of_mem_chain hk)

theorem Grows.trans (ht : t.Shaped) {t'' : Table} {more : List Symbol} (hs : s < t.size)
    (h : t.Grows t' s new) (h' : t'.Grows t'' s more) : t.Grows t'' s (new ++ more) := by
  have hlt : ∀ l, l < t.size → l < t'.size := fun l hl => Nat.lt_of_lt_of_le hl h.size
  refine ⟨Nat.le_trans h.size h'.size, fun l hl => (h'.chain l (hlt l hl)).trans (h.chain l hl),
    fun l hl => (h'.global l (hlt l hl)).trans (h.global l hl), fun l hl => ?_, fun l hl => ?_⟩
  · rw [h'.function l (hlt l hl), h.owner? ht hs, h.function l hl]
    split
    · rw [Option.map_map]
      cases t.functionAt? l with
      | none => rfl
      | some f =>
          simp only [Option.map_some, Function.comp_apply, Function.addLocals_addLocals]
    · rfl
  · rw [h'.statics l (hlt l hl), h.owner? ht hs, h.global s hs, h.statics l hl]
    split
    · rw [List.append_assoc]
    · rfl

theorem owner?_child_new (ht : t.Shaped) : (t.child s).1.owner? t.size = t.owner? s := by
  have hat : (t.child s).1.functionAt? t.size = none := by
    rw [functionAt?_child, functionAt?_eq_none (Nat.le_refl _)]
  show ((t.child s).1.chain t.size).find? _ = (t.chain s).find? _
  rw [ht.chain_child_new, List.find?_cons, hat]
  exact find?_congr fun _ _ => by rw [functionAt?_child]

theorem global?_child_new (ht : t.Shaped) {g : Nat} (hg : t.global? s = some g) :
    (t.child s).1.global? t.size = some g := by
  rcases ht.global?_child_new (s := s) with hnone | heq
  · rw [hnone] at hg; cases hg
  · rw [heq, hg]

/-- What is declared in a block belongs to what is around the block. -/
theorem Grows.of_child (ht : t.Shaped) {g : Nat} (hg : t.global? s = some g)
    (h : (t.child s).1.Grows t' t.size new) : t.Grows t' s new := by
  have hlt : ∀ l, l < t.size → l < (t.child s).1.size := by
    intro l hl
    rw [size_child]
    omega
  refine ⟨?_, fun l hl => (h.chain l (hlt l hl)).trans (ht.chain_child hl),
    fun l hl => (h.global l (hlt l hl)).trans (global?_child hl), fun l hl => ?_, fun l hl => ?_⟩
  · have hsize := h.size
    rw [size_child] at hsize
    omega
  · rw [h.function l (hlt l hl), owner?_child_new ht, functionAt?_child]
  · rw [h.statics l (hlt l hl), owner?_child_new ht, global?_child_new ht hg, hg, staticsAt_child]

/-- Code in a block reaches what code around the block reaches. -/
theorem Grows.reach_child (ht : t.Shaped) {g : Nat} (hg : t.global? s = some g)
    (h : (t.child s).1.Grows t' t.size new) : t'.reach t.size = t'.reach s := by
  have hs := lt_size_of_global hg
  have hlt : ∀ l, l ≤ t.size → l < (t.child s).1.size := by
    intro l hl
    rw [size_child]
    omega
  have hchain : t'.chain t.size = t.size :: t'.chain s := by
    rw [h.chain _ (hlt _ (Nat.le_refl _)), h.chain _ (hlt s (Nat.le_of_lt hs)), ht.chain_child hs,
      ht.chain_child_new]
  have hat : t'.functionAt? t.size = none := by
    have hmark := h.marked (hlt _ (Nat.le_refl _))
    rw [functionAt?_child, functionAt?_eq_none (Nat.le_refl _)] at hmark
    exact Option.isNone_iff_eq_none.1 (by simpa using hmark)
  have hfun : t'.function? t.size = t'.function? s := by
    show (t'.chain t.size).findSome? _ = (t'.chain s).findSome? _
    rw [hchain, List.findSome?_cons, hat]
  have hstat : t'.statics t.size = t'.statics s := by
    have hnew : t'.global? t.size = some g := by
      rw [h.global _ (hlt _ (Nat.le_refl _)), global?_child_new ht hg]
    have hold : t'.global? s = some g := by
      rw [h.global s (hlt s (Nat.le_of_lt hs)), global?_child hs, hg]
    rw [statics_eq hnew, statics_eq hold]
  unfold Table.reach
  rw [hfun, hstat]

theorem Grows.function? (ht : t.Shaped) (hs : s < t.size) (h : t.Grows t' s new) :
    t'.function? s = (t.function? s).map (·.addLocals new) := by
  rw [function?_eq_owner?, function?_eq_owner?, h.owner? ht hs]
  cases ho : t.owner? s with
  | none => rfl
  | some l =>
      have hl := ht.lt_of_mem_chain (owner?_mem ho)
      rw [Option.bind_some, Option.bind_some, h.function l hl, if_pos ho]

theorem Grows.reach (ht : t.Shaped) (h : t.Grows t' s new) {l : Nat} (hl : l < t.size) :
    (t.reach l).Le (t'.reach l) := by
  refine ⟨fun id hid => ?_, fun f hf => ?_⟩
  · have hid : id ∈ t.statics l := hid
    show id ∈ t'.statics l
    cases hg : t.global? l with
    | none => rw [statics_eq_nil hg] at hid; cases hid
    | some g =>
        have hlt := lt_size_of_global (ht.global l g hg)
        rw [statics_eq hg] at hid
        rw [statics_eq ((h.global l hl).trans hg), h.statics g hlt]
        split
        · exact List.mem_append_left _ hid
        · exact hid
  · obtain ⟨k, hk, hfk⟩ := owner?_of_function? hf
    have hkt := ht.lt_of_mem_chain (owner?_mem hk)
    show ∃ f', t'.function? l = some f' ∧ f.Le f'
    rw [function?_eq_owner?, h.owner? ht hl, hk, Option.bind_some, h.function k hkt, hfk]
    split
    · exact ⟨f.addLocals new, rfl, f.le_addLocals new⟩
    · exact ⟨f, rfl, Function.Le.refl f⟩

end Grows

/-! ## Declaring variables -/

theorem checkName_ok {id : Symbol} {u : Unit} (h : checkName id = .ok u) :
    isKeyword id.name = false := by
  unfold checkName at h
  cases hk : isKeyword id.name with
  | false => rfl
  | true => rw [hk] at h; cases h

theorem checkFree_ok {id : Symbol} {previous : Option Symbol} {u : Unit}
    (h : checkFree id previous = .ok u) : previous = none := by
  cases previous with
  | none => rfl
  | some p => cases h

theorem define_ok {t t' : Table} {s : Nat} {id : Symbol} (h : t.define s id = .ok t') :
    t.lookupLocal s id.name = none ∧ t' = t.bindName s id := by
  rw [define_eq] at h
  simp only [Except.bind_eq_ok_iff] at h
  obtain ⟨_, hfree, h⟩ := h
  cases h
  exact ⟨checkFree_ok hfree, rfl⟩

theorem modifyFunction_eq {t : Table} {s l : Nat} {f : Function} {change : Function → Function}
    (ho : t.owner? s = some l) (hf : t.functionAt? l = some f) :
    t.modifyFunction s change = t.setFunction l (some (change f)) := by
  unfold modifyFunction
  rw [ho]
  simp only [hf, Option.map_some]

theorem owner?_bindName {t : Table} {s l : Nat} {id : Symbol} :
    (t.bindName s id).owner? l = t.owner? l :=
  owner?_congr Scope.chain_bind fun _ _ => rfl

theorem addLocal_ok {t t' : Table} {s : Nat} {f : Function} {id id' : Symbol}
    (hf : t.function? s = some f) (h : t.addLocal s f id = .ok (t', id')) :
    ∃ l, t.owner? s = some l ∧ t.functionAt? l = some f ∧ f.find? id.name = none ∧
      t.lookupLocal s id.name = none ∧
      id' = { id with storage := .automatic, slot := f.locals.length } ∧
      t' = (t.setFunction l (some (f.addLocals [id']))).bindName s id' := by
  obtain ⟨l, ho, hl⟩ := owner?_of_function? hf
  rw [addLocal_eq] at h
  simp only [Except.bind_eq_ok_iff] at h
  obtain ⟨_, hfree, t₁, hdef, h⟩ := h
  obtain ⟨hunbound, rfl⟩ := define_ok hdef
  rw [modifyFunction_eq (owner?_bindName.trans ho) hl] at h
  cases h
  exact ⟨l, ho, hl, checkFree_ok hfree, hunbound, rfl, rfl⟩

theorem addStatic_ok {t t' : Table} {s g : Nat} {id id' : Symbol}
    (h : t.addStatic s g id = .ok (t', id')) :
    ∃ storage, (storage = .global ∨ storage = .globalLocal) ∧
      t.globalConflict g id.name = none ∧ t.lookupLocal s id.name = none ∧
      id' = { id with storage := storage, slot := (t.statics g).length } ∧
      t' = (t.pushStatic g id').bindName s id' := by
  rw [addStatic_eq] at h
  cases hb : (t.frames[s]?).any (·.level == .block) with
  | true =>
      simp only [hb, if_true, Except.bind_eq_ok_iff] at h
      obtain ⟨_, -, _, hfree, t₁, hdef, h⟩ := h
      obtain ⟨hunbound, rfl⟩ := define_ok hdef
      cases h
      exact ⟨_, .inr rfl, checkFree_ok hfree, hunbound, rfl, rfl⟩
  | false =>
      simp only [hb, Bool.false_eq_true, if_false, Except.bind_eq_ok_iff] at h
      obtain ⟨_, hfree, t₁, hdef, h⟩ := h
      obtain ⟨hunbound, rfl⟩ := define_ok hdef
      cases h
      exact ⟨_, .inl rfl, checkFree_ok hfree, hunbound, rfl, rfl⟩

theorem addVar_ok {t t' : Table} {s : Nat} {id id' : Symbol} (h : t.addVar s id = .ok (t', id')) :
    ∃ g, t.global? s = some g ∧ isKeyword id.name = false ∧
      ((∃ f, t.function? s = some f ∧ t.addLocal s f id = .ok (t', id')) ∨
        (t.function? s = none ∧ t.addStatic s g id = .ok (t', id'))) := by
  rw [addVar_eq] at h
  cases hg : t.global? s with
  | none => rw [hg] at h; cases h
  | some g =>
      rw [hg] at h
      simp only [Except.bind_eq_ok_iff] at h
      obtain ⟨_, hname, h⟩ := h
      refine ⟨g, rfl, checkName_ok hname, ?_⟩
      split at h
      · next f hf => exact .inl ⟨f, hf, h⟩
      · next hf => exact .inr ⟨hf, h⟩

/-- A declared symbol is what its name stands for from then on. -/
theorem lookup_bindName {t : Table} (ht : t.Shaped) {s : Nat} {id : Symbol} (hs : s < t.size) :
    (t.bindName s id).lookup s id.name = some id := by
  obtain ⟨outer, hc⟩ := ht.chain_eq_cons hs
  have hc' : (t.bindName s id).names.chain s = s :: outer := Scope.chain_bind.trans hc
  have hself : (t.bindName s id).names.findLocal? s id.name = some id :=
    Scope.findLocal?_bind_self (ht.levels ▸ hs)
  unfold lookup Scope.find?
  rw [hc', List.findSome?_cons, hself]

theorem Grows.bindName {t t' : Table} {s l : Nat} {new : List Symbol} {id : Symbol}
    (h : t.Grows t' s new) : t.Grows (t'.bindName l id) s new :=
  ⟨h.size, fun k hk => Scope.chain_bind.trans (h.chain k hk), h.global, h.function, h.statics⟩

theorem grows_addLocal {t : Table} {s l : Nat} {f : Function} {id : Symbol}
    (ho : t.owner? s = some l) (hf : t.functionAt? l = some f) :
    t.Grows (t.setFunction l (some (f.addLocals [id]))) s [id] := by
  refine ⟨Nat.le_of_eq size_setFunction.symm, fun _ _ => rfl, fun _ _ => global?_setFunction, ?_,
    ?_⟩
  · intro k hk
    by_cases hlk : l = k
    · subst hlk
      rw [functionAt?_setFunction_self hk, if_pos ho, hf]
      rfl
    · rw [functionAt?_setFunction_ne hlk, if_neg (fun h => hlk (by simpa [ho] using h))]
  · intro k _
    rw [staticsAt_setFunction, if_neg (by simp [ho])]

theorem grows_addStatic {t : Table} {s g : Nat} {id : Symbol} (hf : t.function? s = none)
    (hg : t.global? s = some g) : t.Grows (t.pushStatic g id) s [id] := by
  have ho := owner?_eq_none hf
  refine ⟨Nat.le_of_eq size_pushStatic.symm, fun _ _ => rfl, fun _ _ => global?_pushStatic, ?_, ?_⟩
  · intro k _
    rw [functionAt?_pushStatic, if_neg (by simp [ho])]
  · intro k hk
    by_cases hgk : g = k
    · subst hgk
      rw [staticsAt_pushStatic_self hk, if_pos ⟨ho, hg⟩]
    · rw [staticsAt_pushStatic_ne hgk, if_neg (fun h => hgk (by simpa [hg] using h.2))]

/-- Declaring a variable keeps a table sound and adds one symbol to what is around. -/
theorem Sound.addVar {t t' : Table} (ht : t.Sound) {s : Nat} {id id' : Symbol}
    (hid : id.type.isData = true) (h : t.addVar s id = .ok (t', id')) :
    t'.Sound ∧ t.Grows t' s [id'] ∧ t'.lookup s id.name = some id' ∧ id'.type = id.type := by
  obtain ⟨g, hg, -, ⟨f, hf, h⟩ | ⟨hf, h⟩⟩ := addVar_ok h
  · obtain ⟨l, ho, hl, hfree, -, hid', rfl⟩ := addLocal_ok hf h
    have hs := lt_size_of_global hg
    have hgrow : t.Grows (t.setFunction l (some (f.addLocals [id']))) s [id'] :=
      grows_addLocal ho hl
    have hsound : (t.setFunction l (some (f.addLocals [id']))).Sound := by
      refine ht.setFunction hl (f.le_addLocals _) ?_
      subst hid'
      exact (ht.placed l f hl).addLocal rfl rfl hid hfree
    have hknown : id'.Known ((t.setFunction l (some (f.addLocals [id']))).reach s) := by
      refine .storage (by subst hid'; exact hid) ?_
      have hfun := hgrow.function? ht.toShaped hs
      rw [hf] at hfun
      unfold Symbol.Stored
      rw [show id'.storage = .automatic by subst hid'; rfl]
      exact ⟨_, hfun, List.mem_append_right _ (List.mem_singleton_self _)⟩
    refine ⟨hsound.bindName hknown, hgrow.bindName, ?_, by subst hid'; rfl⟩
    rw [show id.name = id'.name by subst hid'; rfl]
    exact lookup_bindName hsound.toShaped (by rw [size_setFunction]; exact hs)
  · obtain ⟨storage, hst, hfree, -, hid', rfl⟩ := addStatic_ok h
    have hgg := ht.global s g hg
    have hs := lt_size_of_global hg
    have hsound : (t.pushStatic g id').Sound := by
      refine ht.pushStatic (lt_size_of_global hgg) ((ht.statics g).snoc ?_ ?_ ?_ ?_)
      · subst hid'; exact hst
      · subst hid'; rw [statics_eq hgg]
      · subst hid'; exact hid
      · subst hid'
        rw [← statics_eq hgg]
        exact (Option.or_eq_none_iff.1 hfree).2
    have hknown : id'.Known ((t.pushStatic g id').reach s) := by
      refine .storage (by subst hid'; exact hid) ?_
      have hmem : id' ∈ (t.pushStatic g id').statics s := by
        rw [statics_eq (global?_pushStatic.trans hg),
          staticsAt_pushStatic_self (lt_size_of_global hgg)]
        exact List.mem_append_right _ (List.mem_singleton_self _)
      have hstorage : id'.storage = storage := by subst hid'; rfl
      unfold Symbol.Stored
      rcases hst with rfl | rfl <;> rw [hstorage] <;> exact hmem
    refine ⟨hsound.bindName hknown, (grows_addStatic hf hg).bindName, ?_, by subst hid'; rfl⟩
    rw [show id.name = id'.name by subst hid'; rfl]
    exact lookup_bindName hsound.toShaped (by rw [size_pushStatic]; exact hs)

/-! ## Declaring functions -/

theorem addParam_ok {t t' : Table} {s : Nat} {id id' : Symbol}
    (h : t.addParam s id = .ok (t', id')) :
    ∃ l f, t.owner? s = some l ∧ t.functionAt? l = some f ∧ isKeyword id.name = false ∧
      f.param? id.name = none ∧ t.lookupLocal s id.name = none ∧
      id' = { id with storage := .param, slot := f.params.length } ∧
      t' = (t.setFunction l (some (f.addParam id'))).bindName s id' := by
  rw [addParam_eq] at h
  cases hf : t.function? s with
  | none => rw [hf] at h; cases h
  | some f =>
      obtain ⟨l, ho, hl⟩ := owner?_of_function? hf
      rw [hf] at h
      simp only [Except.bind_eq_ok_iff] at h
      obtain ⟨_, hname, _, hfree, t₁, hdef, h⟩ := h
      obtain ⟨hunbound, rfl⟩ := define_ok hdef
      rw [modifyFunction_eq (owner?_bindName.trans ho) hl] at h
      cases h
      exact ⟨l, f, ho, hl, checkName_ok hname, checkFree_ok hfree, hunbound, rfl, rfl⟩

theorem Shaped.owner?_self {t : Table} (ht : t.Shaped) {s : Nat} {f : Function}
    (hf : t.functionAt? s = some f) : t.owner? s = some s := by
  have hs := lt_size_of_function hf
  obtain ⟨outer, hc⟩ := ht.chain_eq_cons hs
  show (t.chain s).find? _ = some s
  rw [hc, List.find?_cons_of_pos (by rw [hf]; rfl)]

/-- Declaring a parameter keeps a table sound, and changes nothing but the function. -/
theorem Sound.addParam {t t' : Table} (ht : t.Sound) {s : Nat} {id id' : Symbol} {f : Function}
    (hid : id.type.isData = true) (hf : t.functionAt? s = some f) (hlocals : f.locals = [])
    (h : t.addParam s id = .ok (t', id')) :
    t'.Sound ∧ t.Extends t' ∧ Keeps s t t' ∧ t'.functionAt? s = some (f.addParam id') := by
  obtain ⟨l, f', ho, hf', -, hfree, -, hid', rfl⟩ := addParam_ok h
  obtain rfl : s = l := Option.some.inj ((ht.owner?_self hf).symm.trans ho)
  obtain rfl : f = f' := Option.some.inj (hf.symm.trans hf')
  have hs := lt_size_of_function hf
  have hself : (t.setFunction s (some (f.addParam id'))).functionAt? s = some (f.addParam id') :=
    functionAt?_setFunction_self hs
  have hplaced : (f.addParam id').Placed := by
    subst hid'
    exact (ht.placed s f hf).addParam hlocals rfl rfl hid hfree
  have hsound := ht.setFunction hf (f.le_addParam id') hplaced
  have hfun : (t.setFunction s (some (f.addParam id'))).function? s = some (f.addParam id') := by
    rw [function?_eq_owner?, hsound.owner?_self hself, Option.bind_some, hself]
  have hknown : id'.Known ((t.setFunction s (some (f.addParam id'))).reach s) := by
    refine .storage (by subst hid'; exact hid) ?_
    unfold Symbol.Stored
    rw [show id'.storage = .param by subst hid'; rfl]
    refine ⟨_, hfun, ?_⟩
    have hnone : f.params.find? (·.name == id'.name) = none := by subst hid'; exact hfree
    show (f.params ++ [id']).find? _ = some id'
    rw [List.find?_append, hnone]
    simp
  exact ⟨hsound.bindName hknown,
    (extends_setFunction hf (f.le_addParam id')).trans extends_bindName,
    (keeps_setFunction (Nat.le_refl s)).trans keeps_bindName, hself⟩

theorem addFunc_ok {t t' : Table} {s : Nat} {id id' : Symbol}
    (h : t.addFunc s id = .ok (t', id')) :
    ∃ g, t.global? s = some g ∧ isKeyword id.name = false ∧
      t.globalConflict g id.name = none ∧ t.lookupLocal g id.name = none ∧
      id' = { id with storage := .global, slot := Symbol.noSlot } ∧ t' = t.bindName g id' := by
  rw [addFunc_eq] at h
  cases hg : t.global? s with
  | none => rw [hg] at h; cases h
  | some g =>
      rw [hg] at h
      simp only [Except.bind_eq_ok_iff] at h
      obtain ⟨_, hname, _, hfree, t₁, hdef, h⟩ := h
      obtain ⟨hunbound, rfl⟩ := define_ok hdef
      cases h
      exact ⟨g, rfl, checkName_ok hname, checkFree_ok hfree, hunbound, rfl, rfl⟩

/-- Declaring a function adds a name and no storage. -/
theorem Sound.addFunc {t t' : Table} (ht : t.Sound) {s : Nat} {id id' : Symbol}
    (htype : id.type.isSignature = true) (hid : id.builtin = false)
    (h : t.addFunc s id = .ok (t', id')) : ∃ g, t' = t.bindName g id' ∧ t'.Sound := by
  obtain ⟨g, hg, -, hfree, -, hid', rfl⟩ := addFunc_ok h
  refine ⟨g, rfl, ht.bindName ?_⟩
  have hlookup : t.lookup g id.name = none := (Option.or_eq_none_iff.1 hfree).1
  have hnew := ht.not_builtin (lt_size_of_global (ht.global s g hg)) hlookup
  obtain ⟨result, params, type, isResult, isData⟩ := Ty.isSignature_iff.1 htype
  subst hid'
  refine .function type isResult isData (fun hb => ?_) fun _ => hnew
  have hb : id.builtin = true := hb
  rw [hid] at hb
  cases hb

end Table

end SmallC
