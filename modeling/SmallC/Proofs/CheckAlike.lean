import SmallC.Proofs.TableViews

/-!
# Checking in tables that look alike

What is checked in scopes with the same view is accepted or rejected alike, and
what comes out is the same. For an expression that is an equation, because an
expression declares nothing and its check only looks names up. For a declaration
`Agrees` says it: either both sides fail, or both succeed, the symbols that they
make are the same, and the tables still look alike.
-/

namespace SmallC

/-! ## Computations that agree -/

/-- Two computations that both fail, or both succeed with related results. -/
inductive Agrees {α β : Type} (R : α → β → Prop) : Except Fault α → Except Fault β → Prop where
  | ok {a : α} {b : β} (h : R a b) : Agrees R (.ok a) (.ok b)
  | error {f f' : Fault} : Agrees R (.error f) (.error f')

namespace Agrees

variable {α β γ δ : Type} {R : α → β → Prop} {S : γ → δ → Prop}

theorem bind {x : Except Fault α} {y : Except Fault β} (h : Agrees R x y)
    {k : α → Except Fault γ} {k' : β → Except Fault δ} (hk : ∀ a b, R a b → Agrees S (k a) (k' b)) :
    Agrees S (x >>= k) (y >>= k') := by
  cases h with
  | ok h => exact hk _ _ h
  | error => exact .error

/-- The same computation on both sides. -/
theorem bind_same {x : Except Fault α} {k : α → Except Fault γ} {k' : α → Except Fault δ}
    (hk : ∀ a, x = .ok a → Agrees S (k a) (k' a)) : Agrees S (x >>= k) (x >>= k') := by
  cases x with
  | error f => exact .error
  | ok a => exact hk a rfl

theorem imp {R' : α → β → Prop} {x : Except Fault α} {y : Except Fault β} (h : Agrees R x y)
    (himp : ∀ a b, R a b → R' a b) : Agrees R' x y := by
  cases h with
  | ok h => exact .ok (himp _ _ h)
  | error => exact .error

theorem and_left {P : α → Prop} {x : Except Fault α} {y : Except Fault β} (h : Agrees R x y)
    (hx : ∀ a, x = .ok a → P a) : Agrees (fun a b => R a b ∧ P a) x y := by
  cases h with
  | ok h => exact .ok ⟨h, hx _ rfl⟩
  | error => exact .error

theorem ok_iff {x : Except Fault α} {y : Except Fault β} (h : Agrees R x y) :
    (∃ a, x = .ok a) ↔ ∃ b, y = .ok b := by
  cases h with
  | ok h => exact iff_of_true ⟨_, rfl⟩ ⟨_, rfl⟩
  | error => exact iff_of_false (fun ⟨_, h⟩ => nomatch h) fun ⟨_, h⟩ => nomatch h

theorem rel {x : Except Fault α} {y : Except Fault β} (h : Agrees R x y) {a : α} {b : β}
    (hx : x = .ok a) (hy : y = .ok b) : R a b := by
  cases h with
  | ok h =>
      cases hx
      cases hy
      exact h
  | error => cases hx

end Agrees

/-! ## Expressions -/

section

variable {t t' : Table} {s s' : Nat}

theorem Ident.resolve_congr (h : t'.lookup s' = t.lookup s) (id : Ident) :
    id.resolve t' s' = id.resolve t s := by
  unfold Ident.resolve
  rw [h]

theorem checkArray_congr (h : t'.lookup s' = t.lookup s) (array : Option Ident) :
    checkArray t' s' array = checkArray t s array := by
  unfold checkArray
  simp only [Ident.resolve_congr h]

theorem checkCall_congr (h : t'.lookup s' = t.lookup s) (pos : Pos) (func : Option Ident)
    (count : Nat) {checkArgs checkArgs' : String → List Ty → Except Fault (List Expr × List Fault)}
    (hargs : ∀ name params, checkArgs' name params = checkArgs name params) :
    checkCall t' s' pos func count checkArgs' = checkCall t s pos func count checkArgs := by
  unfold checkCall
  simp only [Ident.resolve_congr h, hargs]

mutual

theorem Expr.check_congr (h : t'.lookup s' = t.lookup s) :
    ∀ e : Expr, e.check t' s' = e.check t s
  | .missing | .convert _ _ _ => by
      simp only [Expr.check]
  | .literal _ _ _ _ => by
      rw [Expr.check, Expr.check]
  | .ident id => by
      rw [Expr.check, Expr.check, Ident.resolve_congr h]
  | .unary _ _ x _ => by
      rw [Expr.check, Expr.check, Expr.check_congr h x]
  | .binary _ _ x y _ => by
      rw [Expr.check, Expr.check, Expr.check_congr h x, Expr.check_congr h y]
  | .index _ array i _ => by
      rw [Expr.check, Expr.check, checkArray_congr h, Expr.check_congr h i]
  | .call pos func args _ => by
      rw [Expr.check, Expr.check,
        checkCall_congr h pos func args.length fun name params =>
          Expr.checkArgs_congr h name 1 params args]

theorem Expr.checkArgs_congr (h : t'.lookup s' = t.lookup s) (name : String) (i : Nat) :
    ∀ (params : List Ty) (args : List Expr),
    Expr.checkArgs t' s' name i params args = Expr.checkArgs t s name i params args
  | [], _ | _ :: _, [] => by
      simp only [Expr.checkArgs]
  | param :: params, e :: rest => by
      rw [Expr.checkArgs, Expr.checkArgs, Expr.check_congr h e,
        Expr.checkArgs_congr h name (i + 1) params rest]

end

theorem Expr.checkCond_congr (h : t'.lookup s' = t.lookup s) (e : Expr) :
    e.checkCond t' s' = e.checkCond t s := by
  unfold Expr.checkCond
  rw [Expr.check_congr h]

theorem checkTarget_congr (h : t'.lookup s' = t.lookup s) (pos : Pos) (target : Expr) :
    checkTarget t' s' pos target = checkTarget t s pos target := by
  cases target with
  | ident id => simp only [checkTarget, Ident.resolve_congr h]
  | index => exact Expr.check_congr h _
  | _ => rfl

theorem checkAssign_congr (h : t'.lookup s' = t.lookup s) (pos : Pos) (target value : Expr) :
    checkAssign t' s' pos target value = checkAssign t s pos target value := by
  unfold checkAssign
  simp only [checkTarget_congr h, Expr.check_congr h]

theorem checkReturn_congr (h : t'.lookup s' = t.lookup s)
    (hfunction : t'.function? s' = t.function? s) (pos : Pos) (value : Expr) :
    checkReturn t' s' pos value = checkReturn t s pos value := by
  unfold checkReturn
  simp only [hfunction, Expr.check_congr h]

end

/-! ## Declarations -/

namespace Table

section

variable {t t' : Table} {g s : Nat} {x y : Twin} {stack rest : List Twin}

/-- Tables that look alike, together with related results. -/
def AlikeWith {α β : Type} (R : α → β → Prop) (g : Nat) (stack : List Twin) (out : Table × α)
    (out' : Table × β) : Prop :=
  Alike out.1 out'.1 g stack ∧ R out.2 out'.2

theorem define_of_free {id : Symbol} (h : t.lookupLocal s id.name = none) :
    t.define s id = .ok (t.bindName s id) := by
  rw [define_eq, h]
  rfl

theorem modifyFunction_bindName {id : Symbol} {l : Nat} {step : Function → Function} :
    (t.bindName s id).modifyFunction l step = (t.modifyFunction l step).bindName s id := by
  unfold modifyFunction
  rw [owner?_bindName]
  cases t.owner? l <;> rfl

theorem Alike.statics_global (h : Alike t t' g stack) : t'.statics g = t.statics g := by
  rw [statics_eq (h.left.global g h.left.global_mem),
    statics_eq (h.right.global g h.right.global_mem), h.statics]

theorem Alike.globalConflict (h : Alike t t' g stack) (name : String) :
    t'.globalConflict g name = t.globalConflict g name := by
  unfold Table.globalConflict
  rw [h.statics_global, show t'.lookup g = t.lookup g from congrArg View.names h.view_global]

theorem Stacked.define_of_free {ls : List Nat} (h : t.Stacked g ls) (hs : s ∈ ls) {id : Symbol}
    (hfree : t.lookup s id.name = none) : t.define s id = .ok (t.bindName s id) :=
  Table.define_of_free (lookupLocal_eq_none h.tidy.toShaped (h.lt_size hs) hfree)

theorem Alike.defineIn (h : Alike t t' g (x :: rest)) (id : Symbol) {f : Function}
    (hf : t.function? x.left = some f) (hfree : f.find? id.name = none)
    {step : Function → Function} (hle : ∀ f : Function, f.Le (step f))
    (hfound : ∀ f, (step f).find? id.name ≠ none) :
    Agrees (AlikeWith (· = ·) g (x :: rest))
      (do let t ← t.define x.left id; return (t.modifyFunction x.left step, id))
      (do let t ← t'.define x.right id; return (t.modifyFunction x.right step, id)) := by
  rw [Table.define_of_free (h.left.tidy.named x.left f id.name hf hfree),
    Table.define_of_free (h.right.tidy.named x.right f id.name (h.function?.trans hf) hfree)]
  refine .ok ⟨?_, rfl⟩
  show Alike ((t.bindName x.left id).modifyFunction x.left step)
    ((t'.bindName x.right id).modifyFunction x.right step) g _
  rw [modifyFunction_bindName, modifyFunction_bindName]
  exact h.declareIn hf hle hfound

theorem Alike.addLocal (h : Alike t t' g (x :: rest)) {f : Function}
    (hf : t.function? x.left = some f) (id : Symbol) :
    Agrees (AlikeWith (· = ·) g (x :: rest)) (t.addLocal x.left f id)
      (t'.addLocal x.right f id) := by
  rw [Table.addLocal_eq, Table.addLocal_eq]
  refine Agrees.bind_same fun _ hfree => ?_
  refine h.defineIn { id with storage := .automatic, slot := f.locals.length } hf
    (checkFree_ok hfree) (fun f' => f'.le_addLocals _) fun f' hnone => ?_
  refine Symbol.find?_eq_none_iff.1 (Option.or_eq_none_iff.1 hnone).2 ?_
  exact List.mem_map_of_mem (List.mem_append_right _ List.mem_cons_self)

theorem Alike.defineStatic (h : Alike t t' g (x :: rest)) (hf : t.function? x.left = none)
    {id : Symbol} (hfree : t.lookup x.left id.name = none) :
    Agrees (AlikeWith (· = ·) g (x :: rest))
      (do let t ← t.define x.left id; return (t.pushStatic g id, id))
      (do let t ← t'.define x.right id; return (t.pushStatic g id, id)) := by
  have hfree' : t'.lookup x.right id.name = none := (congrFun h.lookup id.name).trans hfree
  rw [h.left.define_of_free List.mem_cons_self hfree,
    h.right.define_of_free List.mem_cons_self hfree']
  exact .ok ⟨h.declareStatic hf, rfl⟩

theorem Alike.addStatic (h : Alike t t' g (x :: rest)) (hf : t.function? x.left = none)
    (id : Symbol) :
    Agrees (AlikeWith (· = ·) g (x :: rest)) (t.addStatic x.left g id)
      (t'.addStatic x.right g id) := by
  have hblock : (t'.frames[x.right]?).any (·.level == .block) =
      (t.frames[x.left]?).any (·.level == .block) := congrArg View.inBlock h.view
  rw [Table.addStatic_eq, Table.addStatic_eq, hblock, h.lookup, h.globalConflict, h.statics_global]
  cases hb : (t.frames[x.left]?).any (·.level == .block) with
  | true =>
      refine Agrees.bind_same fun _ hlookup => Agrees.bind_same fun _ _ => ?_
      exact h.defineStatic hf (checkFree_ok hlookup)
  | false =>
      -- a scope that is no block is the global one, where a conflict with the program is one here
      obtain rfl : x.left = g := Decidable.byContradiction fun hne => by
        have hblock := inBlock_iff.2 ((h.left.tidy.block x.left g h.global.1).2 hne)
        rw [show (t.view x.left).inBlock = false from hb] at hblock
        cases hblock
      refine Agrees.bind_same fun _ hconflict => ?_
      exact h.defineStatic hf (Option.or_eq_none_iff.1 (checkFree_ok hconflict)).1

/-- A variable is declared on both sides. -/
theorem Alike.addVar (h : Alike t t' g (x :: rest)) (id : Symbol) :
    Agrees (AlikeWith (· = ·) g (x :: rest)) (t.addVar x.left id) (t'.addVar x.right id) := by
  obtain ⟨hg, hg'⟩ := h.global
  rw [Table.addVar_eq, Table.addVar_eq, hg, hg', h.function?]
  refine Agrees.bind_same fun _ _ => ?_
  cases hf : t.function? x.left with
  | none => exact h.addStatic hf id
  | some f => exact h.addLocal hf id

theorem Alike.defineFunc (h : Alike t t' g (x :: rest)) {id : Symbol}
    (hfree : t.lookup g id.name = none) :
    Agrees (AlikeWith (· = ·) g (x :: rest)) (do let t ← t.define g id; return (t, id))
      (do let t ← t'.define g id; return (t, id)) := by
  have hfree' : t'.lookup g id.name = none :=
    (congrFun (congrArg View.names h.view_global) id.name).trans hfree
  rw [h.left.define_of_free h.left.global_mem hfree,
    h.right.define_of_free h.right.global_mem hfree']
  exact .ok ⟨h.declareFunc hfree, rfl⟩

/-- A function is declared on both sides, from a scope that is further out. -/
theorem Alike.addFunc (h : Alike t t' g (x :: rest)) (hy : y ∈ x :: rest) (id : Symbol) :
    Agrees (AlikeWith (· = ·) g (x :: rest)) (t.addFunc y.left id) (t'.addFunc y.right id) := by
  rw [Table.addFunc_eq, Table.addFunc_eq, h.left.global y.left (List.mem_map_of_mem hy),
    h.right.global y.right (List.mem_map_of_mem hy)]
  refine Agrees.bind_same fun _ _ => ?_
  rw [h.globalConflict]
  refine Agrees.bind_same fun _ hconflict => ?_
  exact h.defineFunc (Option.or_eq_none_iff.1 (checkFree_ok hconflict)).1

/-- A scope marked with a function that has no locals yet. -/
def Opening (t : Table) (s : Nat) : Prop := ∃ f, t.functionAt? s = some f ∧ f.locals = []

/-- A parameter is declared before there are any locals, so it can only clash with parameters. -/
theorem Alike.addParam (h : Alike t t' g (x :: rest)) (hopen : t.Opening x.left) (id : Symbol) :
    Agrees (fun out out' => AlikeWith (· = ·) g (x :: rest) out out' ∧ out.1.Opening x.left)
      (t.addParam x.left id) (t'.addParam x.right id) := by
  obtain ⟨f, hat, hlocals⟩ := hopen
  have howner := h.left.tidy.toShaped.owner?_self hat
  have hf : t.function? x.left = some f := by
    rw [function?_eq_owner?, howner]
    exact hat
  refine Agrees.and_left ?_ fun out hout => ?_
  · rw [Table.addParam_eq, Table.addParam_eq, h.function?, hf]
    refine Agrees.bind_same fun _ _ => Agrees.bind_same fun _ hfree => ?_
    have hnone : f.find? id.name = none := by
      unfold Function.find?
      rw [checkFree_ok hfree, hlocals]
      rfl
    refine h.defineIn { id with storage := .param, slot := f.params.length } hf hnone
      (fun f' => f'.le_addParam _) fun f' hnone => ?_
    refine Symbol.find?_eq_none_iff.1 (Option.or_eq_none_iff.1 hnone).1 ?_
    exact List.mem_map_of_mem (List.mem_append_right _ List.mem_cons_self)
  · obtain ⟨l, f', howner', hat', -, -, -, -, hout⟩ := addParam_ok hout
    cases howner.symm.trans howner'
    cases hat.symm.trans hat'
    rw [hout]
    exact ⟨_, functionAt?_setFunction_self (lt_size_of_function hat), hlocals⟩

/-- The scope of a function is opened and marked on both sides. -/
theorem Alike.openFunction (h : Alike t t' g (x :: rest)) (hf : t.function? x.left = none)
    {f : Function} (hlocals : f.locals = []) :
    Alike ((t.child x.left).1.setFunction t.size (some f))
        ((t'.child x.right).1.setFunction t'.size (some f)) g
        (⟨t.size, t'.size, true⟩ :: x :: rest) ∧
      ((t.child x.left).1.setFunction t.size (some f)).Opening t.size := by
  have htidy : ∀ {t : Table} {s : Nat} {ls : List Nat}, t.Stacked g (s :: ls) →
      t.function? s = none → ((t.child s).1.setFunction t.size (some f)).Tidy := by
    intro t s ls h hf
    have ht := h.tidy.toShaped
    have hg := h.global s List.mem_cons_self
    have hgt := h.lt_size h.global_mem
    refine (h.tidy.child hg).mark size_child.symm (global?_child_new ht hg) (by omega) ?_
      (lookupLocal_child_new ht)
    exact (congrArg View.function (view_child_new ht hg)).trans hf
  refine ⟨h.child.setFunction (htidy h.left hf) (htidy h.right (h.function?.trans hf)), f, ?_,
    hlocals⟩
  exact functionAt?_setFunction_self (by rw [size_child]; omega)

/-- Giving a function its symbol changes neither its parameters nor its locals. -/
theorem Alike.describe {s' : Nat} (h : Alike t t' g (⟨s, s', true⟩ :: rest)) {f : Function}
    (hf : t.functionAt? s = some f) (symbol : Option Symbol) :
    Alike (t.setFunction s (some { f with symbol := symbol }))
      (t'.setFunction s' (some { f with symbol := symbol })) g (⟨s, s', true⟩ :: rest) := by
  have hle : f.Le { f with symbol := symbol } := ⟨rfl, fun _ _ h => h, fun _ h => h⟩
  exact h.setFunction (h.left.tidy.setFunction hf hle)
    (h.right.tidy.setFunction (h.functionAt?.trans hf) hle)

end

end Table

/-! ## Declaring statements -/

section

open Table

variable {t t' : Table} {g : Nat} {x : Twin} {rest : List Twin}

theorem Table.Alike.declare (h : Alike t t' g (x :: rest)) (id : Ident) (type : Ty)
    (size : Option Pos) :
    Agrees (AlikeWith (· = ·) g (x :: rest)) (declare t x.left id type size)
      (declare t' x.right id type size) := by
  unfold SmallC.declare
  refine (h.addVar _).bind ?_
  rintro ⟨t₁, sym⟩ ⟨t₁', sym'⟩ ⟨halike, heq⟩
  obtain rfl : sym = sym' := heq
  exact .ok ⟨halike, rfl⟩

theorem Table.Alike.checkParam (h : Alike t t' g (x :: rest)) (hopen : t.Opening x.left)
    (p : Option Param) :
    Agrees (fun out out' => AlikeWith (· = ·) g (x :: rest) out out' ∧ out.1.Opening x.left)
      (checkParam t x.left p) (checkParam t' x.right p) := by
  cases p with
  | none => exact .error
  | some p =>
      unfold SmallC.checkParam
      refine Agrees.bind_same fun kind _ => Agrees.bind_same fun name _ => ?_
      refine (h.addParam hopen _).bind ?_
      rintro ⟨t₁, sym⟩ ⟨t₁', sym'⟩ ⟨⟨halike, heq⟩, hopen⟩
      obtain rfl : sym = sym' := heq
      exact .ok ⟨⟨halike, rfl⟩, hopen⟩

theorem Table.Alike.checkParams (h : Alike t t' g (x :: rest)) (hopen : t.Opening x.left)
    (ps : List (Option Param)) :
    Agrees (fun out out' => AlikeWith (· = ·) g (x :: rest) out out' ∧ out.1.Opening x.left)
      (checkParams t x.left ps) (checkParams t' x.right ps) := by
  induction ps generalizing t t' with
  | nil => exact .ok ⟨⟨h, rfl⟩, hopen⟩
  | cons p ps ih =>
      rw [SmallC.checkParams, SmallC.checkParams]
      refine (h.checkParam hopen p).bind ?_
      rintro ⟨t₁, p₁⟩ ⟨t₁', p₁'⟩ ⟨⟨halike, heq⟩, hopen⟩
      obtain rfl : p₁ = p₁' := heq
      refine (ih halike hopen).bind ?_
      rintro ⟨t₂, ps₁⟩ ⟨t₂', ps₁'⟩ ⟨⟨halike, heq⟩, hopen⟩
      obtain rfl : ps₁ = ps₁' := heq
      exact .ok ⟨⟨halike, rfl⟩, hopen⟩

/-- The heads of a function are the same up to the number of its scope. -/
theorem Table.Alike.checkFuncHead (h : Alike t t' g (x :: rest)) (result : Option Ident)
    (isArray : Bool) (name : Option Ident) (params : Option Params) :
    Agrees (fun out out' =>
        Alike out.1 out'.1 g (⟨out.2.scope, out'.2.scope, true⟩ :: x :: rest) ∧
          out'.2.name = out.2.name ∧ out'.2.params = out.2.params)
      (checkFuncHead t x.left result isArray name params)
      (checkFuncHead t' x.right result isArray name params) := by
  unfold SmallC.checkFuncHead
  refine Agrees.bind_same fun name _ => ?_
  rw [h.function?]
  cases hf : t.function? x.left with
  | some outer => exact .error
  | none =>
      refine Agrees.bind_same fun kind _ => ?_
      have hscope := h.left.tidy.toShaped.scope_child (s := x.left)
      have hscope' := h.right.tidy.toShaped.scope_child (s := x.right)
      obtain ⟨halike, hopen⟩ := h.openFunction hf
        (f := Function.new name.name (if isArray then .array kind else .base kind)) rfl
      simp only [hscope, hscope']
      refine (halike.checkParams hopen _).bind ?_
      rintro ⟨t₁, ps⟩ ⟨t₁', ps'⟩ ⟨⟨halike, heq⟩, f, hat, -⟩
      obtain rfl : ps = ps' := heq
      have hat' : t₁'.functionAt? t'.size = some f := halike.functionAt?.trans hat
      simp only [hat, hat', Option.getD_some]
      refine ((halike.addFunc (List.mem_cons_of_mem _ List.mem_cons_self) _).and_left
        fun out hout => hout).bind ?_
      rintro ⟨t₂, sym⟩ ⟨t₂', sym'⟩ ⟨⟨halike, heq⟩, hadd⟩
      obtain rfl : sym = sym' := heq
      obtain ⟨_, -, -, -, -, -, hnames⟩ := addFunc_ok hadd
      have hat₂ : t₂.functionAt? t.size = some f := hnames ▸ hat
      exact .ok ⟨halike.describe hat₂ (some sym), rfl, rfl⟩

end

end SmallC
