import SmallC.Proofs.TableChanges
import SmallC.Proofs.TableGrowth

/-!
# Any use of a symbol table

Analysis uses a table in one particular way: a function is marked at a scope that
was opened for it, its parameters come before its locals, and no scope is added to
once it is left. A session is any use at all. Scopes are opened inside of any
scope, functions are marked at any scope, taken away and marked again, also at
several scopes at a time, and names are declared wherever one likes.

A function that is marked at several scopes is one function: what is declared in
one of these scopes is seen from the others. So a session keeps the functions in a
list of its own and the scopes hold copies, which are renewed after each
declaration, be it one that failed: the session goes on with whatever table the
declaration left behind.

Whatever the requests were, slots count up from zero without a gap, names in one
row of slots differ, and the names stored by a program are apart from those of its
functions and of the builtin ones. The invariant is `Session.Kept`. A static symbol
is apart from the functions because a function stays bound at the global scope, and
a declaration at either place looks at the other one first. That a failed
declaration changes nothing takes the invariant too, since the copies are renewed
from the list and have to come out as they were.
-/

namespace SmallC

/-- The ways to declare a name. -/
inductive DeclSort where
  | var | param | func
deriving DecidableEq, Repr

/-- Declares a name of a given sort. -/
def Table.add (t : Table) : DeclSort → Nat → Symbol → Except Fault (Table × Symbol)
  | .var => t.addVar
  | .param => t.addParam
  | .func => t.addFunc

/-- Declares a name of a given sort, as a step. -/
def Table.Change.add : DeclSort → Nat → Symbol → Table.Change Symbol
  | .var => addVar
  | .param => addParam
  | .func => addFunc

/-- The same table with other functions marked at its scopes. -/
def Table.remark (t : Table) (marks : Nat → Option Function) : Table :=
  { t with frames := t.frames.mapIdx fun s frame => { frame with function := marks s } }

/-- A declaration that was made, with the program it was made in. -/
structure Session.Entry where
  sort : DeclSort
  program : Option Nat
  symbol : Symbol

/-- A table in use. -/
structure Session where
  table : Table
  /-- The functions made so far. They are known by their position. -/
  functions : List Function
  /-- The function that a scope is marked with. -/
  marks : Nat → Option Nat
  declared : List Session.Entry

/-- What can be asked of a table. -/
inductive Session.Request where
  | child (s : Nat)
  | newFunction (name : String) (result : Ty)
  | setFunction (s : Nat) (f : Option Nat)
  | add (sort : DeclSort) (s : Nat) (id : Symbol)

namespace Session

/-- A new table, with nothing but the builtin functions. -/
def initial : Session := ⟨.initial, [], fun _ => none, []⟩

/-- The functions after a declaration in `s` that led to the table `t`: the one that `s` belongs to
is as `t` has it. -/
def stored (σ : Session) (s : Nat) (t : Table) : List Function :=
  match σ.table.owner? s with
  | none => σ.functions
  | some l =>
    match σ.marks l, t.functionAt? l with
    | some h, some f => σ.functions.set h f
    | _, _ => σ.functions

/-- The session after a declaration in `s` that led to the table `t`, whether it failed or not. -/
def after (σ : Session) (s : Nat) (t : Table) : Session :=
  let functions := σ.stored s t
  { σ with
    table := t.remark fun l => (σ.marks l).bind (functions[·]?)
    functions := functions }

/-- The session after a request. A request that names no scope of the table changes nothing. -/
def perform (σ : Session) : Request → Session
  | .child s => if s < σ.table.size then { σ with table := (σ.table.child s).1 } else σ
  | .newFunction name result =>
    { σ with functions := σ.functions ++ [Function.new name result] }
  | .setFunction s f =>
    let f := f.filter (· < σ.functions.length)
    if s < σ.table.size then
      { σ with
        table := σ.table.setFunction s (f.bind (σ.functions[·]?))
        marks := fun l => if l = s then f else σ.marks l }
    else σ
  | .add sort s id =>
    match (Table.Change.add sort s id).run σ.table with
    | .error _ t => σ.after s t
    | .ok id' t =>
      { σ.after s t with declared := σ.declared ++ [⟨sort, σ.table.global? s, id'⟩] }

/-- The session after requests made one after the other. -/
def run (requests : List Request) : Session := requests.foldl perform initial

end Session

/-! ## Declarations of any sort -/

namespace Table.Change

variable {t t' : Table} {sort : DeclSort} {s : Nat} {id id' : Symbol} {fault : Fault}

theorem outcome_add : (add sort s id).outcome t = t.add sort s id := by
  cases sort <;> rfl

theorem run_add_eq_ok_iff :
    (add sort s id).run t = .ok id' t' ↔ t.add sort s id = .ok (t', id') := by
  rw [← outcome_eq_ok_iff, outcome_add]

theorem run_add_eq_error_iff :
    (∃ t', (add sort s id).run t = .error fault t') ↔ t.add sort s id = .error fault := by
  rw [← outcome_eq_error_iff, outcome_add]

theorem atomic_add : Atomic (add sort s id) := by
  cases sort with
  | var => exact atomic_addVar s id
  | param => exact atomic_addParam s id
  | func => exact atomic_addFunc s id

end Table.Change

/-! ## Rows of slots -/

/-- Symbols whose slots are their positions and whose names differ. -/
structure Symbol.Numbered (ids : List Symbol) : Prop where
  slots : ∀ (i : Nat) (id : Symbol), ids[i]? = some id → id.slot = i
  names : (ids.map (·.name)).Nodup

theorem Symbol.Numbered.nil : Symbol.Numbered [] :=
  ⟨fun _ _ h => (nomatch h), List.nodup_nil⟩

theorem Symbol.Numbered.snoc {ids : List Symbol} {id : Symbol} (h : Symbol.Numbered ids)
    (hslot : id.slot = ids.length) (hfree : Symbol.find? id.name ids = none) :
    Symbol.Numbered (ids ++ [id]) :=
  ⟨forall_getElem?_concat h.slots hslot,
    nodup_names_snoc h.names (Symbol.find?_eq_none_iff.1 hfree)⟩

/-- A function whose parameters and whose locals are numbered. -/
structure Function.Numbered (f : Function) : Prop where
  params : Symbol.Numbered f.params
  locals : Symbol.Numbered f.locals

/-! ## Tables in any use -/

namespace Table

section Remark

variable {t : Table} {marks : Nat → Option Function} {l : Nat}

theorem frames_remark :
    (t.remark marks).frames[l]? = t.frames[l]?.map ({ · with function := marks l }) := by
  show (t.frames.mapIdx _)[l]? = _
  rw [Array.getElem?_mapIdx]

theorem size_remark : (t.remark marks).size = t.size := Array.size_mapIdx

theorem global?_remark : (t.remark marks).global? l = t.global? l := by
  unfold global?
  rw [frames_remark]
  cases t.frames[l]? <;> rfl

theorem staticsAt_remark : (t.remark marks).staticsAt l = t.staticsAt l := by
  unfold staticsAt
  rw [frames_remark]
  cases t.frames[l]? <;> rfl

theorem functionAt?_remark (h : l < t.size) : (t.remark marks).functionAt? l = marks l := by
  unfold functionAt?
  rw [frames_remark, Array.getElem?_eq_getElem h]
  rfl

/-- Every scope is marked again with its own function. -/
theorem remark_functionAt? (t : Table) : t.remark t.functionAt? = t := by
  refine congrArg (Table.mk t.names) (Array.ext_getElem? fun l => ?_)
  rw [Array.getElem?_mapIdx]
  unfold functionAt?
  cases t.frames[l]? <;> rfl

end Remark

/-- The scopes of a table in any use: each is inside of the root, which holds the builtin
functions. -/
structure Rooted (t : Table) : Prop where
  levels : t.names.levels.size = t.size
  nonempty : 0 < t.size
  chain : ∀ s < t.size, s ∈ t.chain s ∧ 0 ∈ t.chain s
  global : ∀ s g, t.global? s = some g → t.global? g = some g
  builtins : ∀ id ∈ Symbol.builtins, (t.lookupLocal 0 id.name).isSome = true

theorem Rooted.initial : Table.initial.Rooted := by
  have ht := Sound.initial
  refine ⟨ht.levels, ht.nonempty, fun s hs => ?_, ht.global, ht.builtins⟩
  obtain ⟨outer, hc⟩ := ht.chain_eq_cons hs
  exact ⟨hc ▸ List.mem_cons_self, ht.root_mem_chain hs⟩

/-- Functions and storage do not matter. -/
theorem Rooted.congr {t t' : Table} (ht : t.Rooted) (names : t'.names = t.names)
    (size : t'.size = t.size) (global : ∀ s, t'.global? s = t.global? s) : t'.Rooted := by
  have hchain : ∀ s, t'.chain s = t.chain s := fun s => congrArg (Scope.chain · s) names
  refine ⟨?_, ?_, ?_, ?_, ?_⟩
  · rw [names, size]; exact ht.levels
  · rw [size]; exact ht.nonempty
  · intro s hs
    rw [hchain]
    exact ht.chain s (size ▸ hs)
  · intro s g hg
    rw [global] at hg ⊢
    exact ht.global s g hg
  · intro id hid
    unfold lookupLocal
    rw [names]
    exact ht.builtins id hid

theorem Rooted.bindName {t : Table} (ht : t.Rooted) (s : Nat) (id : Symbol) :
    (t.bindName s id).Rooted := by
  refine ⟨Scope.size_bind.trans ht.levels, ht.nonempty, ?_, ht.global, ?_⟩
  · intro l hl
    show l ∈ (t.names.bind s id.name id).chain l ∧ 0 ∈ (t.names.bind s id.name id).chain l
    rw [Scope.chain_bind]
    exact ht.chain l hl
  · intro id' hid'
    exact Scope.findLocal?_bind_isSome (ht.builtins id' hid')

theorem Rooted.child {t : Table} (ht : t.Rooted) {s : Nat} (hs : s < t.size) :
    (t.child s).1.Rooted := by
  have hnew : (t.child s).2 = t.size := ht.levels
  refine ⟨?_, ?_, ?_, ?_, ?_⟩
  · rw [size_child, ← ht.levels]; exact Array.size_push ..
  · rw [size_child]; omega
  · intro l hl
    rw [size_child] at hl
    show l ∈ (t.names.child s).1.chain l ∧ 0 ∈ (t.names.child s).1.chain l
    rcases Nat.lt_succ_iff_lt_or_eq.1 hl with hlt | rfl
    · rw [Scope.chain_child (ht.levels ▸ hlt)]
      exact ht.chain l hlt
    · rw [← ht.levels, Scope.chain_child_new]
      exact ⟨List.mem_cons_self, List.mem_cons_of_mem _ (ht.chain s hs).2⟩
  · intro l g hg
    have hold : ∀ k, t.global? k = some g → (t.child s).1.global? g = some g := by
      intro k hk
      have hgg := ht.global k g hk
      rw [global?_child (lt_size_of_global hgg)]
      exact hgg
    have hl := lt_size_of_global hg
    rw [size_child] at hl
    rcases Nat.lt_succ_iff_lt_or_eq.1 hl with hlt | rfl
    · rw [global?_child hlt] at hg
      exact hold l hg
    · have hat := hg
      rw [Table.global?] at hg
      rcases frame_child_new (t := t) (s := s) with ⟨-, hframe⟩ | ⟨-, hframe⟩
      · rw [hframe, hnew] at hg
        cases hg
        exact hat
      · rw [hframe] at hg
        exact hold s hg
  · intro id hid
    unfold lookupLocal
    rw [show ((t.child s).1.names.findLocal? 0 id.name) = _ from Scope.findLocal?_child]
    exact ht.builtins id hid

/-- A name that means nothing in a scope is not declared there, and is not that of a builtin
function. -/
theorem Rooted.free {t : Table} (ht : t.Rooted) {s : Nat} {name : String} (hs : s < t.size)
    (h : t.lookup s name = none) :
    t.lookupLocal s name = none ∧ name ∉ Symbol.builtins.map (·.name) := by
  have hnone := List.findSome?_eq_none_iff.1 h
  obtain ⟨hself, hroot⟩ := ht.chain s hs
  refine ⟨hnone s hself, fun hmem => ?_⟩
  obtain ⟨id, hid, rfl⟩ := List.mem_map.1 hmem
  have hsome := ht.builtins id hid
  rw [show t.lookupLocal 0 id.name = none from hnone 0 hroot] at hsome
  cases hsome

/-- A name that is free in a program: no scope in sight declares it, and no block either. -/
theorem Rooted.conflict {t : Table} (ht : t.Rooted) {s g : Nat} {name : String}
    (hg : t.global? s = some g) (h : t.globalConflict g name = none) :
    t.lookupLocal g name = none ∧ name ∉ Symbol.builtins.map (·.name) ∧
      Symbol.find? name (t.staticsAt g) = none := by
  have hgg := ht.global s g hg
  obtain ⟨hlookup, hstatics⟩ := Option.or_eq_none_iff.1 h
  obtain ⟨hlocal, hbuiltin⟩ := ht.free (lt_size_of_global hgg) hlookup
  exact ⟨hlocal, hbuiltin, statics_eq hgg ▸ hstatics⟩

end Table

/-! ## What every session keeps -/

namespace Session

/-- The invariant of sessions. -/
structure Kept (σ : Session) : Prop where
  rooted : σ.table.Rooted
  marks : ∀ s i, σ.marks s = some i → s < σ.table.size ∧ i < σ.functions.length
  copies : ∀ s, σ.table.functionAt? s = (σ.marks s).bind (σ.functions[·]?)
  functions : ∀ f ∈ σ.functions, f.Numbered
  statics : ∀ g, Symbol.Numbered (σ.table.staticsAt g)
  builtins : ∀ g, ∀ id ∈ σ.table.staticsAt g, id.name ∉ Symbol.builtins.map (·.name)
  names : ∀ e ∈ σ.declared, isKeyword e.symbol.name = false
  bound : ∀ s name id, σ.table.lookupLocal s name = some id →
    id ∈ Symbol.builtins ∨ ∃ e ∈ σ.declared, e.symbol = id
  apart : ∀ e ∈ σ.declared, e.sort = .func → ∀ g, e.program = some g →
    (σ.table.lookupLocal g e.symbol.name).isSome = true ∧
      ∀ id ∈ σ.table.staticsAt g, id.name ≠ e.symbol.name

theorem Kept.initial : Session.initial.Kept := by
  have hframe : ∀ s, Table.initial.functionAt? s = none ∧ Table.initial.staticsAt s = [] := by
    intro s
    rcases s with _ | s
    · exact ⟨rfl, rfl⟩
    · exact ⟨Table.functionAt?_eq_none (Nat.le_add_left 1 s),
        Table.staticsAt_eq_nil (Nat.le_add_left 1 s)⟩
  refine ⟨Table.Rooted.initial, fun _ _ h => (nomatch h), fun s => (hframe s).1,
    fun _ h => (nomatch h), ?_, ?_, fun _ h => (nomatch h), ?_, fun _ h => (nomatch h)⟩
  · intro g
    show Symbol.Numbered (Table.initial.staticsAt g)
    rw [(hframe g).2]
    exact Symbol.Numbered.nil
  · intro g id hid
    rw [show Session.initial.table.staticsAt g = [] from (hframe g).2] at hid
    cases hid
  · intro s name id h
    rcases Table.foldl_bind_some h with ⟨hid, -⟩ | h
    · exact .inl hid
    · rcases s with _ | s <;> cases h

section

variable {σ : Session}

theorem Kept.child (h : σ.Kept) {s : Nat} (hs : s < σ.table.size) :
    Kept { σ with table := (σ.table.child s).1 } := by
  have hlocal : ∀ l name, (σ.table.child s).1.lookupLocal l name = σ.table.lookupLocal l name :=
    fun _ _ => Scope.findLocal?_child
  refine ⟨h.rooted.child hs, ?_, ?_, h.functions, ?_, ?_, h.names, ?_, ?_⟩
  · intro l i hl
    obtain ⟨hlt, hi⟩ := h.marks l i hl
    refine ⟨?_, hi⟩
    rw [Table.size_child]
    omega
  · intro l
    rw [Table.functionAt?_child]
    exact h.copies l
  · intro g
    rw [Table.staticsAt_child]
    exact h.statics g
  · intro g
    rw [Table.staticsAt_child]
    exact h.builtins g
  · intro l name id hid
    exact h.bound l name id ((hlocal l name).symm.trans hid)
  · intro e he hsort g hg
    rw [hlocal, Table.staticsAt_child]
    exact h.apart e he hsort g hg

theorem Kept.newFunction (h : σ.Kept) (name : String) (result : Ty) :
    Kept { σ with functions := σ.functions ++ [Function.new name result] } := by
  refine ⟨h.rooted, ?_, ?_, ?_, h.statics, h.builtins, h.names, h.bound, h.apart⟩
  · intro s i hi
    obtain ⟨hs, hlt⟩ := h.marks s i hi
    exact ⟨hs, by simp; omega⟩
  · intro s
    rw [h.copies s]
    cases hi : σ.marks s with
    | none => rfl
    | some i => exact (List.getElem?_append_left (h.marks s i hi).2).symm
  · intro f hf
    rcases List.mem_append.1 hf with hf | hf
    · exact h.functions f hf
    · obtain rfl := List.mem_singleton.1 hf
      exact ⟨Symbol.Numbered.nil, Symbol.Numbered.nil⟩

theorem Kept.setFunction (h : σ.Kept) {s : Nat} (hs : s < σ.table.size) {f : Option Nat}
    (hf : ∀ i, f = some i → i < σ.functions.length) :
    Kept { σ with
      table := σ.table.setFunction s (f.bind (σ.functions[·]?))
      marks := fun l => if l = s then f else σ.marks l } := by
  refine ⟨h.rooted.congr rfl Table.size_setFunction fun _ => Table.global?_setFunction, ?_, ?_,
    h.functions, ?_, ?_, h.names, h.bound, ?_⟩
  · intro l i hi
    rw [Table.size_setFunction]
    dsimp only at hi
    split at hi
    · next hl => exact ⟨hl ▸ hs, hf i hi⟩
    · exact h.marks l i hi
  · intro l
    dsimp only
    by_cases hl : s = l
    · subst hl
      rw [Table.functionAt?_setFunction_self hs, if_pos rfl]
    · rw [Table.functionAt?_setFunction_ne hl, if_neg (Ne.symm hl)]
      exact h.copies l
  · intro g
    rw [Table.staticsAt_setFunction]
    exact h.statics g
  · intro g
    rw [Table.staticsAt_setFunction]
    exact h.builtins g
  · intro e he hsort g hg
    rw [Table.staticsAt_setFunction]
    exact h.apart e he hsort g hg

/-- Every function marked at a scope is one of the session. -/
theorem Kept.mem_functions (h : σ.Kept) {s : Nat} {f : Function}
    (hf : σ.table.functionAt? s = some f) : f ∈ σ.functions := by
  rw [h.copies s] at hf
  obtain ⟨i, -, hi⟩ := Option.bind_eq_some_iff.1 hf
  exact List.mem_of_getElem? hi

theorem length_stored {s : Nat} {t : Table} : (σ.stored s t).length = σ.functions.length := by
  unfold stored
  split
  · rfl
  · split
    · exact List.length_set
    · rfl

theorem mem_stored {s : Nat} {t : Table} {f : Function} (hf : f ∈ σ.stored s t) :
    f ∈ σ.functions ∨ ∃ l, σ.table.owner? s = some l ∧ t.functionAt? l = some f := by
  unfold stored at hf
  split at hf
  · exact .inl hf
  · next l hl =>
      split at hf
      · next _ h f' _ hf' =>
          rcases List.mem_or_eq_of_mem_set hf with hf | rfl
          · exact .inl hf
          · exact .inr ⟨l, hl, hf'⟩
      · exact .inl hf

/-- The session after a declaration that bound `id` at `l`, whatever else it did to the storage. -/
theorem Kept.declared (h : σ.Kept) {t : Table} {l : Nat} {id : Symbol} {sort : DeclSort}
    {program : Option Nat} {functions : List Function} (names : t.names = σ.table.names)
    (size : t.size = σ.table.size) (global : ∀ s, t.global? s = σ.table.global? s)
    (keyword : isKeyword id.name = false) (length : functions.length = σ.functions.length)
    (numbered : ∀ f ∈ functions, f.Numbered) (statics : ∀ g, Symbol.Numbered (t.staticsAt g))
    (builtins : ∀ g, ∀ id ∈ t.staticsAt g, id.name ∉ Symbol.builtins.map (·.name))
    (old : ∀ e ∈ σ.declared, e.sort = .func → ∀ g, e.program = some g →
      ∀ id ∈ t.staticsAt g, id.name ≠ e.symbol.name)
    (new : sort = .func → ∀ g, program = some g →
      ((t.bindName l id).lookupLocal g id.name).isSome = true ∧
        ∀ id' ∈ t.staticsAt g, id'.name ≠ id.name) :
    Kept ⟨(t.bindName l id).remark fun s => (σ.marks s).bind (functions[·]?), functions, σ.marks,
      σ.declared ++ [⟨sort, program, id⟩]⟩ := by
  have hlocal : ∀ s name, t.lookupLocal s name = σ.table.lookupLocal s name := by
    intro s name
    unfold Table.lookupLocal
    rw [names]
  refine ⟨?_, ?_, ?_, numbered, ?_, ?_, ?_, ?_, ?_⟩
  · exact ((h.rooted.congr names size global).bindName l id).congr rfl Table.size_remark
      fun _ => Table.global?_remark
  · intro s i hi
    obtain ⟨hs, hlt⟩ := h.marks s i hi
    refine ⟨?_, length ▸ hlt⟩
    rw [Table.size_remark]
    exact size ▸ hs
  · intro s
    rcases Nat.lt_or_ge s t.size with hs | hs
    · exact Table.functionAt?_remark hs
    · have hnone : σ.marks s = none := by
        cases hi : σ.marks s with
        | none => rfl
        | some i => exact absurd (h.marks s i hi).1 (by omega)
      dsimp only
      rw [hnone]
      exact Table.functionAt?_eq_none (by rw [Table.size_remark]; exact hs)
  · intro g
    rw [Table.staticsAt_remark]
    exact statics g
  · intro g
    rw [Table.staticsAt_remark]
    exact builtins g
  · intro e he
    rcases List.mem_append.1 he with he | he
    · exact h.names e he
    · obtain rfl := List.mem_singleton.1 he
      exact keyword
  · intro s name id' hid'
    rcases Scope.findLocal?_bind_some hid' with ⟨-, -, rfl⟩ | hold
    · exact .inr ⟨_, List.mem_append_right _ (List.mem_singleton_self _), rfl⟩
    · rcases h.bound s name id' ((hlocal s name).symm.trans hold) with hb | ⟨e, he, hsym⟩
      · exact .inl hb
      · exact .inr ⟨e, List.mem_append_left _ he, hsym⟩
  · intro e he hsort g hg
    rw [Table.staticsAt_remark]
    rcases List.mem_append.1 he with he | he
    · refine ⟨?_, old e he hsort g hg⟩
      refine Scope.findLocal?_bind_isSome ?_
      rw [show t.names.findLocal? g e.symbol.name = _ from hlocal g e.symbol.name]
      exact (h.apart e he hsort g hg).1
    · obtain rfl := List.mem_singleton.1 he
      exact new hsort g hg

/-- Functions stay numbered if the one that changed is. -/
theorem Kept.stored_numbered (h : σ.Kept) {s : Nat} {t : Table}
    (hf : ∀ l f, σ.table.owner? s = some l → t.functionAt? l = some f → f.Numbered) :
    ∀ f ∈ σ.stored s t, f.Numbered := by
  intro f hmem
  rcases mem_stored hmem with hold | ⟨l, hl, hfl⟩
  · exact h.functions f hold
  · exact hf l f hl hfl

/-- A declaration that is stored in the function which `s` belongs to. -/
theorem Kept.storedInFunction (h : σ.Kept) {s l : Nat} {f : Function} {id : Symbol}
    {sort : DeclSort} {program : Option Nat} (hsort : sort ≠ .func)
    (ho : σ.table.owner? s = some l) (hl : l < σ.table.size) (hf : f.Numbered)
    (hname : isKeyword id.name = false) {t : Table}
    (ht : t = (σ.table.setFunction l (some f)).bindName s id) :
    Kept { σ.after s t with declared := σ.declared ++ [⟨sort, program, id⟩] } := by
  subst ht
  refine h.declared rfl Table.size_setFunction (fun _ => Table.global?_setFunction) hname
    length_stored (h.stored_numbered ?_) ?_ ?_ ?_ (fun heq => absurd heq hsort)
  · intro k f' hk hf'
    cases ho.symm.trans hk
    have hself : (σ.table.setFunction l (some f)).functionAt? l = some f' := hf'
    rw [Table.functionAt?_setFunction_self hl] at hself
    cases hself
    exact hf
  · intro g
    rw [Table.staticsAt_setFunction]
    exact h.statics g
  · intro g
    rw [Table.staticsAt_setFunction]
    exact h.builtins g
  · intro e he hfunc g hg
    rw [Table.staticsAt_setFunction]
    exact (h.apart e he hfunc g hg).2

theorem Kept.addLocal (h : σ.Kept) {s : Nat} {f : Function} {id id' : Symbol} {t : Table}
    {program : Option Nat} (hf : σ.table.function? s = some f) (hname : isKeyword id.name = false)
    (hadd : σ.table.addLocal s f id = .ok (t, id')) :
    Kept { σ.after s t with declared := σ.declared ++ [⟨.var, program, id'⟩] } := by
  obtain ⟨l, ho, hl, hfree, -, hid', ht⟩ := Table.addLocal_ok hf hadd
  have hold := h.functions f (h.mem_functions hl)
  have hnumbered : (f.addLocals [id']).Numbered := by
    subst hid'
    exact ⟨hold.params, hold.locals.snoc rfl (Option.or_eq_none_iff.1 hfree).2⟩
  refine h.storedInFunction (by decide) ho (Table.lt_size_of_function hl) hnumbered ?_ ht
  subst hid'
  exact hname

theorem Kept.addParam (h : σ.Kept) {s : Nat} {id id' : Symbol} {t : Table} {program : Option Nat}
    (hadd : σ.table.addParam s id = .ok (t, id')) :
    Kept { σ.after s t with declared := σ.declared ++ [⟨.param, program, id'⟩] } := by
  obtain ⟨l, f, ho, hl, hname, hfree, -, hid', ht⟩ := Table.addParam_ok hadd
  have hold := h.functions f (h.mem_functions hl)
  have hnumbered : (f.addParam id').Numbered := by
    subst hid'
    exact ⟨hold.params.snoc rfl hfree, hold.locals⟩
  refine h.storedInFunction (by decide) ho (Table.lt_size_of_function hl) hnumbered ?_ ht
  subst hid'
  exact hname

theorem Kept.addStatic (h : σ.Kept) {s g : Nat} {id id' : Symbol} {t : Table}
    {program : Option Nat} (hg : σ.table.global? s = some g)
    (hf : σ.table.function? s = none) (hname : isKeyword id.name = false)
    (hadd : σ.table.addStatic s g id = .ok (t, id')) :
    Kept { σ.after s t with declared := σ.declared ++ [⟨.var, program, id'⟩] } := by
  obtain ⟨storage, -, hconflict, -, hid', rfl⟩ := Table.addStatic_ok hadd
  have hgg := h.rooted.global s g hg
  have hlt := Table.lt_size_of_global hgg
  obtain ⟨hunbound, hbuiltin, hfree⟩ := h.rooted.conflict hg hconflict
  have hsame : id'.name = id.name := by rw [hid']
  have hslot : id'.slot = (σ.table.staticsAt g).length := by rw [hid', Table.statics_eq hgg]
  -- elsewhere the static symbols are those from before, here there is one more
  have hcases : ∀ k, (σ.table.pushStatic g id').staticsAt k = σ.table.staticsAt k ∨
      k = g ∧ (σ.table.pushStatic g id').staticsAt k = σ.table.staticsAt k ++ [id'] := by
    intro k
    by_cases hk : g = k
    · subst hk
      exact .inr ⟨rfl, Table.staticsAt_pushStatic_self hlt⟩
    · exact .inl (Table.staticsAt_pushStatic_ne hk)
  refine h.declared rfl Table.size_pushStatic (fun _ => Table.global?_pushStatic) ?_
    length_stored (h.stored_numbered ?_) ?_ ?_ ?_ (fun hsort => (nomatch hsort))
  · rw [hsame]
    exact hname
  · intro l f hl
    rw [Table.owner?_eq_none hf] at hl
    cases hl
  · intro k
    rcases hcases k with heq | ⟨rfl, heq⟩ <;> rw [heq]
    · exact h.statics k
    · exact (h.statics k).snoc hslot (hsame ▸ hfree)
  · intro k x hx
    rcases hcases k with heq | ⟨rfl, heq⟩ <;> rw [heq] at hx
    · exact h.builtins k x hx
    · rcases List.mem_append.1 hx with hx | hx
      · exact h.builtins k x hx
      · obtain rfl := List.mem_singleton.1 hx
        rw [hsame]
        exact hbuiltin
  · intro e he hsort k hk x hx
    obtain ⟨hbound, hold⟩ := h.apart e he hsort k hk
    rcases hcases k with heq | ⟨rfl, heq⟩ <;> rw [heq] at hx
    · exact hold x hx
    · rcases List.mem_append.1 hx with hx | hx
      · exact hold x hx
      · obtain rfl := List.mem_singleton.1 hx
        rw [hsame]
        rintro heq
        rw [← heq, hunbound] at hbound
        cases hbound

theorem Kept.addFunc (h : σ.Kept) {s : Nat} {id id' : Symbol} {t : Table}
    (hadd : σ.table.addFunc s id = .ok (t, id')) :
    Kept { σ.after s t with declared := σ.declared ++ [⟨.func, σ.table.global? s, id'⟩] } := by
  obtain ⟨g, hg, hname, hconflict, -, hid', rfl⟩ := Table.addFunc_ok hadd
  have hlt := Table.lt_size_of_global (h.rooted.global s g hg)
  obtain ⟨-, -, hfree⟩ := h.rooted.conflict hg hconflict
  have hsame : id'.name = id.name := by rw [hid']
  refine h.declared rfl rfl (fun _ => rfl) ?_ length_stored (h.stored_numbered ?_) h.statics
    h.builtins (fun e he hsort k hk => (h.apart e he hsort k hk).2) ?_
  · rw [hsame]
    exact hname
  · intro l f _ hf
    exact h.functions f (h.mem_functions hf)
  · intro _ k hk
    cases hg.symm.trans hk
    refine ⟨?_, ?_⟩
    · show ((σ.table.names.bind g id'.name id').findLocal? g id'.name).isSome = true
      rw [Scope.findLocal?_bind_self (h.rooted.levels ▸ hlt)]
      rfl
    · intro x hx heq
      rw [hsame] at heq
      exact Symbol.find?_eq_none_iff.1 hfree (heq ▸ List.mem_map_of_mem hx)

/-- The function that is stored again is the copy of one that has not changed. -/
theorem Kept.stored_same (h : σ.Kept) (s : Nat) : σ.stored s σ.table = σ.functions := by
  unfold stored
  split
  · rfl
  · next l _ =>
      split
      · next i f hi hf =>
          rw [h.copies l, hi] at hf
          obtain ⟨hlt, rfl⟩ := List.getElem?_eq_some_iff.1 hf
          exact List.set_getElem_self hlt
      · rfl

/-- If the table is as it was, so is the session. -/
theorem Kept.after_same (h : σ.Kept) (s : Nat) : σ.after s σ.table = σ := by
  have hremark : σ.table.remark (fun l => (σ.marks l).bind (σ.functions[·]?)) = σ.table := by
    rw [← funext h.copies]
    exact Table.remark_functionAt? σ.table
  unfold after
  rw [h.stored_same]
  dsimp only
  rw [hremark]

/-- A declaration that fails changes nothing. -/
theorem Kept.perform_failed (h : σ.Kept) {sort : DeclSort} {s : Nat} {id : Symbol} {fault : Fault}
    {t : Table} (hrun : (Table.Change.add sort s id).run σ.table = .error fault t) :
    σ.perform (.add sort s id) = σ := by
  rw [Session.perform, hrun, Table.Change.atomic_add σ.table t fault hrun]
  exact h.after_same s

/-- Every request keeps the invariant. -/
theorem Kept.perform (h : σ.Kept) (request : Request) : (σ.perform request).Kept := by
  cases request with
  | child s =>
      rw [Session.perform]
      split
      · next hs => exact h.child hs
      · exact h
  | newFunction name result => exact h.newFunction name result
  | setFunction s f =>
      rw [Session.perform]
      split
      · next hs =>
          refine h.setFunction hs fun i hi => ?_
          simpa using (Option.filter_eq_some_iff.1 hi).2
      · exact h
  | add sort s id =>
      cases hrun : (Table.Change.add sort s id).run σ.table with
      | error fault t =>
          rw [h.perform_failed hrun]
          exact h
      | ok id' t =>
          have hadd := Table.Change.run_add_eq_ok_iff.1 hrun
          rw [Session.perform, hrun]
          cases sort with
          | var =>
              obtain ⟨g, hg, hname, ⟨f, hf, hlocal⟩ | ⟨hf, hstatic⟩⟩ := Table.addVar_ok hadd
              · exact h.addLocal hf hname hlocal
              · exact h.addStatic hg hf hname hstatic
          | param => exact h.addParam hadd
          | func => exact h.addFunc hadd

end

/-- Every session keeps the invariant. -/
theorem kept_run (requests : List Request) : (run requests).Kept := by
  have hfrom : ∀ σ : Session, σ.Kept → (requests.foldl perform σ).Kept := by
    induction requests with
    | nil =>
        intro σ h
        exact h
    | cons request rest ih =>
        intro σ h
        exact ih _ (h.perform request)
  exact hfrom initial Kept.initial

/-- What holds of a table after any use. -/
structure Orderly (σ : Session) : Prop where
  /-- In each program the static symbols are numbered, and apart from the builtin functions and
  from the functions declared in that program. -/
  statics : ∀ s g, σ.table.global? s = some g →
    Symbol.Numbered (σ.table.statics s) ∧
      ∀ id ∈ σ.table.statics s, id.name ∉ Symbol.builtins.map (·.name) ∧
        ∀ e ∈ σ.declared, e.sort = .func → e.program = some g → e.symbol.name ≠ id.name
  /-- Each function has its parameters numbered and its locals. -/
  functions : ∀ f ∈ σ.functions, f.Numbered
  /-- There are no other functions. -/
  owners : ∀ s f, σ.table.function? s = some f → f ∈ σ.functions
  /-- No declared name is a keyword. -/
  names : ∀ e ∈ σ.declared, isKeyword e.symbol.name = false
  /-- Nothing but declarations and the builtin functions is bound to a name. -/
  bound : ∀ s name id, σ.table.lookupLocal s name = some id →
    id ∈ Symbol.builtins ∨ ∃ e ∈ σ.declared, e.symbol = id

theorem Kept.orderly {σ : Session} (h : σ.Kept) : σ.Orderly := by
  refine ⟨fun s g hg => ?_, h.functions, fun s f hf => ?_, h.names, h.bound⟩
  · rw [Table.statics_eq hg]
    refine ⟨h.statics g, fun id hid => ⟨h.builtins g id hid, fun e he hsort hprogram => ?_⟩⟩
    exact Ne.symm ((h.apart e he hsort g hprogram).2 id hid)
  · obtain ⟨l, -, hl⟩ := Table.owner?_of_function? hf
    exact h.mem_functions hl

/-- A table is orderly after any requests, and a declaration that fails leaves the table, its
functions and all else as they were. -/
theorem run_orderly (requests : List Request) :
    (run requests).Orderly ∧
      ∀ sort s id fault, (run requests).table.add sort s id = .error fault →
        run (requests ++ [.add sort s id]) = run requests := by
  refine ⟨(kept_run requests).orderly, ?_⟩
  intro sort s id fault hfails
  obtain ⟨t, hrun⟩ := Table.Change.run_add_eq_error_iff.2 hfails
  rw [run, List.foldl_append]
  exact (kept_run requests).perform_failed hrun

/-- A function marked at the root takes a parameter there, and from then on no variable of that name
can be declared in any program. -/
theorem run_orderly_root_function :
    let requests : List Request :=
      [.child 0, .newFunction "f" (.base .void), .setFunction 0 (some 0),
        .add .param 0 (.fresh "x" (.base .int) none)]
    (run requests).Orderly ∧
      run (requests ++ [.add .var 1 (.fresh "x" (.base .char) none)]) = run requests :=
  ⟨(run_orderly _).1, (run_orderly _).2 .var 1 (.fresh "x" (.base .char) none) _ rfl⟩

end Session

end SmallC
