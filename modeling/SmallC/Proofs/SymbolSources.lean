import SmallC.Proofs.DeclaredNames
import SmallC.Proofs.TableGrowth

/-!
# Where symbols come from

A symbol remembers where it was declared. Whoever finds it in the symbol table,
be it as the meaning of a name, in the description of a function, or among the
static symbols of a program, can rely on that: one of the names of the program
stands there, and it is the name of the symbol. Only the builtins were not
declared anywhere.

The names are a list that stays the same while a tree is checked. It only has to
have the names that the tree declares, so their order does not matter here.
-/

namespace SmallC

/-- The symbol that a name declares. -/
structure Symbol.DeclaredBy (sym : Symbol) (id : Ident) : Prop where
  name : sym.name = id.name
  decl : sym.decl = some id.pos

/-- The symbol of a builtin, or one that one of these names declares. -/
inductive Symbol.Sourced (known : List Ident) (sym : Symbol) : Prop
  | builtin (name : sym.name ∈ Symbol.builtins.map (·.name)) (decl : sym.decl = none)
  | declared (id : Ident) (mem : id ∈ known) (here : sym.DeclaredBy id)

/-- All symbols that a table holds come from these names. -/
structure Table.Sourced (t : Table) (known : List Ident) : Prop where
  bound : ∀ s name sym, t.names.findLocal? s name = some sym →
    sym.name = name ∧ sym.Sourced known
  functions : ∀ s f, t.functionAt? s = some f → ∀ sym ∈ f.params ++ f.locals, sym.Sourced known
  statics : ∀ s, ∀ sym ∈ t.staticsAt s, sym.Sourced known

variable {known more : List Ident}

namespace Symbol

variable {sym : Symbol}

theorem Sourced.mono (h : sym.Sourced known) (hsub : known ⊆ more) : sym.Sourced more := by
  cases h with
  | builtin name decl => exact .builtin name decl
  | declared id mem here => exact .declared id (hsub mem) here

/-- A symbol keeps its origin when it is given storage. -/
theorem DeclaredBy.store {id : Ident} (h : sym.DeclaredBy id) (storage : Storage) (slot : Int) :
    Symbol.DeclaredBy { sym with storage := storage, slot := slot } id :=
  ⟨h.name, h.decl⟩

theorem Sourced.store (h : sym.Sourced known) (storage : Storage) (slot : Int) :
    Symbol.Sourced known { sym with storage := storage, slot := slot } := by
  cases h with
  | builtin name decl => exact .builtin name decl
  | declared id mem here => exact .declared id mem (here.store storage slot)

end Symbol

/-! ## Operations on a table -/

namespace Table

variable {t t' : Table} {s : Nat} {sym sym' : Symbol}

theorem Sourced.mono (h : t.Sourced known) (hsub : known ⊆ more) : t.Sourced more :=
  ⟨fun s name sym hsym => (h.bound s name sym hsym).imp_right fun hs => hs.mono hsub,
    fun s f hf sym hsym => (h.functions s f hf sym hsym).mono hsub,
    fun s sym hsym => (h.statics s sym hsym).mono hsub⟩

theorem Sourced.initial : Table.initial.Sourced known := by
  refine ⟨fun s name sym h => ?_, fun s f hf => ?_, fun s sym hsym => ?_⟩
  · rcases foldl_bind_some h with ⟨hmem, hname⟩ | h
    · have hdecl : ∀ sym ∈ Symbol.builtins, sym.decl = none := by decide
      exact ⟨hname, .builtin (List.mem_map_of_mem hmem) (hdecl sym hmem)⟩
    · rcases s with _ | s <;> cases h
  · rcases s with _ | s
    · cases hf
    · rw [functionAt?_eq_none (Nat.le_add_left 1 s)] at hf
      cases hf
  · rcases s with _ | s
    · cases hsym
    · rw [staticsAt_eq_nil (Nat.le_add_left 1 s)] at hsym
      cases hsym

theorem Sourced.child (h : t.Sourced known) : (t.child s).1.Sourced known := by
  refine ⟨fun l name sym hsym => ?_, fun l f hf => ?_, fun l sym hsym => ?_⟩
  · exact h.bound l name sym (Scope.findLocal?_child.symm.trans hsym)
  · rw [functionAt?_child] at hf
    exact h.functions l f hf
  · rw [staticsAt_child] at hsym
    exact h.statics l sym hsym

theorem Sourced.setFunction (h : t.Sourced known) {f : Function}
    (hf : ∀ sym ∈ f.params ++ f.locals, sym.Sourced known) :
    (t.setFunction s (some f)).Sourced known := by
  refine ⟨h.bound, fun l f' hf' => ?_, fun l sym hsym => ?_⟩
  · by_cases hsl : s = l
    · subst hsl
      have hs := lt_size_of_function hf'
      rw [size_setFunction] at hs
      rw [functionAt?_setFunction_self hs] at hf'
      cases hf'
      exact hf
    · rw [functionAt?_setFunction_ne hsl] at hf'
      exact h.functions l f' hf'
  · rw [staticsAt_setFunction] at hsym
    exact h.statics l sym hsym

/-- The scope of a function is opened before the function has any symbols. -/
theorem Sourced.openFunction (h : t.Sourced known) (name : String) (result : Ty) :
    ((t.child s).1.setFunction (t.child s).2 (some (Function.new name result))).Sourced known :=
  h.child.setFunction fun _ hsym => absurd hsym List.not_mem_nil

theorem Sourced.pushStatic (h : t.Sourced known) (hsym : sym.Sourced known) :
    (t.pushStatic s sym).Sourced known := by
  refine ⟨h.bound, fun l f hf => ?_, fun l sym' hsym' => ?_⟩
  · rw [functionAt?_pushStatic] at hf
    exact h.functions l f hf
  · by_cases hsl : s = l
    · subst hsl
      rcases Nat.lt_or_ge s t.size with hs | hs
      · rw [staticsAt_pushStatic_self hs, List.mem_append, List.mem_singleton] at hsym'
        rcases hsym' with hold | rfl
        · exact h.statics s sym' hold
        · exact hsym
      · rw [staticsAt_eq_nil (Nat.le_trans (Nat.le_of_eq size_pushStatic) hs)] at hsym'
        cases hsym'
    · rw [staticsAt_pushStatic_ne hsl] at hsym'
      exact h.statics l sym' hsym'

theorem Sourced.bindName (h : t.Sourced known) (hsym : sym.Sourced known) :
    (t.bindName s sym).Sourced known := by
  refine ⟨fun l name sym' hsym' => ?_, h.functions, h.statics⟩
  rcases Scope.findLocal?_bind_some hsym' with ⟨-, hname, rfl⟩ | hold
  · exact ⟨hname.symm, hsym⟩
  · exact h.bound l name sym' hold

theorem Sourced.lookup (h : t.Sourced known) {name : String} (hsym : t.lookup s name = some sym) :
    sym.name = name ∧ sym.Sourced known := by
  obtain ⟨l, -, hfound⟩ := Scope.find?_some hsym
  exact h.bound l name sym hfound

theorem Sourced.function? (h : t.Sourced known) {f : Function} (hf : t.function? s = some f) :
    ∀ sym ∈ f.params ++ f.locals, sym.Sourced known := by
  obtain ⟨l, -, hl⟩ := owner?_of_function? hf
  exact h.functions l f hl

/-- What a new name of a program can clash with comes from the names, too. -/
theorem Sourced.globalConflict (h : t.Sourced known) {g : Nat} {name : String}
    (hsym : t.globalConflict g name = some sym) : sym.name = name ∧ sym.Sourced known := by
  rcases Option.or_eq_some_iff.1 hsym with hlookup | ⟨-, hstatic⟩
  · exact h.lookup hlookup
  · obtain ⟨hmem, hname⟩ := Symbol.find?_some hstatic
    cases hg : t.global? g with
    | none => rw [statics_eq_nil hg] at hmem; cases hmem
    | some g' => exact ⟨hname, h.statics g' sym (statics_eq hg ▸ hmem)⟩

/-! ### Declarations -/

theorem Sourced.addVar (h : t.Sourced known) (hsym : sym.Sourced known)
    (hadd : t.addVar s sym = .ok (t', sym')) : t'.Sourced known := by
  obtain ⟨g, -, -, ⟨f, hf, hadd⟩ | ⟨-, hadd⟩⟩ := addVar_ok hadd
  · obtain ⟨l, -, hl, -, -, rfl, rfl⟩ := addLocal_ok hf hadd
    have hstored := hsym.store .automatic f.locals.length
    refine (h.setFunction fun sym' hsym' => ?_).bindName hstored
    rw [Function.addLocals, ← List.append_assoc, List.mem_append, List.mem_singleton] at hsym'
    rcases hsym' with hold | rfl
    · exact h.functions l f hl sym' hold
    · exact hstored
  · obtain ⟨storage, -, -, -, rfl, rfl⟩ := addStatic_ok hadd
    have hstored := hsym.store storage (t.statics g).length
    exact (h.pushStatic hstored).bindName hstored

theorem Sourced.addParam (h : t.Sourced known) (hsym : sym.Sourced known)
    (hadd : t.addParam s sym = .ok (t', sym')) : t'.Sourced known := by
  obtain ⟨l, f, -, hl, -, -, -, rfl, rfl⟩ := addParam_ok hadd
  have hstored := hsym.store .param f.params.length
  refine (h.setFunction fun sym' hsym' => ?_).bindName hstored
  rw [Function.addParam, List.append_assoc, List.mem_append, List.mem_append,
    List.mem_singleton] at hsym'
  rcases hsym' with hparam | rfl | hlocal
  · exact h.functions l f hl sym' (List.mem_append_left _ hparam)
  · exact hstored
  · exact h.functions l f hl sym' (List.mem_append_right _ hlocal)

theorem Sourced.addFunc (h : t.Sourced known) (hsym : sym.Sourced known)
    (hadd : t.addFunc s sym = .ok (t', sym')) : t'.Sourced known := by
  obtain ⟨g, -, -, -, -, rfl, rfl⟩ := addFunc_ok hadd
  exact h.bindName (hsym.store _ _)

end Table

/-! ## Checking -/

section

variable {t t' : Table} {s : Nat}

theorem declare_sourced {id id' : Ident} {type : Ty} {size : Option Pos} (h : t.Sourced known)
    (hid : id ∈ known) (hd : declare t s id type size = .ok (t', id')) : t'.Sourced known := by
  obtain ⟨sym, hadd, -⟩ := declare_ok hd
  exact h.addVar (.declared id hid ⟨rfl, rfl⟩) hadd

theorem checkVar_sourced {type : Ty} {n n' : Node} (h : t.Sourced known) (hn : n.binders ⊆ known)
    (hc : checkVar t s type n = .ok (t', n')) : t'.Sourced known := by
  obtain ⟨id, id', rfl, hd, -⟩ | ⟨pos, id, value, noted, id', assign, rfl, hd, -, -⟩ :=
    checkVar_ok hc
  · exact declare_sourced h (hn (List.mem_singleton_self id)) hd
  · exact declare_sourced h (hn (List.mem_singleton_self id)) hd

theorem checkVars_sourced {type : Ty} : ∀ {ns ns' : List Node} {t : Table}, t.Sourced known →
    ns.flatMap Node.binders ⊆ known → checkVars t s type ns = .ok (t', ns') → t'.Sourced known
  | [], _, _, h, _, hc => by
      cases hc
      exact h
  | n :: rest, _, _, h, hns, hc => by
      rw [List.flatMap_cons, List.append_subset] at hns
      obtain ⟨t₁, n', rest', hn, hrest, -⟩ := checkVars_cons_ok hc
      exact checkVars_sourced (checkVar_sourced h hns.1 hn) hns.2 hrest

theorem checkParam_sourced {p p' : Option Param} (h : t.Sourced known)
    (hp : Param.binders p ⊆ known) (hc : checkParam t s p = .ok (t', p')) : t'.Sourced known := by
  obtain ⟨q, kind, id, sym, rfl, -, hname, hadd, -⟩ := checkParam_ok hc
  have hid : id ∈ known := by
    refine hp ?_
    rw [Param.binders, Option.toList_some, List.flatMap_singleton, hname]
    exact List.mem_singleton_self id
  exact h.addParam (.declared id hid ⟨rfl, rfl⟩) hadd

theorem checkParams_sourced : ∀ {ps ps' : List (Option Param)} {t : Table}, t.Sourced known →
    ps.flatMap Param.binders ⊆ known → checkParams t s ps = .ok (t', ps') → t'.Sourced known
  | [], _, _, h, _, hc => by
      cases hc
      exact h
  | p :: rest, _, _, h, hps, hc => by
      rw [List.flatMap_cons, List.append_subset] at hps
      obtain ⟨t₁, p', rest', hp, hrest, -⟩ := checkParams_cons_ok hc
      exact checkParams_sourced (checkParam_sourced h hps.1 hp) hps.2 hrest

theorem checkFuncHead_sourced {result name : Option Ident} {isArray : Bool}
    {params : Option Params} {head : FuncHead} (h : t.Sourced known)
    (hname : name.toList ⊆ known) (hparams : Params.binders params ⊆ known)
    (hc : checkFuncHead t s result isArray name params = .ok (t', head)) : t'.Sourced known := by
  obtain ⟨id, kind, t₁, list, f, t₂, sym, rfl, -, -, hlist, hf, hadd, rfl, -⟩ :=
    checkFuncHead_ok hc
  have hid : id ∈ known := hname (List.mem_singleton_self id)
  have ht₁ := checkParams_sourced (h.openFunction id.name (Ty.ofKind kind isArray)) hparams hlist
  have hf : ∀ sym ∈ f.params ++ f.locals, sym.Sourced known := by
    cases hat : t₁.functionAt? (t.child s).2 with
    | none =>
        rw [hat] at hf
        subst hf
        exact fun _ hsym => absurd hsym List.not_mem_nil
    | some f' =>
        rw [hat] at hf
        exact hf ▸ ht₁.functions _ f' hat
  exact (ht₁.addFunc (.declared id hid ⟨rfl, rfl⟩) hadd).setFunction hf

mutual

/-- Whatever a statement adds to a table comes from the names that it declares. -/
theorem Stmt.check_sourced : ∀ {stmt stmt' : Stmt} {t t' : Table} {s : Nat}, t.Sourced known →
    stmt.binders ⊆ known → stmt.check t s = .ok (t', stmt') → t'.Sourced known
  | .missing, _, _, _, _, _, _, hc => by simp [Stmt.check] at hc
  | .call _ _ _ _, _, _, _, _, h, _, hc => by
      obtain ⟨_, _, _, _, _, rfl, -⟩ := Stmt.check_call_ok hc
      exact h
  | .assign _ _ _ _, _, _, _, _, h, _, hc => (Stmt.check_assign_ok hc).1 ▸ h
  | .varDecl _ _ _, _, _, _, _, h, hsub, hc => by
      obtain ⟨_, _, -, hvars, -⟩ := Stmt.check_varDecl_ok hc
      exact checkVars_sourced h hsub hvars
  | .arrayDecl _ _ _ _, _, _, _, _, h, hsub, hc => by
      obtain ⟨_, _, _, _, id, _, -, -, -, rfl, hd, -⟩ := Stmt.check_arrayDecl_ok hc
      exact declare_sourced h (hsub (List.mem_singleton_self id)) hd
  | .ifElse _ _ _ _, _, _, _, _, h, hsub, hc => by
      rw [Stmt.binders, List.append_subset] at hsub
      obtain ⟨_, _, _, _, -, hyes, hno, -⟩ := Stmt.check_ifElse_ok hc
      have hfirst := Block.check_sourced h.child hsub.1 hyes
      exact Block.check_sourced hfirst.child hsub.2 hno
  | .whileLoop _ _ _, _, _, _, _, h, hsub, hc => by
      obtain ⟨_, _, -, hbody, -⟩ := Stmt.check_whileLoop_ok hc
      exact Block.check_sourced h.child hsub hbody
  | .forLoop _ init _ _ step _, _, t, _, s, h, hsub, hc => by
      rw [Stmt.binders, List.append_subset, List.append_subset] at hsub
      obtain ⟨⟨hinit, hstep⟩, hbody⟩ := hsub
      obtain ⟨t₁, _, _, _, t₂, _, _, hi, -, hs, hb, -⟩ := Stmt.check_forLoop_ok hc
      have hfirst : t₁.Sourced known := by
        rcases Stmt.checkPart_ok hi with ⟨-, rfl, -⟩ | ⟨-, hi⟩
        · exact h.child
        · exact Stmt.check_sourced h.child hinit hi
      have hsecond : t₂.Sourced known := by
        rcases Stmt.checkPart_ok hs with ⟨-, rfl, -⟩ | ⟨-, hs⟩
        · exact hfirst
        · exact Stmt.check_sourced hfirst hstep hs
      exact Block.check_sourced hsecond.child hbody hb
  | .block _, _, _, _, _, h, hsub, hc => by
      obtain ⟨_, hb, -⟩ := Stmt.check_block_ok hc
      exact Block.check_sourced h.child hsub hb
  | .funcDecl _ _ _ _ _ _ _, _, _, _, _, h, hsub, hc => by
      rw [Stmt.binders, List.append_subset, List.append_subset] at hsub
      obtain ⟨⟨hname, hparams⟩, hbody⟩ := hsub
      obtain ⟨_, _, _, hhead, hb, -⟩ := Stmt.check_funcDecl_ok hc
      exact Block.check_sourced (checkFuncHead_sourced h hname hparams hhead).child hbody hb
  | .ret _ _, _, _, _, _, h, _, hc => (Stmt.check_ret_ok hc).1 ▸ h

theorem Block.check_sourced : ∀ {b b' : Block} {t t' : Table} {s : Nat}, t.Sourced known →
    b.binders ⊆ known → b.check t s = .ok (t', b') → t'.Sourced known
  | .missing, _, _, _, _, h, _, hc => by
      cases hc
      exact h
  | .of _ _, _, _, _, _, h, hsub, hc => by
      obtain ⟨_, hs, -⟩ := Block.check_of_ok hc
      exact Stmt.checkAll_sourced h hsub hs

theorem Stmt.checkAll_sourced : ∀ {stmts stmts' : List Stmt} {t t' : Table} {s : Nat},
    t.Sourced known → Stmt.bindersIn stmts ⊆ known → Stmt.checkAll t s stmts = .ok (t', stmts') →
      t'.Sourced known
  | [], _, _, _, _, h, _, hc => by
      cases hc
      exact h
  | _ :: _, _, _, _, _, h, hsub, hc => by
      rw [Stmt.bindersIn, List.append_subset] at hsub
      obtain ⟨_, _, _, hs, hrest, -⟩ := Stmt.checkAll_cons_ok hc
      exact Stmt.checkAll_sourced (Stmt.check_sourced h hsub.1 hs) hsub.2 hrest

end

end

end SmallC
