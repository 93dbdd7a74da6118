import SmallC.Proofs.CallArguments
import SmallC.Proofs.CheckFaults
import SmallC.Proofs.SymbolSources
import SmallC.Proofs.TableViews

/-!
# Where faults are located

A fault of a program is reported at a place, and a name declared twice together
with the place of its first declaration. The first place is taken from whatever
node is at hand where the fault is found, the second from the symbol table. Both
are places of the tree that was checked.

For the first one it is a matter of going through all faults. For the second one
it is known of every symbol in the table that it comes from one of the names that
the check has come past. The names in question are taken in the order of a walk,
which is the order of the check as well, apart from the head of a function: its
parameters are checked before its name. They are declared inside of it, and what
the name clashes with is outside, so a parameter is never the earlier declaration
of the name.
-/

namespace SmallC

/-! ## What a fault says -/

/-- The redeclared name that a cause mentions, with the place of the previous declaration. -/
def Cause.previous : Cause → List (String × Pos)
  | .redeclared name (some pos) => [(name, pos)]
  | _ => []

mutual

/-- The redeclared names that a fault mentions, with the places of their previous declarations. -/
def Fault.previous : Fault → List (String × Pos)
  | .kind _ => []
  | .plain cause | .traced cause => cause.previous
  | .within _ inner | .internal _ inner | .located _ _ inner => Fault.previousAll inner

/-- The redeclared names that several faults mention. -/
def Fault.previousAll : List Fault → List (String × Pos)
  | [] => []
  | f :: rest => f.previous ++ Fault.previousAll rest

end

/-- A fault of a program is at one of the places. If a name is declared twice, the fault is where it
is declared for the second time, and says where the first time was; a name of a builtin was not
declared anywhere before. -/
inductive Fault.Sited (P : List Pos) (I : List Ident) : Fault → Prop
  | rule {k : Kind} {pos : Pos} {inner : List Fault} (hpos : pos ∈ P)
      (hk : k ≠ .duplicateIdentifier) (h : Fault.previousAll inner = []) :
      Sited P I (.located k pos inner)
  | again {earlier later : Ident} (h : [earlier, later].Sublist I)
      (name : earlier.name = later.name) :
      Sited P I (.broken .duplicateIdentifier later.pos
        (.redeclared later.name (if earlier.pos.isValid then some earlier.pos else none)))
  | builtin {id : Ident} (h : id ∈ I) (name : id.name ∈ Symbol.builtins.map (·.name)) :
      Sited P I (.broken .duplicateIdentifier id.pos (.redeclared id.name none))
  /-- A fault of the compiler is not placed by these rules. -/
  | internal (pos : Pos) (inner : List Fault) : Sited P I (.internal pos inner)

section

variable {P : List Pos} {I : List Ident} {α : Type}

theorem FailsOnly.located {k : Kind} {pos : Pos} {inner : List Fault} (hpos : pos ∈ P)
    (hk : k ≠ .duplicateIdentifier) (h : Fault.previousAll inner = []) :
    FailsOnly (Fault.Sited P I) (.error (.located k pos inner) : Except Fault α) :=
  .error (.rule hpos hk h)

theorem FailsOnly.internal (pos : Pos) (inner : List Fault) :
    FailsOnly (Fault.Sited P I) (.error (.internal pos inner) : Except Fault α) :=
  .error (.internal pos inner)

/-! ## Expressions -/

open Outline

theorem Ident.present_sited (name : Option Ident) :
    FailsOnly (Fault.Sited P I) (Ident.present name) := by
  cases name with
  | none => exact .internal _ _
  | some id => exact .ok id

/-- A name that is there is a node. -/
theorem Ident.present_pos {name : Option Ident} {id : Ident} (h : Ident.present name = .ok id)
    (hP : places (ofIdent name) ⊆ P) : id.pos ∈ P := by
  rw [Ident.present_ok h] at hP
  exact hP List.mem_cons_self

/-- An expression that passes the check is a node. -/
theorem Expr.pos_mem_places {t : Table} {s : Nat} {e e' : Expr} {ty : Ty}
    (h : e.check t s = .ok (ty, e')) (hP : places (ofExpr e) ⊆ P) : e'.pos ∈ P := by
  rw [(Expr.check_keeps h).1]
  refine hP ?_
  cases e with
  | missing => simp [Expr.check] at h
  | literal _ _ _ _ | ident _ | unary _ _ _ _ | binary _ _ _ _ _ | index _ _ _ _ | call _ _ _ _
  | convert _ _ _ =>
      rw [ofExpr]
      exact List.mem_cons_self

theorem Expr.coerceFor_sited (context : String) {e : Expr} (src dst : Ty) (hpos : e.pos ∈ P) :
    FailsOnly (Fault.Sited P I) (e.coerceFor context src dst) := by
  unfold Expr.coerceFor
  rw [Expr.coerce_eq]
  split
  · exact .ok _
  · exact .located hpos (by decide) rfl

theorem coerceOperand_sited {e : Expr} (src : Ty) (dst : Option Base) (hpos : e.pos ∈ P) :
    FailsOnly (Fault.Sited P I) (coerceOperand e src dst) := by
  cases dst with
  | none => exact .ok e
  | some dst =>
      rw [coerceOperand, Expr.coerce_eq]
      split
      · exact .ok _
      · exact .located hpos (by decide) rfl

/-- A literal that cannot be decoded redeclares nothing. -/
theorem Literal.decode_previous {text : String} {cause : Cause}
    (h : Literal.decode text = .error cause) : cause.previous = [] := by
  rcases Literal.decode_error h with rfl | rfl | rfl | rfl | rfl <;> rfl

section

variable (t : Table) (s : Nat)

theorem Ident.resolve_pos {id id' : Ident} {ty : Ty} (h : id.resolve t s = .ok (ty, id')) :
    id'.pos = id.pos := by
  obtain ⟨sym, -, -, rfl⟩ := Ident.resolve_ok h
  rfl

theorem Ident.resolve_sited {id : Ident} (hpos : id.pos ∈ P) :
    FailsOnly (Fault.Sited P I) (id.resolve t s) := by
  unfold Ident.resolve
  split
  · exact .ok _
  · exact .located hpos (by decide) rfl

theorem checkArray_sited {array : Option Ident} (hP : places (ofIdent array) ⊆ P) :
    FailsOnly (Fault.Sited P I) (checkArray t s array) := by
  refine (Ident.present_sited array).bind fun id hid => ?_
  have hpos : id.pos ∈ P := Ident.present_pos hid hP
  refine (Ident.resolve_sited t s hpos).bind fun out hout => ?_
  dsimp only
  split
  · exact .ok _
  · refine .located ?_ (by decide) rfl
    rw [Ident.resolve_pos t s hout]
    exact hpos

theorem checkUnary_sited {pos : Pos} (op : Op) (x : Expr) (type : Ty) (hpos : pos ∈ P) :
    FailsOnly (Fault.Sited P I) (checkUnary pos op x type) := by
  unfold checkUnary
  split
  · exact .ok _
  · split
    · exact .ok _
    · exact .located hpos (by decide) rfl

theorem checkBinary_sited {pos : Pos} (op : Op) {x y : Expr} (xType yType : Ty) (hpos : pos ∈ P)
    (hx : x.pos ∈ P) (hy : y.pos ∈ P) :
    FailsOnly (Fault.Sited P I) (checkBinary pos op x y xType yType) := by
  unfold checkBinary
  split
  · exact .located hpos (by decide) rfl
  · exact (coerceOperand_sited _ _ hx).bind fun _ _ => (coerceOperand_sited _ _ hy).bind
      fun _ _ => .ok _

/-- Arguments that do not fit redeclare nothing. -/
theorem Expr.checkArgs_previous {name : String} {args : List Expr} :
    ∀ {i : Nat} {params : List Ty} {xs : List Expr} {fs : List Fault},
      Expr.checkArgs t s name i params args = .ok (xs, fs) → Fault.previousAll fs = [] := by
  induction args with
  | nil =>
      intro i params xs fs h
      cases params <;> cases h <;> rfl
  | cons e rest ih =>
      intro i params xs fs h
      cases params with
      | nil =>
          cases h
          rfl
      | cons p params =>
          rw [Expr.checkArgs] at h
          simp only [Except.bind_eq_ok_iff, Expr.coerce_eq] at h
          obtain ⟨⟨type, e'⟩, -, ⟨more, fs'⟩, hmore, h⟩ := h
          have hrest := ih hmore
          cases h
          dsimp only
          cases type.assignable p
          · exact hrest
          · exact hrest

theorem checkCall_sited {pos : Pos} {func : Option Ident} (count : Nat)
    {args : String → List Ty → Except Fault (List Expr × List Fault)} (hpos : pos ∈ P)
    (hP : places (ofIdent func) ⊆ P)
    (hargs : ∀ name params, FailsOnly (Fault.Sited P I) (args name params))
    (hmismatches : ∀ name params xs fs, args name params = .ok (xs, fs) →
      Fault.previousAll fs = []) :
    FailsOnly (Fault.Sited P I) (checkCall t s pos func count args) := by
  refine (Ident.present_sited func).bind fun id hid => ?_
  have hname : id.pos ∈ P := Ident.present_pos hid hP
  refine (Ident.resolve_sited t s hname).bind fun out hout => ?_
  dsimp only
  split
  · split
    · exact .located hpos (by decide) rfl
    · refine (hargs _ _).bind fun xs hxs => ?_
      have hinner := hmismatches _ _ _ _ hxs
      split
      · next fault hfault =>
          unfold Fault.aggregate? at hfault
          split at hfault <;> cases hfault
          exact .located hpos (by decide) hinner
      · exact .ok _
  · refine .located ?_ (by decide) rfl
    rw [Ident.resolve_pos t s hout]
    exact hname

mutual

/-- Whatever is wrong with an expression is reported at one of its nodes. -/
theorem Expr.check_sited : ∀ {e : Expr}, places (ofExpr e) ⊆ P →
    FailsOnly (Fault.Sited P I) (e.check t s)
  | .missing, _ => by
      simp only [Expr.check]
      exact .internal _ _
  | .convert _ _ _, _ => by
      simp only [Expr.check]
      exact .internal _ _
  | .literal pos text _ _, hP => by
      rw [Expr.check]
      split
      · exact .ok _
      · next cause hcause =>
          refine .located (hP List.mem_cons_self) (by decide) ?_
          exact (List.append_nil _).trans (Literal.decode_previous hcause)
  | .ident id, hP => by
      rw [Expr.check]
      exact (Ident.resolve_sited t s (hP List.mem_cons_self)).bind fun _ _ => .ok _
  | .unary pos op x _, hP => by
      rw [ofExpr, places_node, List.cons_subset] at hP
      obtain ⟨hpos, hx⟩ := hP
      rw [Expr.check]
      exact (Expr.check_sited hx).bind fun _ _ => checkUnary_sited _ _ _ hpos
  | .binary pos op x y _, hP => by
      rw [ofExpr, places_node, places_append, List.cons_subset, List.append_subset] at hP
      obtain ⟨hpos, hx, hy⟩ := hP
      rw [Expr.check]
      exact (Expr.check_sited hx).bind fun _ hout => (Expr.check_sited hy).bind fun _ hout' =>
        checkBinary_sited _ _ _ hpos (Expr.pos_mem_places hout hx) (Expr.pos_mem_places hout' hy)
  | .index pos array i _, hP => by
      rw [ofExpr, places_node, places_append, List.cons_subset, List.append_subset] at hP
      obtain ⟨-, harray, hi⟩ := hP
      rw [Expr.check]
      exact (checkArray_sited t s harray).bind fun _ _ => (Expr.check_sited hi).bind fun _ hout =>
        (Expr.coerceFor_sited _ _ _ (Expr.pos_mem_places hout hi)).bind fun _ _ => .ok _
  | .call pos func args _, hP => by
      rw [ofExpr, places_node, places_append, List.cons_subset, List.append_subset] at hP
      obtain ⟨hpos, hfunc, hargs⟩ := hP
      rw [Expr.check]
      refine (checkCall_sited t s _ hpos hfunc (fun name params => ?_) fun _ _ _ _ => ?_).bind
        fun _ _ => .ok _
      · exact Expr.checkArgs_sited hargs name 1 params
      · exact Expr.checkArgs_previous t s

theorem Expr.checkArgs_sited : ∀ {args : List Expr}, places (ofExprs args) ⊆ P →
    ∀ (name : String) (i : Nat) (params : List Ty),
      FailsOnly (Fault.Sited P I) (Expr.checkArgs t s name i params args)
  | [], _, _, _, [] => .ok _
  | [], _, _, _, _ :: _ => .ok _
  | _ :: _, _, _, _, [] => .ok _
  | e :: rest, hP, name, i, p :: params => by
      rw [ofExprs, places_append, List.append_subset] at hP
      rw [Expr.checkArgs]
      exact (Expr.check_sited hP.1).bind fun _ _ =>
        (Expr.checkArgs_sited hP.2 name (i + 1) params).bind fun _ _ => .ok _

end

theorem Expr.checkCond_sited {e : Expr} (hP : places (ofExpr e) ⊆ P) :
    FailsOnly (Fault.Sited P I) (e.checkCond t s) :=
  (Expr.check_sited t s hP).bind fun _ hout =>
    Expr.coerceFor_sited _ _ _ (Expr.pos_mem_places hout hP)

end

/-! ## Declarations -/

theorem checkTypeName_sited {name : Option Ident} (allowVoid : Bool)
    (hP : places (ofIdent name) ⊆ P) :
    FailsOnly (Fault.Sited P I) (checkTypeName name allowVoid) := by
  refine (Ident.present_sited name).bind fun id hid => ?_
  have hpos : id.pos ∈ P := Ident.present_pos hid hP
  split
  · split
    · exact .located hpos (by decide) rfl
    · exact .ok _
  · exact .located hpos (by decide) rfl

section

variable {known : List Ident} {t : Table} {s : Nat} {sym : Symbol} {id : Ident}

/-- The names of a first part follow those that were met, whatever comes after them. -/
theorem sublist_first {ids ids' : List Ident} (h : (known ++ (ids ++ ids')).Sublist I) :
    (known ++ ids).Sublist I :=
  ((List.sublist_append_left ids ids').append_left known).trans h

/-- After a step that declares `ids`, symbols come from the names before and from these. -/
theorem Table.Sourced.after {t' : Table} {ids : List Ident} (h : t.Sourced known)
    (hstep : ∀ {all : List Ident}, t.Sourced all → ids ⊆ all → t'.Sourced all) :
    t'.Sourced (known ++ ids) :=
  hstep (h.mono (List.subset_append_left known ids)) (List.subset_append_right known ids)

namespace Table

theorem checkName_sited (hpos : sym.pos ∈ P) : FailsOnly (Fault.Sited P I) (checkName sym) := by
  unfold checkName
  split
  · exact .located hpos (by decide) rfl
  · exact .ok _

/-- A name is only taken by a builtin or by a name that was declared before. -/
theorem checkFree_sited {previous : Option Symbol} (hsym : sym.DeclaredBy id)
    (hI : (known ++ [id]).Sublist I)
    (hprevious : ∀ p, previous = some p → p.name = sym.name ∧ p.Sourced known) :
    FailsOnly (Fault.Sited P I) (checkFree sym previous) := by
  cases previous with
  | none => exact .ok _
  | some p =>
      obtain ⟨hname, hsourced⟩ := hprevious p rfl
      rw [hsym.name] at hname
      have hpos : sym.pos = id.pos := by
        unfold Symbol.pos
        rw [hsym.decl]
        rfl
      rw [checkFree, duplicate, hpos, hsym.name, Symbol.pos]
      refine .error ?_
      cases hsourced with
      | builtin hbuiltin hdecl =>
          rw [hdecl]
          refine .builtin (hI.subset (List.mem_append_right _ (List.mem_singleton_self id))) ?_
          rw [← hname]
          exact hbuiltin
      | declared earlier hmem here =>
          rw [here.decl]
          refine .again (List.Sublist.trans ?_ hI) (here.name.symm.trans hname)
          exact (List.singleton_sublist.2 hmem).append (List.Sublist.refl [id])

theorem define_sited (ht : t.Sourced known) (hsym : sym.DeclaredBy id)
    (hI : (known ++ [id]).Sublist I) : FailsOnly (Fault.Sited P I) (t.define s sym) := by
  rw [define_eq]
  exact (checkFree_sited hsym hI (ht.bound s sym.name)).bind fun _ _ => .ok _

theorem addLocal_sited (ht : t.Sourced known) (hsym : sym.DeclaredBy id)
    (hI : (known ++ [id]).Sublist I) {f : Function} (hf : t.function? s = some f) :
    FailsOnly (Fault.Sited P I) (t.addLocal s f sym) := by
  rw [addLocal_eq]
  refine (checkFree_sited hsym hI fun p hp => ?_).bind fun _ _ =>
    (define_sited ht (hsym.store _ _) hI).bind fun _ _ => .ok _
  have hall := ht.function? hf
  rcases Option.or_eq_some_iff.1 hp with hp | ⟨-, hp⟩
  · obtain ⟨hmem, hname⟩ := Symbol.find?_some hp
    exact ⟨hname, hall p (List.mem_append_left _ hmem)⟩
  · obtain ⟨hmem, hname⟩ := Symbol.find?_some hp
    exact ⟨hname, hall p (List.mem_append_right _ hmem)⟩

theorem addStatic_sited (ht : t.Sourced known) (hsym : sym.DeclaredBy id)
    (hI : (known ++ [id]).Sublist I) (g : Nat) :
    FailsOnly (Fault.Sited P I) (t.addStatic s g sym) := by
  have hlookup := checkFree_sited (P := P) hsym hI fun _ => ht.lookup (s := s)
  have hconflict := checkFree_sited (P := P) hsym hI fun _ => ht.globalConflict (g := g)
  have hdefine : ∀ storage slot, FailsOnly (Fault.Sited P I)
      (t.define s { sym with storage := storage, slot := slot }) :=
    fun _ _ => define_sited ht (hsym.store _ _) hI
  rw [addStatic_eq]
  dsimp only
  split
  · exact hlookup.bind fun _ _ => hconflict.bind fun _ _ => (hdefine _ _).bind fun _ _ => .ok _
  · exact hconflict.bind fun _ _ => (hdefine _ _).bind fun _ _ => .ok _

theorem addVar_sited (ht : t.Sourced known) (hsym : sym.DeclaredBy id)
    (hI : (known ++ [id]).Sublist I) (hpos : sym.pos ∈ P) :
    FailsOnly (Fault.Sited P I) (t.addVar s sym) := by
  rw [addVar_eq]
  split
  · refine (checkName_sited hpos).bind fun _ _ => ?_
    split
    · next f hf => exact addLocal_sited ht hsym hI hf
    · exact addStatic_sited ht hsym hI _
  · exact .internal _ _

theorem addParam_sited (ht : t.Sourced known) (hsym : sym.DeclaredBy id)
    (hI : (known ++ [id]).Sublist I) (hpos : sym.pos ∈ P) :
    FailsOnly (Fault.Sited P I) (t.addParam s sym) := by
  rw [addParam_eq]
  split
  · next f hf =>
      refine (checkName_sited hpos).bind fun _ _ =>
        (checkFree_sited hsym hI fun p hp => ?_).bind fun _ _ =>
          (define_sited ht (hsym.store _ _) hI).bind fun _ _ => .ok _
      obtain ⟨hmem, hname⟩ := Symbol.find?_some hp
      exact ⟨hname, ht.function? hf p (List.mem_append_left _ hmem)⟩
  · exact .internal _ _

/-- A function clashes with what can be seen from the global scope. What is declared inside of it
does not matter. -/
theorem addFunc_sited (ht : t.Shaped) {g : Nat} (hg : t.global? s = some g)
    (hsym : sym.DeclaredBy id) (hI : (known ++ [id]).Sublist I) (hpos : sym.pos ∈ P)
    (hconflict : ∀ p, t.globalConflict g sym.name = some p →
      p.name = sym.name ∧ p.Sourced known) :
    FailsOnly (Fault.Sited P I) (t.addFunc s sym) := by
  rw [addFunc_eq, hg]
  refine (checkName_sited hpos).bind fun _ _ => (checkFree_sited hsym hI hconflict).bind
    fun _ hfree => FailsOnly.bind ?_ fun _ _ => .ok _
  have hlookup : t.lookup g sym.name = none := (Option.or_eq_none_iff.1 (checkFree_ok hfree)).1
  have hlocal : t.lookupLocal g sym.name = none :=
    lookupLocal_eq_none ht (lt_size_of_global (ht.global s g hg)) hlookup
  rw [define_eq, show t.lookupLocal g _ = none from hlocal]
  exact .ok _

end Table

theorem declare_sited (ht : t.Sourced known) (hI : (known ++ [id]).Sublist I) (hpos : id.pos ∈ P)
    (type : Ty) (size : Option Pos) :
    FailsOnly (Fault.Sited P I) (declare t s id type size) :=
  (Table.addVar_sited ht ⟨rfl, rfl⟩ hI hpos).bind fun _ _ => .ok _

theorem checkTarget_sited {target : Expr} (hP : places (ofExpr target) ⊆ P) (pos : Pos) :
    FailsOnly (Fault.Sited P I) (checkTarget t s pos target) := by
  cases target with
  | ident id =>
      have hpos : id.pos ∈ P := hP List.mem_cons_self
      refine (Ident.resolve_sited t s hpos).bind fun out hout => ?_
      dsimp only
      split
      · refine .located ?_ (by decide) rfl
        rw [Ident.resolve_pos t s hout]
        exact hpos
      · exact .ok _
  | index _ _ _ _ => exact Expr.check_sited t s hP
  | missing | literal _ _ _ _ | unary _ _ _ _ | binary _ _ _ _ _ | call _ _ _ _
  | convert _ _ _ => exact .internal _ _

theorem checkAssign_sited {target value : Expr} (htarget : places (ofExpr target) ⊆ P)
    (hvalue : places (ofExpr value) ⊆ P) (pos : Pos) :
    FailsOnly (Fault.Sited P I) (checkAssign t s pos target value) :=
  (checkTarget_sited htarget pos).bind fun _ _ => (Expr.check_sited t s hvalue).bind fun _ hout =>
    (Expr.coerceFor_sited _ _ _ (Expr.pos_mem_places hout hvalue)).bind fun _ _ => .ok _

theorem checkVar_sited {n : Node} (ht : t.Sourced known) (hP : places (ofNode n) ⊆ P)
    (hI : (known ++ n.binders).Sublist I) (type : Ty) :
    FailsOnly (Fault.Sited P I) (checkVar t s type n) := by
  unfold checkVar
  split
  · exact (declare_sited ht hI (hP List.mem_cons_self) type none).bind fun _ _ => .ok _
  · next pos target value noted =>
      rw [ofNode, ofStmt, places_node, places_append, List.cons_subset, List.append_subset] at hP
      obtain ⟨-, htarget, hvalue⟩ := hP
      split
      · next id =>
          have hpos : id.pos ∈ P := htarget List.mem_cons_self
          refine (declare_sited ht hI hpos type none).bind fun out hout => ?_
          obtain ⟨sym, -, hid'⟩ := declare_ok hout
          refine (checkAssign_sited ?_ hvalue pos).bind fun _ _ => .ok _
          rw [hid']
          exact htarget
      · exact .internal _ _
  · exact .internal _ _

theorem checkVars_sited {type : Ty} : ∀ {ns : List Node} {t : Table} {known : List Ident},
    t.Sourced known → places (ofNodes ns) ⊆ P → (known ++ ns.flatMap Node.binders).Sublist I →
    FailsOnly (Fault.Sited P I) (checkVars t s type ns)
  | [], _, _, _, _, _ => .ok _
  | n :: rest, t, known, ht, hP, hI => by
      rw [ofNodes, places_append, List.append_subset] at hP
      rw [List.flatMap_cons] at hI
      rw [checkVars]
      refine (checkVar_sited ht hP.1 (sublist_first hI) type).bind fun out hout => ?_
      have ht₁ := ht.after fun hall hsub => checkVar_sourced hall hsub hout
      rw [← List.append_assoc] at hI
      exact (checkVars_sited ht₁ hP.2 hI).bind fun _ _ => .ok _

end

/-! ## Functions -/

section

variable {known : List Ident} {t t' : Table} {s : Nat}

theorem checkParam_sited {p : Option Param} (ht : t.Sourced known)
    (hP : places (p.toList.map ofParam) ⊆ P) (hI : (known ++ Param.binders p).Sublist I) :
    FailsOnly (Fault.Sited P I) (checkParam t s p) := by
  cases p with
  | none => exact .internal _ _
  | some q =>
      rw [Option.toList_some, List.map_singleton, ofParam, places_node, places_append,
        List.cons_subset, List.append_subset] at hP
      obtain ⟨-, htype, hname⟩ := hP
      rw [checkParam]
      refine (checkTypeName_sited false htype).bind fun _ _ =>
        (Ident.present_sited q.name).bind fun id hid => ?_
      rw [Ident.present_ok hid] at hname
      rw [Param.binders, Option.toList_some, List.flatMap_singleton, Ident.present_ok hid] at hI
      exact (Table.addParam_sited ht ⟨rfl, rfl⟩ hI (hname List.mem_cons_self)).bind
        fun _ _ => .ok _

theorem checkParams_sited : ∀ {ps : List (Option Param)} {t : Table} {known : List Ident},
    t.Sourced known → places (ps.flatMap fun p => p.toList.map ofParam) ⊆ P →
    (known ++ ps.flatMap Param.binders).Sublist I →
    FailsOnly (Fault.Sited P I) (checkParams t s ps)
  | [], _, _, _, _, _ => .ok _
  | p :: rest, t, known, ht, hP, hI => by
      rw [List.flatMap_cons, places_append, List.append_subset] at hP
      rw [List.flatMap_cons] at hI
      rw [checkParams]
      refine (checkParam_sited ht hP.1 (sublist_first hI)).bind fun out hout => ?_
      have ht₁ := ht.after fun hall hsub => checkParam_sourced hall hsub hout
      rw [← List.append_assoc] at hI
      exact (checkParams_sited ht₁ hP.2 hI).bind fun _ _ => .ok _

/-- Parameters are declared in the scope of their function, which is not seen from outside. -/
theorem checkParams_globalConflict {g : Nat} : ∀ {ps ps' : List (Option Param)} {t : Table},
    s ∉ t.chain g → checkParams t s ps = .ok (t', ps') →
    ∀ name, t'.globalConflict g name = t.globalConflict g name
  | [], _, _, _, h, name => by
      cases h
      rfl
  | p :: rest, _, t, hs, h, name => by
      obtain ⟨t₁, _, _, hp, hrest, -⟩ := checkParams_cons_ok h
      obtain ⟨_, _, _, sym, -, -, -, hadd, -⟩ := checkParam_ok hp
      obtain ⟨l, f, -, -, -, -, -, -, rfl⟩ := Table.addParam_ok hadd
      have hmarked : s ∉ (t.setFunction l (some (f.addParam sym))).chain g := hs
      have hbound : s ∉ ((t.setFunction l (some (f.addParam sym))).bindName s sym).chain g := by
        rw [Table.extends_bindName.chain]
        exact hmarked
      refine (checkParams_globalConflict hbound hrest name).trans ?_
      unfold Table.globalConflict
      rw [Table.lookup_bindName_of_not_mem hmarked]
      show (t.lookup g name).or (Symbol.find? name ((t.setFunction l _).statics g)) = _
      rw [Table.statics_setFunction]

/-- What the name of a function clashes with is outside of its scope, so it was there before the
scope was opened. -/
theorem globalConflict_before {g : Nat} {f : Function} {ps ps' : List (Option Param)}
    (ht : t.Shaped) (hg : g < t.size)
    (h : checkParams ((t.child s).1.setFunction (t.child s).2 (some f)) (t.child s).2 ps =
      .ok (t', ps')) (name : String) :
    t'.globalConflict g name = t.globalConflict g name := by
  have houtside :
      (t.child s).2 ∉ ((t.child s).1.setFunction (t.child s).2 (some f)).chain g := by
    show (t.child s).2 ∉ (t.child s).1.chain g
    rw [ht.chain_child hg, ht.scope_child]
    exact ht.not_mem_chain hg hg
  have hlookup : (t.child s).1.lookup g = t.lookup g :=
    congrArg View.names (Table.view_child ht hg)
  have hstatics : (t.child s).1.statics g = t.statics g :=
    congrArg Reach.globals (ht.reach_child hg)
  rw [checkParams_globalConflict houtside h]
  unfold Table.globalConflict
  rw [Table.statics_setFunction, hstatics]
  show ((t.child s).1.lookup g name).or _ = _
  rw [hlookup]

theorem Params.places_subset {params : Option Params} (hP : places (ofParams params) ⊆ P) :
    places (((params.map (·.list)).getD []).flatMap fun p => p.toList.map ofParam) ⊆ P := by
  cases params with
  | none => exact List.nil_subset P
  | some ps =>
      rw [ofParams, Option.toList_some, List.map_singleton, places_node, ofParams_eq,
        List.cons_subset] at hP
      exact hP.2

/-- The parameters are checked before the name, but they come after it. They are not what the name
clashes with. -/
theorem checkFuncHead_sited {g : Nat} {result name : Option Ident} {params : Option Params}
    (ht : t.Sound) (hg : t.global? s = some g) (hsourced : t.Sourced known)
    (hresult : places (ofIdent result) ⊆ P) (hname : places (ofIdent name) ⊆ P)
    (hparams : places (ofParams params) ⊆ P)
    (hI : (known ++ (name.toList ++ Params.binders params)).Sublist I) (isArray : Bool) :
    FailsOnly (Fault.Sited P I) (checkFuncHead t s result isArray name params) := by
  refine (Ident.present_sited name).bind fun id hid => ?_
  obtain rfl := Ident.present_ok hid
  have hpos : id.pos ∈ P := hname List.mem_cons_self
  rw [Option.toList_some] at hI
  split
  · exact .located hpos (by decide) rfl
  · next hnone =>
      refine (checkTypeName_sited _ hresult).bind fun kind hkind => ?_
      obtain ⟨hsound, hmarked⟩ :=
        ht.openFunction hg hnone id.name (checkTypeName_isResult hkind)
      rw [← ht.scope_child (s := s)] at hsound hmarked
      have hnew := (hsourced.openFunction (s := s) id.name (Ty.ofKind kind isArray)).mono
        (List.subset_append_left known [id])
      have hafter : ((known ++ [id]) ++ Params.binders params).Sublist I := by
        rw [List.append_assoc]
        exact hI
      refine (checkParams_sited hnew (Params.places_subset hparams) hafter).bind
        fun out hout => ?_
      obtain ⟨hsound₁, hext, -, -⟩ := checkParams_sound hsound hmarked rfl hout
      have hg₁ : out.1.global? s = some g := by
        rw [hext.global, Table.global?_setFunction,
          Table.global?_child (Table.lt_size_of_global hg), hg]
      refine (Table.addFunc_sited hsound₁.toShaped hg₁ ⟨rfl, rfl⟩ (sublist_first hI) hpos
        fun p hp => ?_).bind fun _ _ => .ok _
      have hglt : g < t.size := Table.lt_size_of_global (ht.global s g hg)
      rw [globalConflict_before ht.toShaped hglt hout] at hp
      exact hsourced.globalConflict hp

theorem checkReturn_sited {value : Expr} {pos : Pos} (hpos : pos ∈ P)
    (hP : places (ofExpr value) ⊆ P) : FailsOnly (Fault.Sited P I) (checkReturn t s pos value) := by
  unfold checkReturn
  split
  · exact .located hpos (by decide) rfl
  · split
    · split
      · exact .ok _
      · exact .located hpos (by decide) rfl
    · refine (Expr.check_sited t s hP).bind fun _ hout => ?_
      have hvalue := Expr.pos_mem_places hout hP
      dsimp only
      split
      · exact .located hvalue (by decide) rfl
      · exact (Expr.coerceFor_sited _ _ _ hvalue).bind fun _ _ => .ok _

/-- An inserted condition stands where its loop does. -/
theorem checkLoopCond_sited {cond : Expr} {pos : Pos} (hpos : pos ∈ P)
    (hP : places (ofExpr cond) ⊆ P) :
    FailsOnly (Fault.Sited P I) (checkLoopCond t s pos cond) := by
  have hinserted : places (ofExpr (.literal pos "true" none {})) ⊆ P :=
    List.cons_subset.2 ⟨hpos, List.nil_subset P⟩
  unfold checkLoopCond
  split
  · exact (Expr.checkCond_sited t s hinserted).bind fun _ _ => .ok _
  · exact (Expr.checkCond_sited t s hP).bind fun _ _ => .ok _

end

/-! ## Statements -/

/-- A table in the middle of the check of a program. So far the check has come past these names. -/
structure Table.Past (t : Table) (g s : Nat) (known : List Ident) : Prop where
  sound : t.Sound
  global : t.global? s = some g
  sourced : t.Sourced known

section

variable {known : List Ident} {t t' : Table} {g s : Nat}

theorem Table.Past.child (h : t.Past g s known) : (t.child s).1.Past g (t.child s).2 known := by
  refine ⟨h.sound.child (Table.lt_size_of_global h.global), ?_, h.sourced.child⟩
  rw [h.sound.scope_child]
  exact Table.global?_child_new h.sound.toShaped h.global

theorem Table.Past.of_checked {ids : List Ident} {new : List Symbol} {typed : Reach → Prop}
    (h : t.Past g s known) (hc : Checked t t' s new typed)
    (hsourced : ∀ {all : List Ident}, t.Sourced all → ids ⊆ all → t'.Sourced all) :
    t'.Past g s (known ++ ids) :=
  ⟨hc.sound, (hc.grows.global s (Table.lt_size_of_global h.global)).trans h.global,
    h.sourced.after hsourced⟩

theorem Table.Past.stmt (h : t.Past g s known) {stmt stmt' : Stmt}
    (hc : stmt.check t s = .ok (t', stmt')) : t'.Past g s (known ++ stmt.binders) :=
  h.of_checked (Stmt.check_typed h.sound h.global hc) fun hall hsub =>
    Stmt.check_sourced hall hsub hc

theorem Table.Past.part (h : t.Past g s known) {part part' : Stmt}
    (hc : part.checkPart t s = .ok (t', part')) : t'.Past g s (known ++ part.binders) := by
  rcases Stmt.checkPart_ok hc with ⟨rfl, rfl, -⟩ | ⟨-, hc⟩
  · exact ⟨h.sound, h.global, h.sourced.mono (List.subset_append_left known _)⟩
  · exact h.stmt hc

theorem Table.Past.inner (h : t.Past g s known) {b b' : Block}
    (hc : b.check (t.child s).1 (t.child s).2 = .ok (t', b')) :
    t'.Past g s (known ++ b.binders) :=
  h.of_checked (Block.check_inner h.sound h.global hc) fun hall hsub =>
    Block.check_sourced hall.child hsub hc

theorem Table.Past.funcHead (h : t.Past g s known) {result name : Option Ident} {isArray : Bool}
    {params : Option Params} {head : FuncHead}
    (hc : checkFuncHead t s result isArray name params = .ok (t', head)) :
    t'.Past g head.scope (known ++ (name.toList ++ Params.binders params)) := by
  obtain ⟨hsound, -, hscope, hg, -⟩ := checkFuncHead_sound h.sound h.global hc
  rw [← hscope] at hg
  refine ⟨hsound, hg, h.sourced.after fun hall hsub => ?_⟩
  obtain ⟨hname, hparams⟩ := List.append_subset.1 hsub
  exact checkFuncHead_sourced hall hname hparams hc

/-- A part of a loop that is not there cannot be wrong. -/
theorem Stmt.checkPart_sited {part : Stmt}
    (h : FailsOnly (Fault.Sited P I) (part.check t s)) :
    FailsOnly (Fault.Sited P I) (part.checkPart t s) := by
  unfold Stmt.checkPart
  split
  · exact .ok _
  · exact h

mutual

/-- Whatever is wrong with a statement is reported at one of its nodes, and a name that it declares
again is reported together with the one before. -/
theorem Stmt.check_sited : ∀ {stmt : Stmt} {t : Table} {s : Nat} {known : List Ident},
    t.Past g s known → places (ofStmt stmt) ⊆ P → (known ++ stmt.binders).Sublist I →
    FailsOnly (Fault.Sited P I) (stmt.check t s)
  | .missing, _, _, _, _, _, _ => by
      rw [Stmt.check]
      exact .internal _ _
  | .call pos func args _, t, s, _, _, hP, _ => by
      rw [ofStmt, places_node, places_append, List.cons_subset, List.append_subset] at hP
      obtain ⟨hpos, hfunc, hargs⟩ := hP
      rw [Stmt.check]
      refine (checkCall_sited t s _ hpos hfunc (fun name params => ?_) fun _ _ _ _ => ?_).bind
        fun _ _ => .ok _
      · exact Expr.checkArgs_sited t s hargs name 1 params
      · exact Expr.checkArgs_previous t s
  | .assign pos _ _ _, _, _, _, _, hP, _ => by
      rw [ofStmt, places_node, places_append, List.cons_subset, List.append_subset] at hP
      rw [Stmt.check]
      exact (checkAssign_sited hP.2.1 hP.2.2 pos).bind fun _ _ => .ok _
  | .varDecl _ _ _, _, _, _, h, hP, hI => by
      rw [ofStmt, places_node, places_append, List.cons_subset, List.append_subset] at hP
      rw [Stmt.check]
      exact (checkTypeName_sited false hP.2.1).bind fun _ _ =>
        (checkVars_sited h.sourced hP.2.2 hI).bind fun _ _ => .ok _
  | .arrayDecl _ _ name _, t, s, _, h, hP, hI => by
      rw [ofStmt, places_node, places_append, places_append, List.cons_subset,
        List.append_subset, List.append_subset] at hP
      obtain ⟨-, ⟨helem, hname⟩, hsize⟩ := hP
      rw [Stmt.check]
      refine (checkTypeName_sited false helem).bind fun _ _ => (Expr.check_sited t s hsize).bind
        fun _ hout => (Expr.coerceFor_sited _ _ _ (Expr.pos_mem_places hout hsize)).bind
          fun _ _ => (Ident.present_sited name).bind fun id hid => ?_
      obtain rfl := Ident.present_ok hid
      exact (declare_sited h.sourced hI (hname List.mem_cons_self) _ _).bind fun _ _ => .ok _
  | .ifElse _ _ yes no, t, s, known, h, hP, hI => by
      rw [ofStmt, places_node, places_append, places_append, List.cons_subset,
        List.append_subset, List.append_subset] at hP
      obtain ⟨-, ⟨hcond, hyes⟩, hno⟩ := hP
      rw [Stmt.binders] at hI
      rw [Stmt.check]
      refine (Expr.checkCond_sited t s hcond).bind fun _ _ =>
        (Block.check_sited h.child hyes (sublist_first hI)).bind fun out hout => ?_
      rw [← List.append_assoc] at hI
      exact (Block.check_sited (h.inner hout).child hno hI).bind fun _ _ => .ok _
  | .whileLoop _ _ _, t, s, _, h, hP, hI => by
      rw [ofStmt, places_node, places_append, List.cons_subset, List.append_subset] at hP
      rw [Stmt.check]
      exact (Expr.checkCond_sited t s hP.2.1).bind fun _ _ =>
        (Block.check_sited h.child hP.2.2 hI).bind fun _ _ => .ok _
  | .forLoop pos init cond inserted step body, t, s, known, h, hP, hI => by
      rw [ofStmt, places_node, places_append, places_append, places_append, List.cons_subset,
        List.append_subset, List.append_subset, List.append_subset] at hP
      obtain ⟨hpos, ⟨⟨hinit, hcond⟩, hstep⟩, hbody⟩ := hP
      rw [Stmt.binders, List.append_assoc] at hI
      rw [Stmt.check_forLoop]
      refine (Stmt.checkPart_sited (Stmt.check_sited h.child hinit (sublist_first hI))).bind
        fun out₁ hout₁ => ?_
      have h₁ := h.child.part hout₁
      rw [← List.append_assoc] at hI
      refine (checkLoopCond_sited hpos hcond).bind fun _ _ => ?_
      refine (Stmt.checkPart_sited (Stmt.check_sited h₁ hstep (sublist_first hI))).bind
        fun out₂ hout₂ => ?_
      have h₂ := h₁.part hout₂
      rw [← List.append_assoc] at hI
      exact (Block.check_sited h₂.child hbody hI).bind fun _ _ => .ok _
  | .block _, _, _, _, h, hP, hI => by
      rw [Stmt.check]
      exact (Block.check_sited h.child hP hI).bind fun _ _ => .ok _
  | .funcDecl _ result isArray name params body _, t, s, known, h, hP, hI => by
      rw [ofStmt, places_node, places_append, places_append, places_append, List.cons_subset,
        List.append_subset, List.append_subset, List.append_subset] at hP
      obtain ⟨-, ⟨⟨hresult, hname⟩, hparams⟩, hbody⟩ := hP
      rw [Stmt.binders] at hI
      rw [Stmt.check]
      refine (checkFuncHead_sited h.sound h.global h.sourced hresult hname hparams
        (sublist_first hI) isArray).bind fun out hout => ?_
      rw [← List.append_assoc] at hI
      exact (Block.check_sited (h.funcHead hout).child hbody hI).bind fun _ _ => .ok _
  | .ret _ _, _, _, _, _, hP, _ => by
      rw [ofStmt, places_node, List.cons_subset] at hP
      rw [Stmt.check]
      exact (checkReturn_sited hP.1 hP.2).bind fun _ _ => .ok _

theorem Block.check_sited : ∀ {b : Block} {t : Table} {s : Nat} {known : List Ident},
    t.Past g s known → places (ofBlock b) ⊆ P → (known ++ b.binders).Sublist I →
    FailsOnly (Fault.Sited P I) (b.check t s)
  | .missing, _, _, _, _, _, _ => .ok _
  | .of _ _, _, _, _, h, hP, hI => by
      rw [ofBlock, places_node, List.cons_subset] at hP
      rw [Block.check]
      exact (Stmt.checkAll_sited h hP.2 hI).bind fun _ _ => .ok _

theorem Stmt.checkAll_sited : ∀ {stmts : List Stmt} {t : Table} {s : Nat} {known : List Ident},
    t.Past g s known → places (ofStmts stmts) ⊆ P → (known ++ Stmt.bindersIn stmts).Sublist I →
    FailsOnly (Fault.Sited P I) (Stmt.checkAll t s stmts)
  | [], _, _, _, _, _, _ => .ok _
  | stmt :: rest, _, _, known, h, hP, hI => by
      rw [ofStmts, places_append, List.append_subset] at hP
      rw [Stmt.bindersIn] at hI
      rw [Stmt.checkAll]
      refine (Stmt.check_sited h hP.1 (sublist_first hI)).bind fun out hout => ?_
      rw [← List.append_assoc] at hI
      exact (Stmt.checkAll_sited (h.stmt hout) hP.2 hI).bind fun _ _ => .ok _

end

end

/-! ## Programs -/

theorem Table.Past.program :
    (Table.initial.child Table.rootScope).1.Past (Table.initial.child Table.rootScope).2
      (Table.initial.child Table.rootScope).2 [] :=
  ⟨Table.Sound.program.1, Table.Sound.program.2, Table.Sourced.initial.child⟩

theorem Analysis.ofProgram_sited (pos : Pos) (stmts : List Stmt) :
    FailsOnly (Fault.Sited (places (ofStmts stmts)) (Stmt.bindersIn stmts))
      (Analysis.ofProgram (.of pos stmts)) :=
  (Stmt.checkAll_sited .program (List.Subset.refl _) (List.Sublist.refl _)).bind fun _ _ => .ok _

end

/-- A program that breaks a rule of the language is told where: at the place of one of its nodes. A
previous declaration is only mentioned of a name that is declared twice. It is the place of a node
with the same name, declared before the one at which the fault is. No previous declaration is
mentioned only of the name of a builtin. -/
theorem Analysis.fault_located {text : String} {b : Block} {k : Kind} {pos : Pos}
    {inner : List Fault} (hb : Block.parse text = .ok b)
    (hf : Analysis.ofProgram b = .error (.located k pos inner)) :
    ∃ below, b.visit (fun _ => true) = .ok (.stmt (.block b) :: below) ∧
      pos.isValid = true ∧ (∃ n ∈ below, n.pos = pos) ∧
      (∀ name previous, (name, previous) ∈ (Fault.located k pos inner).previous →
        k = .duplicateIdentifier ∧ ∃ earlier later : Ident,
          [earlier, later].Sublist b.binders ∧ [earlier.node, later.node].Sublist below ∧
          earlier.name = name ∧ later.name = name ∧ earlier.pos = previous ∧ later.pos = pos) ∧
      (k = .duplicateIdentifier → (Fault.located k pos inner).previous = [] →
        ∃ id ∈ b.binders, id.pos = pos ∧ id.name ∈ Symbol.builtins.map (·.name)) := by
  obtain ⟨forms, below, -, hvisit, hplaces, -⟩ := Block.parse_positions hb
  cases b with
  | missing => cases hf
  | of start stmts =>
      have hbelow : below = Outline.nodesAll (Outline.ofStmts stmts) := by
        have hnodes := Outline.visitAll_eq_nodes hvisit
        rw [Outline.ofBlock, Outline.nodesAll_node] at hnodes
        exact (List.cons.inj hnodes).2
      have hnames := Stmt.bindersIn_namesIn stmts
      unfold NamesIn at hnames
      rw [← hbelow] at hnames
      have hmem : ∀ id ∈ Stmt.bindersIn stmts, id.node ∈ below := fun id hid =>
        hnames.subset (List.mem_map_of_mem hid)
      have hvalid : ∀ n ∈ below, n.pos.isValid = true := by
        intro n hn
        obtain ⟨f, -, -, before, -, hpos⟩ := hplaces n hn
        rw [hpos, Pos.isValid]
        exact decide_eq_true (by show (0 : Int) < 1 + _; omega)
      refine ⟨below, hvisit, ?_⟩
      cases Analysis.ofProgram_sited start stmts _ hf with
      | rule hpos hk hinner =>
          obtain ⟨n, hn, rfl⟩ := List.mem_map.1 hpos
          rw [← hbelow] at hn
          refine ⟨hvalid n hn, ⟨n, hn, rfl⟩, fun name previous h => ?_, fun h => absurd h hk⟩
          rw [Fault.previous, hinner] at h
          cases h
      | @again earlier later hsub hname =>
          have hearlier := hmem earlier (hsub.subset List.mem_cons_self)
          have hlater := hmem later (hsub.subset (List.mem_cons_of_mem _ List.mem_cons_self))
          have hplace : earlier.pos.isValid = true := hvalid _ hearlier
          rw [if_pos hplace]
          refine ⟨hvalid _ hlater, ⟨later.node, hlater, rfl⟩, fun name previous h => ?_,
            fun _ h => (nomatch h)⟩
          cases List.mem_singleton.1 h
          exact ⟨rfl, earlier, later, hsub, (hsub.map Ident.node).trans hnames, hname, rfl, rfl,
            rfl⟩
      | @builtin id hid hbuiltin =>
          exact ⟨hvalid _ (hmem id hid), ⟨id.node, hmem id hid, rfl⟩, fun _ _ h => (nomatch h),
            fun _ _ => ⟨id, hid, rfl, hbuiltin⟩⟩

/-- A parameter has the name of a parameter before it. That a variable with this name is declared in
the program, too, does not matter. -/
theorem Analysis.fault_located_parameter :
    ∃ b below earlier later,
      Block.parse "(var int n)\n(func void f ((int n)\n  (float n)) (block))" = .ok b ∧
      b.visit (fun _ => true) = .ok (.stmt (.block b) :: below) ∧
      [Ident.node earlier, Ident.node later].Sublist below ∧ earlier.name = later.name ∧
      earlier.pos = ⟨2, 20⟩ ∧ later.pos = ⟨3, 10⟩ := by
  have htext :
      (Block.parse "(var int n)\n(func void f ((int n)\n  (float n)) (block))").toOption.any
        (fun b => match Analysis.ofProgram b with
          | .ok _ => false
          | .error (.located _ pos inner) =>
            pos == ⟨3, 10⟩ && Fault.previousAll inner == [("n", ⟨2, 20⟩)]
          | .error _ => false) = true := by
    decide +kernel
  obtain ⟨b, hb, hfault⟩ := Except.any_toOption htext
  split at hfault
  · cases hfault
  · next k pos inner hf =>
      simp only [Bool.and_eq_true, beq_iff_eq] at hfault
      obtain ⟨rfl, hinner⟩ := hfault
      obtain ⟨below, hvisit, -, -, hprevious, -⟩ := Analysis.fault_located hb hf
      rw [Fault.previous, hinner] at hprevious
      obtain ⟨-, earlier, later, -, hsub, hname, hname', hpos, hpos'⟩ :=
        hprevious "n" ⟨2, 20⟩ (List.mem_singleton_self _)
      exact ⟨b, below, earlier, later, hb, hvisit, hsub, hname.trans hname'.symm, hpos, hpos'⟩
  · cases hfault

end SmallC
