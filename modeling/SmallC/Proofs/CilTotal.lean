import SmallC.Proofs.CilSteps
import SmallC.Proofs.TypedLowering

/-!
# A typed program has a CIL assembly

Lowering fails where it meets something it has no code for. Two tables could
leave such a gap, the one for operators and the one for conversions, and both
are shown to cover whatever a typed tree can ask of them. All else is a matter
of storage: a symbol within reach is a parameter of the function being lowered,
one of its locals, or a field.

Folding changes nothing here, for where a value replaces the code of an
expression there is code all the same.
-/

namespace SmallC.Cil

/-! ## The tables -/

theorem convertCode?_isSome {src dst : Base} (h : dst ∈ src.conversions) :
    (convertCode? src dst).isSome = true := by
  cases src <;> simp [Base.conversions] at h <;> rcases h with rfl | rfl | rfl <;> rfl

theorem binaryCode?_isSome {op : Op} {x y : Ty} {r : Base} (h : op.Accepts x y r) :
    (binaryCode? op (x = .base .float)).isSome = true := by
  unfold Op.Accepts at h
  split at h
  · next x y r =>
      unfold Op.result? at h
      split at h <;> first | rfl | cases h
  · obtain ⟨-, rfl | rfl, -⟩ := h <;> rfl
  · exact h.elim

theorem builtinCode?_isSome : ∀ id ∈ Symbol.builtins, (builtinCode? id.name).isSome = true := by
  decide

/-! ## Expressions -/

theorem convertCode_succeeds {e : Expr} {ty : Ty} {dst : Base} (hty : e.note.type = some ty)
    (h : dst ∈ ty.conversions) (pos : Pos) :
    Except.Succeeds (convertCode pos e.note.type dst) := by
  cases ty with
  | base src =>
      obtain ⟨code, hcode⟩ := Option.isSome_iff_exists.1 (convertCode?_isSome h)
      refine ⟨code, ?_⟩
      unfold convertCode
      rw [hty]
      dsimp only
      rw [show (Ty.base src).kind = src from rfl, hcode]
  | array b => cases h
  | func r ps => cases h
  | absent => cases h

section

variable {c : Context}

theorem plain_succeeds {e : Expr} {raw : Except Fault (List Instr)} (h : Except.Succeeds raw) :
    Except.Succeeds (plain c e raw) := by
  unfold plain
  split
  · exact h
  · split
    · exact .ok _
    · exact h

theorem used_succeeds {r : Reach} {e : Expr} {raw : Except Fault (List Instr)} (he : e.Typed r)
    (h : Except.Succeeds raw) : Except.Succeeds (used c e raw) := by
  unfold used
  split
  · exact plain_succeeds h
  · next conv hconv =>
      split
      · exact .ok _
      · obtain ⟨ty, hof⟩ := he.note_of
        refine (plain_succeeds h).bind fun code _ => ?_
        refine (convertCode_succeeds hof.type (hof.conv conv hconv).2 e.pos).bind fun more _ => ?_
        exact .ok _

variable {r : Reach} (hc : c.function = r.function)

include hc

theorem load_succeeds {id : Symbol} (hd : id.type.isData = true) (h : id.Stored r) (pos : Pos) :
    Except.Succeeds (load c pos id) := by
  have hplace := h.place hc hd
  have hrequire := Ty.require_ok (Ty.isResult_of_isData hd)
  unfold load
  split
  · exact .ok _
  · split
    · exact .ok _
    · split
      · rw [hrequire]; exact .ok _
      · simp_all

theorem store_succeeds {id : Symbol} (hd : id.type.isData = true) (h : id.Stored r) :
    Except.Succeeds (store c id) := by
  have hplace := h.place hc hd
  have hrequire := Ty.require_ok (Ty.isResult_of_isData hd)
  unfold store
  split
  · exact .ok _
  · split
    · exact .ok _
    · split
      · rw [hrequire]; exact .ok _
      · simp_all

omit hc in
theorem callCode_succeeds {func : Ident} {sym : Symbol} {result : Ty} {params : List Ty}
    {args : Except Fault (List Instr)} (hrefers : func.Refers r sym)
    (hty : sym.type = .func result params) (hargs : Except.Succeeds args) (pos : Pos) :
    Except.Succeeds (callCode pos (some func) args) := by
  obtain ⟨hresult, hparams, hbuiltin⟩ := hrefers.known.signature hty
  unfold callCode
  rw [Ident.callee_ok hrefers.symbol hty]
  show Except.Succeeds (if sym.builtin then _ else _)
  split
  · next hb =>
      obtain ⟨code, hcode⟩ := Option.isSome_iff_exists.1 (builtinCode?_isSome sym (hbuiltin hb))
      dsimp only
      rw [hcode]
      exact hargs.bind fun _ _ => .ok _
  · refine hargs.bind fun code _ => ?_
    have hall : Ty.requireAll (result :: params) = .ok () := by
      refine Ty.requireAll_ok fun t ht => ?_
      rcases List.mem_cons.1 ht with rfl | ht
      · exact hresult
      · exact Ty.isResult_of_isData (hparams t ht)
    rw [hall]
    exact .ok _

omit hc in
theorem lowerArgs_succeeds {args : List Expr} (htyped : ∀ e ∈ args, e.Typed r)
    (h : ∀ e ∈ args, Except.Succeeds (lowerRaw c e)) : Except.Succeeds (lowerArgs c args) := by
  induction args with
  | nil => exact .ok _
  | cons e rest ih =>
      rw [lowerArgs]
      refine (used_succeeds (htyped e List.mem_cons_self) (h e List.mem_cons_self)).bind
        fun code _ => ?_
      refine (ih (fun x hx => htyped x (List.mem_cons_of_mem _ hx))
        fun x hx => h x (List.mem_cons_of_mem _ hx)).bind fun more _ => ?_
      exact .ok _

/-- A typed expression has code, unless it is the name of a function. -/
theorem lowerRaw_succeeds {e : Expr} (h : e.Typed r) :
    e.IsValue → Except.Succeeds (lowerRaw c e) := by
  induction h with
  | literal decoded note_of => exact fun _ => .ok _
  | @ident id sym refers =>
      intro hv
      obtain ⟨ty, hty, hfunc⟩ := hv
      obtain rfl : sym.type = ty := Option.some.inj (refers.note.type.symm.trans hty)
      obtain ⟨hdata, hstored⟩ := refers.known.stored hfunc
      rw [lowerRaw, Ident.resolved_ok refers.symbol]
      exact (load_succeeds hc hdata hstored _).bind fun _ _ => .ok _
  | unary operand husedType numeric _ ih =>
      intro _
      have hx := operand.isValue husedType (by rcases numeric with rfl | ⟨rfl, -⟩ <;> rfl)
      rw [lowerRaw]
      exact (used_succeeds operand (ih hx)).bind fun _ _ => .ok _
  | binary left right usedLeft usedRight accepts _ _ ihx ihy =>
      intro _
      have hx := left.isValue usedLeft accepts.isData.1
      have hy := right.isValue usedRight accepts.isData.2
      rw [lowerRaw]
      refine (used_succeeds left (ihx hx)).bind fun code _ => ?_
      refine (used_succeeds right (ihy hy)).bind fun more _ => ?_
      have htype := Expr.typeOf_ok usedLeft
      obtain ⟨op, hop⟩ := Option.isSome_iff_exists.1 (binaryCode?_isSome accepts)
      refine Except.Succeeds.bind ⟨_, htype⟩ fun ty hty => ?_
      obtain rfl := Except.ok.inj (htype.symm.trans hty)
      rw [hop]
      exact .ok _
  | @index _ array sym elem _ _ refers type operand husedType _ ih =>
      intro _
      obtain ⟨hdata, hstored⟩ := refers.known.element type
      rw [lowerRaw, Ident.resolved_ok refers.symbol]
      refine (load_succeeds hc hdata hstored _).bind fun _ _ => ?_
      refine (used_succeeds operand (ih (operand.isValue husedType rfl))).bind fun _ _ => ?_
      rw [Ty.require_ok (Ty.isResult_of_isData hdata)]
      exact .ok _
  | @call _ _ sym _ params args _ refers type operands husedType _ ih =>
      intro _
      obtain ⟨-, hparams, -⟩ := refers.known.signature type
      rw [lowerRaw]
      refine callCode_succeeds refers type (lowerArgs_succeeds operands fun e he => ?_) _
      exact ih e he (Expr.isValue_of_argument husedType hparams he (operands e he))

theorem lowerExpr_succeeds {e : Expr} {ty : Ty} (h : e.UsedAs r ty) (hty : ty.isData = true) :
    Except.Succeeds (lowerExpr c e) :=
  used_succeeds h.typed (lowerRaw_succeeds hc h.typed (h.isValue hty))

/-! ## Statements -/

theorem lowerAssign_succeeds {target value : Expr} {noted : Option Ty}
    (h : AssignTyped r target value noted) (pos : Pos) :
    Except.Succeeds (lowerAssign c pos target value) := by
  obtain ⟨hplace, -, ty, hdata, htarget, hvalue, -⟩ := h
  have hv := lowerExpr_succeeds hc hvalue hdata
  cases htarget.typed with
  | @ident id sym refers =>
      obtain ⟨ty', hty, hfunc⟩ := htarget.isValue hdata
      obtain rfl : sym.type = ty' := Option.some.inj (refers.note.type.symm.trans hty)
      obtain ⟨hsym, hstored⟩ := refers.known.stored hfunc
      refine hv.bind fun code _ => ?_
      rw [Ident.resolved_ok refers.symbol]
      exact (store_succeeds hc hsym hstored).bind fun _ _ => .ok _
  | @index _ array sym elem i _ refers type operand hused _ =>
      obtain ⟨hsym, hstored⟩ := refers.known.element type
      have hi : i.UsedAs r (.base .int) := ⟨operand, hused⟩
      unfold lowerAssign
      dsimp only
      rw [Ident.resolved_ok refers.symbol]
      refine (load_succeeds hc hsym hstored _).bind fun _ _ => ?_
      refine (lowerExpr_succeeds hc hi rfl).bind fun _ _ => hv.bind fun _ _ => ?_
      rw [Ty.require_ok (Ty.isResult_of_isData hsym)]
      exact .ok _
  | literal _ _ => cases hplace
  | unary _ _ _ _ => cases hplace
  | binary _ _ _ _ _ _ _ => cases hplace
  | call _ _ _ _ _ => cases hplace

theorem lowerVars_succeeds {vars : List Node} (h : ∀ n ∈ vars, n.TypedVar r) :
    Except.Succeeds (lowerVars c vars) := by
  induction vars with
  | nil => exact .ok _
  | cons n rest ih =>
      have hrest := ih fun m hm => h m (List.mem_cons_of_mem _ hm)
      have hn := h n List.mem_cons_self
      unfold Node.TypedVar at hn
      split at hn
      · exact hrest
      · rw [lowerVars]
        exact (lowerAssign_succeeds hc hn _).bind fun _ _ => hrest.bind fun _ _ => .ok _
      · exact hn.elim

theorem lowerLoopCond_succeeds {cond inserted : Expr} (h : LoopCondTyped r cond inserted) :
    Except.Succeeds (lowerLoopCond c cond inserted) := by
  unfold lowerLoopCond
  rcases h with ⟨hcond, rfl⟩ | ⟨rfl, hins⟩
  · rw [hcond.typed.not_missing]
    exact lowerExpr_succeeds hc hcond rfl
  · rw [hins.typed.not_missing]
    exact lowerExpr_succeeds hc hins rfl

end

mutual

/-- A typed statement has code. -/
theorem lowerStmt_succeeds {c : Context} {r : Reach} (hc : c.function = r.function) :
    ∀ {stmt : Stmt} {n : Nat}, stmt.Typed r → Except.Succeeds (lowerStmt c n stmt)
  | .missing, _, h => h.elim
  | .call pos _ _ _, _, h => by
      cases h with
      | call refers type operands hused note_of =>
          obtain ⟨-, hparams, -⟩ := refers.known.signature type
          have hargs := lowerArgs_succeeds operands fun e he => lowerRaw_succeeds hc (operands e he)
            (Expr.isValue_of_argument hused hparams he (operands e he))
          rw [lowerStmt]
          exact (callCode_succeeds refers type hargs pos).bind fun _ _ => .ok _
  | .assign _ _ _ _, _, h => by
      rw [lowerStmt]
      exact (lowerAssign_succeeds hc h _).bind fun _ _ => .ok _
  | .varDecl _ _ _, _, h => by
      rw [lowerStmt]
      exact (lowerVars_succeeds hc h).bind fun _ _ => .ok _
  | .arrayDecl _ _ _ _, _, h => by
      obtain ⟨id, sym, elem, rfl, hdecl, hty, hsize⟩ := h
      rw [lowerStmt, Ident.resolved_ok hdecl.symbol]
      refine (lowerExpr_succeeds hc hsize rfl).bind fun _ _ => ?_
      rw [Ty.require_ok (Ty.isResult_of_isData hdecl.isData)]
      exact (store_succeeds hc hdecl.isData hdecl.stored).bind fun _ _ => .ok _
  | .ifElse _ _ _ _, _, h => by
      rw [lowerStmt]
      refine (lowerExpr_succeeds hc h.1 rfl).bind fun _ _ => ?_
      refine (lowerBlock_succeeds hc h.2.1).bind fun _ _ => ?_
      exact (lowerBlock_succeeds hc h.2.2).bind fun _ _ => .ok _
  | .whileLoop _ _ _, _, h => by
      rw [lowerStmt]
      refine (lowerBlock_succeeds hc h.2).bind fun _ _ => ?_
      exact (lowerExpr_succeeds hc h.1 rfl).bind fun _ _ => .ok _
  | .forLoop _ init _ _ step _, n, h => by
      obtain ⟨hinit, hcond, hstep, hbody⟩ := h
      have hi : Except.Succeeds (lowerPart c n init) := by
        rcases hinit with rfl | hinit
        · exact .ok _
        · unfold lowerPart
          split
          · exact .ok _
          · exact lowerStmt_succeeds hc hinit
      have hst : ∀ m, Except.Succeeds (lowerPart c m step) := by
        intro m
        rcases hstep with rfl | hstep
        · exact .ok _
        · unfold lowerPart
          split
          · exact .ok _
          · exact lowerStmt_succeeds hc hstep
      rw [lowerStmt_forLoop]
      refine hi.bind fun _ _ => (lowerBlock_succeeds hc hbody).bind fun _ _ => ?_
      refine (hst _).bind fun _ _ => ?_
      exact (lowerLoopCond_succeeds hc hcond).bind fun _ _ => .ok _
  | .block _, _, h => by
      rw [lowerStmt]
      exact lowerBlock_succeeds hc h
  | .funcDecl _ _ _ _ _ _ _, _, _ => .ok _
  | .ret _ value, _, h => by
      obtain ⟨f, -, ⟨rfl, -⟩ | ⟨hdata, hv⟩⟩ := h
      · exact .ok _
      · rw [lowerStmt, hv.typed.not_missing]
        exact (lowerExpr_succeeds hc hv hdata).bind fun _ _ => .ok _

/-- A typed block has code. -/
theorem lowerBlock_succeeds {c : Context} {r : Reach} (hc : c.function = r.function) :
    ∀ {b : Block} {n : Nat}, b.Typed r → Except.Succeeds (lowerBlock c n b)
  | .missing, _, _ => .ok _
  | .of _ _, _, h => by
      rw [lowerBlock]
      exact lowerStmts_succeeds hc h

/-- Typed statements have code. -/
theorem lowerStmts_succeeds {c : Context} {r : Reach} (hc : c.function = r.function) :
    ∀ {stmts : List Stmt} {n : Nat}, Stmt.AllTyped r stmts →
      Except.Succeeds (lowerStmts c n stmts)
  | [], _, _ => .ok _
  | _ :: _, _, h => by
      rw [lowerStmts]
      refine (lowerStmt_succeeds hc h.1).bind fun _ _ => ?_
      exact (lowerStmts_succeeds hc h.2).bind fun _ _ => .ok _

end

/-! ## Assemblies -/

theorem checkSlots_ok {pos : Pos} {ids : List Symbol} {place : Nat}
    (h : ∀ (i : Nat) (id : Symbol), ids[i]? = some id →
      id.slot = (place + i : Nat) ∧ id.type.isData = true) :
    checkSlots pos place ids = .ok () := by
  induction ids generalizing place with
  | nil => rfl
  | cons id rest ih =>
      obtain ⟨hslot, hdata⟩ := h 0 id rfl
      rw [checkSlots, if_pos (by simpa using hslot), Ty.require_ok (Ty.isResult_of_isData hdata)]
      refine ih fun i id' hi => ?_
      obtain ⟨hslot', hdata'⟩ := h (i + 1) id' hi
      exact ⟨by rw [hslot']; congr 1; omega, hdata'⟩

theorem lowerFunction_succeeds {globals : List Symbol} {d : FuncDecl} (h : d.Typed globals)
    (fold : Bool) (n : Nat) : Except.Succeeds (lowerFunction fold n d) := by
  obtain ⟨f, hf, hplaced, hlocals, hbody⟩ := h
  have hslots : checkSlots d.pos 0 d.body.declared = .ok () := by
    rw [← hlocals]
    refine checkSlots_ok fun i id hi => ?_
    obtain ⟨-, hslot, hdata⟩ := hplaced.locals i id hi
    exact ⟨by rw [hslot, Nat.zero_add], hdata⟩
  unfold lowerFunction
  rw [FuncDecl.described_ok_iff.2 hf]
  show Except.Succeeds (f.requireTypes >>= _)
  rw [hplaced.requireTypes_ok]
  show Except.Succeeds (checkSlots d.pos 0 d.body.declared >>= _)
  rw [hslots]
  exact (lowerBlock_succeeds (c := ⟨fold, some f⟩) rfl hbody).bind fun _ _ => .ok _

theorem lowerFunctions_succeeds {globals : List Symbol} {ds : List FuncDecl}
    (h : ∀ d ∈ ds, d.Typed globals) (fold : Bool) (n : Nat) :
    Except.Succeeds (lowerFunctions fold n ds) := by
  induction ds generalizing n with
  | nil => exact .ok _
  | cons d rest ih =>
      rw [lowerFunctions]
      refine (lowerFunction_succeeds (h d List.mem_cons_self) fold n).bind fun _ _ => ?_
      refine (ih (fun e he => h e (List.mem_cons_of_mem _ he)) _).bind fun _ _ => .ok _

/-- A typed program has an assembly. -/
theorem Assembly.ofAnalysis_succeeds {a : Analysis} {pos : Pos} {stmts : List Stmt}
    (hb : a.program = .of pos stmts) (h : a.program.Typed ⟨a.globals, none⟩)
    (hstatic : Symbol.Static a.globals) (opts : Options) :
    Except.Succeeds (Assembly.ofAnalysis a opts) := by
  obtain ⟨ds, hds, htyped⟩ := Block.Typed.functions h
  unfold Assembly.ofAnalysis
  rw [hstatic.requireAll_ok]
  show Except.Succeeds (a.program.functions >>= _)
  rw [hds]
  refine (lowerFunctions_succeeds htyped opts.fold 0).bind fun _ _ => ?_
  have hneeds : Except.Succeeds (Analysis.needsInitializer a.globals a.program) := by
    rw [hb]
    exact .ok _
  refine hneeds.bind fun initialized _ => ?_
  cases initialized with
  | false => exact .ok _
  | true =>
      have hinit : ∀ n, Except.Succeeds (lowerInitializer opts.fold n a.program) := fun n =>
        (lowerBlock_succeeds (c := ⟨opts.fold, none⟩) rfl h).bind fun _ _ => .ok _
      exact (hinit _).bind fun _ _ => .ok _

end SmallC.Cil
