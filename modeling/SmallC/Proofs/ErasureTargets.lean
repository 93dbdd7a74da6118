import SmallC.Compilation
import SmallC.Proofs.CheckTyping
import SmallC.Proofs.CilTotal
import SmallC.Proofs.ErasureLowering
import SmallC.Proofs.LlvmTotal

/-!
# Positions do not matter

`Erasure.lean` says that the check copies positions and nothing more. Here the
same is said of both lowerings, and the two together make the result: programs
that differ in positions only are both accepted or both rejected, and what they
are lowered to is the same text.

Lowering is compared on typed trees only. What they are needed for is small:
whether a symbol is a parameter must not depend on where it was declared, and
that is `Symbol.Stored.isParam_erase`.
-/

namespace SmallC

/-! ## CIL -/

namespace Cil

theorem convertCode_erase (pos : Pos) (src : Option Ty) (dst : Base) :
    convertCode .nowhere src dst = Except.erase id (convertCode pos src dst) := by
  cases src with
  | none => rfl
  | some src =>
      unfold convertCode
      dsimp only
      split <;> rfl

section

variable {c : Context}

theorem plain_erase {e : Expr} {raw raw' : Except Fault (List Instr)}
    (h : raw' = Except.erase id raw) :
    plain c.erase e.erase raw' = Except.erase id (plain c e raw) := by
  unfold plain
  rw [Expr.isLiteral_erase, Context.folded?_erase]
  split
  · exact h
  · split
    · rfl
    · exact h

theorem used_erase {e : Expr} {raw raw' : Except Fault (List Instr)}
    (h : raw' = Except.erase id raw) :
    used c.erase e.erase raw' = Except.erase id (used c e raw) := by
  unfold used
  rw [Expr.note_erase]
  split
  · exact plain_erase h
  · rw [Context.foldedUsed?_erase, Expr.pos_erase]
    split
    · rfl
    · refine Except.erase_bind (plain_erase h) fun code => ?_
      exact Except.erase_bind (convertCode_erase e.pos _ _) fun more => rfl

theorem callCode_erase (pos : Pos) (func : Option Ident) {args args' : Except Fault (List Instr)}
    (h : args' = Except.erase id args) :
    callCode .nowhere (func.map Ident.erase) args' = Except.erase id (callCode pos func args) := by
  refine Except.erase_bind (Ident.callee_erase pos func) fun callee => ?_
  rw [show callee.erase.symbol.builtin = callee.symbol.builtin from rfl,
    show callee.erase.symbol.name = callee.symbol.name from rfl]
  split
  · split
    · rfl
    · exact Except.erase_bind h fun _ => rfl
  · refine Except.erase_bind h fun code => ?_
    exact Except.erase_bind (Ty.requireAll_erase _) fun _ => rfl

variable {r : Reach} (hc : c.function = r.function)

include hc

theorem load_erase {sym : Symbol} (h : sym.Stored r) (pos : Pos) :
    load c.erase .nowhere sym.erase = Except.erase id (load c pos sym) := by
  unfold load
  rw [h.isParam_erase hc, Symbol.storage_erase, Symbol.isStatic_erase]
  split
  · rfl
  · split
    · rfl
    · split
      · exact Except.erase_bind sym.type.require_erase fun _ => rfl
      · rfl

theorem store_erase {sym : Symbol} (h : sym.Stored r) :
    store c.erase sym.erase = Except.erase id (store c sym) := by
  unfold store
  rw [h.isParam_erase hc, Symbol.storage_erase, Symbol.isStatic_erase, Symbol.pos_erase]
  split
  · rfl
  · split
    · rfl
    · split
      · exact Except.erase_bind sym.type.require_erase fun _ => rfl
      · rfl

omit hc in
theorem lowerArgs_erase {args : List Expr}
    (h : ∀ e ∈ args, lowerRaw c.erase e.erase = Except.erase id (lowerRaw c e)) :
    lowerArgs c.erase (args.map Expr.erase) = Except.erase id (lowerArgs c args) := by
  induction args with
  | nil => rfl
  | cons e rest ih =>
      rw [List.map_cons, lowerArgs, lowerArgs]
      refine Except.erase_bind (used_erase (h e List.mem_cons_self)) fun _ => ?_
      exact Except.erase_bind (ih fun x hx => h x (List.mem_cons_of_mem _ hx)) fun _ => rfl

/-- The code of a typed expression does not depend on positions. -/
theorem lowerRaw_erase {e : Expr} (h : e.Typed r) :
    e.IsValue → lowerRaw c.erase e.erase = Except.erase id (lowerRaw c e) := by
  induction h with
  | literal decoded note_of => exact fun _ => rfl
  | @ident x sym refers =>
      intro hv
      obtain ⟨ty, hty, hfunc⟩ := hv
      obtain rfl : sym.type = ty := Option.some.inj (refers.note.type.symm.trans hty)
      obtain ⟨-, hstored⟩ := refers.known.stored hfunc
      rw [Expr.erase_ident, lowerRaw, lowerRaw]
      refine Except.erase_bind_ok (Ident.resolved_ok refers.symbol)
        (Ident.resolved_ok_erase refers.symbol) ?_
      exact Except.erase_bind (load_erase hc hstored x.pos) fun _ => rfl
  | unary operand husedType numeric _ ih =>
      intro _
      have hx := operand.isValue husedType (by rcases numeric with rfl | ⟨rfl, -⟩ <;> rfl)
      rw [Expr.erase_unary, lowerRaw, lowerRaw]
      exact Except.erase_bind (used_erase (ih hx)) fun _ => rfl
  | @binary _ op x _ _ _ _ _ left right usedLeft usedRight accepts _ _ ihx ihy =>
      intro _
      have hx := left.isValue usedLeft accepts.isData.1
      have hy := right.isValue usedRight accepts.isData.2
      rw [Expr.erase_binary, lowerRaw, lowerRaw]
      refine Except.erase_bind (used_erase (ihx hx)) fun code => ?_
      refine Except.erase_bind (used_erase (ihy hy)) fun more => ?_
      refine Except.erase_bind x.typeOf_erase fun ty => ?_
      dsimp only [id]
      split <;> rfl
  | @index _ array sym elem _ _ refers type operand husedType _ ih =>
      intro _
      obtain ⟨-, hstored⟩ := refers.known.element type
      rw [Expr.erase_index, lowerRaw, lowerRaw]
      refine Except.erase_bind_ok (Ident.resolved_ok refers.symbol)
        (Ident.resolved_ok_erase refers.symbol) ?_
      refine Except.erase_bind (load_erase hc hstored array.pos) fun _ => ?_
      refine Except.erase_bind (used_erase (ih (operand.isValue husedType rfl))) fun _ => ?_
      exact Except.erase_bind sym.type.require_erase fun _ => rfl
  | @call pos func sym _ params args _ refers type operands husedType _ ih =>
      intro _
      obtain ⟨-, hparams, -⟩ := refers.known.signature type
      rw [Expr.erase_call, lowerRaw, lowerRaw]
      refine callCode_erase pos (some func) (lowerArgs_erase fun e he => ?_)
      exact ih e he (Expr.isValue_of_argument husedType hparams he (operands e he))

theorem lowerExpr_erase {e : Expr} {ty : Ty} (h : e.UsedAs r ty) (hty : ty.isData = true) :
    lowerExpr c.erase e.erase = Except.erase id (lowerExpr c e) :=
  used_erase (lowerRaw_erase hc h.typed (h.isValue hty))

theorem lowerAssign_erase {target value : Expr} {noted : Option Ty}
    (h : AssignTyped r target value noted) (pos : Pos) :
    lowerAssign c.erase .nowhere target.erase value.erase =
      Except.erase id (lowerAssign c pos target value) := by
  obtain ⟨hplace, -, ty, hdata, htarget, hvalue, -⟩ := h
  have hv := lowerExpr_erase hc hvalue hdata
  cases htarget.typed with
  | @ident x sym refers =>
      obtain ⟨ty', hty, hfunc⟩ := htarget.isValue hdata
      obtain rfl : sym.type = ty' := Option.some.inj (refers.note.type.symm.trans hty)
      obtain ⟨-, hstored⟩ := refers.known.stored hfunc
      refine Except.erase_bind hv fun code => ?_
      refine Except.erase_bind_ok (Ident.resolved_ok refers.symbol)
        (Ident.resolved_ok_erase refers.symbol) ?_
      exact Except.erase_bind (store_erase hc hstored) fun _ => rfl
  | @index _ array sym elem i _ refers type operand hused _ =>
      obtain ⟨-, hstored⟩ := refers.known.element type
      have hi : i.UsedAs r (.base .int) := ⟨operand, hused⟩
      rw [Expr.erase_index]
      unfold lowerAssign
      dsimp only
      refine Except.erase_bind_ok (Ident.resolved_ok refers.symbol)
        (Ident.resolved_ok_erase refers.symbol) ?_
      refine Except.erase_bind (load_erase hc hstored array.pos) fun _ => ?_
      refine Except.erase_bind (lowerExpr_erase hc hi rfl) fun _ => ?_
      refine Except.erase_bind hv fun _ => ?_
      exact Except.erase_bind sym.type.require_erase fun _ => rfl
  | literal _ _ => cases hplace
  | unary _ _ _ _ => cases hplace
  | binary _ _ _ _ _ _ _ => cases hplace
  | call _ _ _ _ _ => cases hplace

theorem lowerVars_erase {vars : List Node} (h : ∀ n ∈ vars, n.TypedVar r) :
    lowerVars c.erase (vars.map Node.erase) = Except.erase id (lowerVars c vars) := by
  induction vars with
  | nil => rfl
  | cons n rest ih =>
      have hrest := ih fun m hm => h m (List.mem_cons_of_mem _ hm)
      have hn := h n List.mem_cons_self
      unfold Node.TypedVar at hn
      split at hn
      · exact hrest
      · next pos x value noted =>
          refine Except.erase_bind (lowerAssign_erase hc hn pos) fun _ => ?_
          exact Except.erase_bind hrest fun _ => rfl
      · exact hn.elim

theorem lowerLoopCond_erase {cond inserted : Expr} (h : LoopCondTyped r cond inserted) :
    lowerLoopCond c.erase cond.erase inserted.erase =
      Except.erase id (lowerLoopCond c cond inserted) := by
  unfold lowerLoopCond
  rw [Expr.isMissing_erase, Expr.isMissing_erase]
  rcases h with ⟨hcond, rfl⟩ | ⟨rfl, hins⟩
  · rw [hcond.typed.not_missing]
    exact lowerExpr_erase hc hcond rfl
  · rw [hins.typed.not_missing]
    exact lowerExpr_erase hc hins rfl

end

theorem lowerPart_erase {c : Context} {r : Reach} {part : Stmt} (hpart : part = .missing ∨ part.Typed r)
    (h : ∀ n, part.Typed r → lowerStmt c.erase n part.erase = Except.erase id (lowerStmt c n part))
    (n : Nat) : lowerPart c.erase n part.erase = Except.erase id (lowerPart c n part) := by
  unfold lowerPart
  rw [Stmt.isMissing_erase]
  rcases hpart with rfl | hpart
  · rfl
  · split
    · rfl
    · exact h n hpart

mutual

/-- The code of a typed statement does not depend on positions. -/
theorem lowerStmt_erase {c : Context} {r : Reach} (hc : c.function = r.function) :
    ∀ {stmt : Stmt} (n : Nat), stmt.Typed r →
      lowerStmt c.erase n stmt.erase = Except.erase id (lowerStmt c n stmt)
  | .missing, _, h => h.elim
  | .call pos _ _ _, _, h => by
      cases h with
      | call refers type operands hused note_of =>
          obtain ⟨-, hparams, -⟩ := refers.known.signature type
          have hargs := lowerArgs_erase fun e he => lowerRaw_erase hc (operands e he)
            (Expr.isValue_of_argument hused hparams he (operands e he))
          rw [Stmt.erase_call, lowerStmt, lowerStmt]
          exact Except.erase_bind (callCode_erase pos _ hargs) fun _ => rfl
  | .assign pos _ _ _, _, h => by
      rw [lowerStmt]
      exact Except.erase_bind (lowerAssign_erase hc h pos) fun _ => rfl
  | .varDecl _ _ _, _, h => by
      rw [Stmt.erase_varDecl, lowerStmt, lowerStmt]
      exact Except.erase_bind (lowerVars_erase hc h) fun _ => rfl
  | .arrayDecl _ _ _ size, n, h => by
      obtain ⟨id, sym, elem, rfl, hdecl, hty, hsize⟩ := h
      show lowerStmt c.erase n (.arrayDecl _ _ (some id.erase) size.erase) = _
      rw [lowerStmt, lowerStmt]
      refine Except.erase_bind_ok (Ident.resolved_ok hdecl.symbol)
        (Ident.resolved_ok_erase hdecl.symbol) ?_
      refine Except.erase_bind (lowerExpr_erase hc hsize rfl) fun _ => ?_
      refine Except.erase_bind sym.type.require_erase fun _ => ?_
      exact Except.erase_bind (store_erase hc hdecl.stored) fun _ => rfl
  | .ifElse _ cond yes no, n, h => by
      show lowerStmt c.erase n (.ifElse _ cond.erase yes.erase no.erase) = _
      rw [lowerStmt, lowerStmt]
      refine Except.erase_bind (lowerExpr_erase hc h.1 rfl) fun _ => ?_
      refine Except.erase_bind (lowerBlock_erase hc _ h.2.1) fun _ => ?_
      exact Except.erase_bind (lowerBlock_erase hc _ h.2.2) fun _ => rfl
  | .whileLoop _ cond body, n, h => by
      show lowerStmt c.erase n (.whileLoop _ cond.erase body.erase) = _
      rw [lowerStmt, lowerStmt]
      refine Except.erase_bind (lowerBlock_erase hc _ h.2) fun _ => ?_
      exact Except.erase_bind (lowerExpr_erase hc h.1 rfl) fun _ => rfl
  | .forLoop _ init cond inserted step body, n, h => by
      obtain ⟨hinit, hcond, hstep, hbody⟩ := h
      show lowerStmt c.erase n (.forLoop _ init.erase cond.erase inserted.erase step.erase
        body.erase) = _
      rw [lowerStmt_forLoop, lowerStmt_forLoop]
      refine Except.erase_bind (lowerPart_erase hinit (fun _ => lowerStmt_erase hc _) n)
        fun _ => ?_
      refine Except.erase_bind (lowerBlock_erase hc _ hbody) fun _ => ?_
      refine Except.erase_bind (lowerPart_erase hstep (fun _ => lowerStmt_erase hc _) _)
        fun _ => ?_
      exact Except.erase_bind (lowerLoopCond_erase hc hcond) fun _ => rfl
  | .block b, n, h => by
      show lowerStmt c.erase n (.block b.erase) = _
      rw [lowerStmt, lowerStmt]
      exact lowerBlock_erase hc n h
  | .funcDecl _ _ _ _ _ _ _, _, _ => rfl
  | .ret _ value, n, h => by
      obtain ⟨f, -, ⟨rfl, -⟩ | ⟨hdata, hv⟩⟩ := h
      · rfl
      · show lowerStmt c.erase n (.ret _ value.erase) = _
        rw [lowerStmt, lowerStmt, Expr.isMissing_erase, hv.typed.not_missing]
        exact Except.erase_bind (lowerExpr_erase hc hv hdata) fun _ => rfl

/-- The code of a typed block does not depend on positions. -/
theorem lowerBlock_erase {c : Context} {r : Reach} (hc : c.function = r.function) :
    ∀ {b : Block} (n : Nat), b.Typed r →
      lowerBlock c.erase n b.erase = Except.erase id (lowerBlock c n b)
  | .missing, _, _ => rfl
  | .of _ _, n, h => by
      rw [Block.erase_of, lowerBlock, lowerBlock]
      exact lowerStmts_erase hc n h

/-- The code of typed statements does not depend on positions. -/
theorem lowerStmts_erase {c : Context} {r : Reach} (hc : c.function = r.function) :
    ∀ {stmts : List Stmt} (n : Nat), Stmt.AllTyped r stmts →
      lowerStmts c.erase n (stmts.map Stmt.erase) = Except.erase id (lowerStmts c n stmts)
  | [], _, _ => rfl
  | _ :: _, n, h => by
      rw [List.map_cons, lowerStmts, lowerStmts]
      refine Except.erase_bind (lowerStmt_erase hc n h.1) fun _ => ?_
      exact Except.erase_bind (lowerStmts_erase hc _ h.2) fun _ => rfl

end

/-- A method without positions. -/
def Method.erase (m : Method) : Method :=
  ⟨m.origin.erase, m.locals.map Symbol.erase, m.body⟩

/-- An assembly without positions. -/
def Assembly.erase (a : Assembly) : Assembly :=
  ⟨a.name, a.fields.map Symbol.erase, a.methods.map Method.erase⟩

theorem checkSlots_erase (pos : Pos) (place : Nat) (ids : List Symbol) :
    checkSlots .nowhere place (ids.map Symbol.erase) = Except.erase id (checkSlots pos place ids) := by
  induction ids generalizing place with
  | nil => rfl
  | cons sym rest ih =>
      rw [List.map_cons, checkSlots, checkSlots,
        show sym.erase.slot = sym.slot from rfl]
      split
      · exact Except.erase_bind sym.type.require_erase fun _ => ih (place + 1)
      · rfl

theorem lowerFunction_erase {globals : List Symbol} {d : FuncDecl} (h : d.Typed globals)
    (fold : Bool) (n : Nat) :
    lowerFunction fold n d.erase =
      Except.erase (Prod.map id Method.erase) (lowerFunction fold n d) := by
  obtain ⟨f, hf, -, -, hbody⟩ := h
  unfold lowerFunction
  have hdescribed : d.erase.described = .ok f.erase :=
    FuncDecl.described_ok_iff.2 (congrArg (Option.map Function.erase) hf)
  have hdeclared : d.erase.body.declared = d.body.declared.map Symbol.erase :=
    Block.declared_erase d.body
  have hreturns : d.erase.body.returns = d.body.returns := Block.returns_erase d.body
  rw [hdeclared, hreturns]
  refine Except.erase_bind_ok (FuncDecl.described_ok_iff.2 hf) hdescribed ?_
  refine Except.erase_bind f.requireTypes_erase fun _ => ?_
  refine Except.erase_bind (checkSlots_erase d.pos 0 d.body.declared) fun _ => ?_
  exact Except.erase_bind (lowerBlock_erase (c := ⟨fold, some f⟩) rfl n hbody) fun _ => rfl

theorem lowerFunctions_erase {globals : List Symbol} {ds : List FuncDecl}
    (h : ∀ d ∈ ds, d.Typed globals) (fold : Bool) (n : Nat) :
    lowerFunctions fold n (ds.map FuncDecl.erase) =
      Except.erase (Prod.map id (List.map Method.erase)) (lowerFunctions fold n ds) := by
  induction ds generalizing n with
  | nil => rfl
  | cons d rest ih =>
      rw [List.map_cons, lowerFunctions, lowerFunctions]
      refine Except.erase_bind (lowerFunction_erase (h d List.mem_cons_self) fold n) fun p => ?_
      exact Except.erase_bind (ih (fun e he => h e (List.mem_cons_of_mem _ he)) p.1) fun _ => rfl

/-- A typed program without positions has the assembly of the program without positions. -/
theorem Assembly.ofAnalysis_erase {a : Analysis} (h : a.program.Typed ⟨a.globals, none⟩)
    (opts : Options) :
    Assembly.ofAnalysis a.erase opts = Except.erase Assembly.erase (Assembly.ofAnalysis a opts) := by
  obtain ⟨ds, hds, htyped⟩ := Block.Typed.functions h
  have hds' : a.erase.program.functions = .ok (ds.map FuncDecl.erase) := by
    rw [show a.erase.program = a.program.erase from rfl, Block.functions_erase, hds]
    rfl
  have htypes : a.erase.globals.map (·.type) = a.globals.map (·.type) := Symbol.types_erase a.globals
  unfold Assembly.ofAnalysis
  rw [htypes]
  refine Except.erase_bind (Ty.requireAll_erase _) fun _ => ?_
  refine Except.erase_bind_ok hds hds' ?_
  refine Except.erase_bind (lowerFunctions_erase htyped opts.fold 0) fun p => ?_
  obtain ⟨n, methods⟩ := p
  refine Except.erase_bind (Analysis.needsInitializer_erase a.globals a.program)
    fun initialized => ?_
  cases initialized with
  | false => rfl
  | true =>
      have hinit : lowerInitializer opts.fold n a.erase.program =
          Except.erase Method.erase (lowerInitializer opts.fold n a.program) :=
        Except.erase_bind (lowerBlock_erase (c := ⟨opts.fold, none⟩) rfl n h) fun _ => rfl
      refine Except.erase_bind hinit fun method => congrArg Except.ok ?_
      unfold erase
      rw [List.map_append]
      rfl

theorem signature_erase (o : Origin) : signature o.erase = signature o := by
  cases o with
  | function f =>
      unfold signature Origin.erase
      dsimp only
      rw [show f.erase.params.map declText = f.params.map declText from List.map_map ..]
      rfl
  | initializer => rfl

theorem Method.directives_erase (m : Method) : m.erase.directives = m.directives := by
  have hentry : m.erase.origin.isEntryPoint = m.origin.isEntryPoint := by
    obtain ⟨_ | _, _, _⟩ := m <;> rfl
  have hlocals : m.erase.locals.mapIdx localText = m.locals.mapIdx localText := by
    show (m.locals.map Symbol.erase).mapIdx localText = _
    refine List.ext_getElem? fun i => ?_
    rw [List.getElem?_mapIdx, List.getElem?_mapIdx, List.getElem?_map, Option.map_map]
    rfl
  unfold directives
  rw [hentry, hlocals, show m.erase.locals = m.locals.map Symbol.erase from rfl, List.isEmpty_map]

theorem Method.list_erase (l : Listing) (m : Method) : Method.list l m.erase = Method.list l m := by
  unfold list
  rw [Method.directives_erase, show m.erase.origin = m.origin.erase from rfl, signature_erase]
  rfl

/-- The listing of an assembly does not show positions. -/
theorem Assembly.listing_erase (a : Assembly) : a.erase.listing = a.listing := by
  unfold listing
  dsimp only
  rw [show a.erase.fields.map fieldDecl = a.fields.map fieldDecl from List.map_map ..,
    show a.erase.methods = a.methods.map Method.erase from rfl, List.foldl_map]
  simp only [Method.list_erase]
  rfl

end Cil

/-! ## LLVM -/

namespace Llvm

namespace Emit

variable {α α' β β' : Type}

/-- What a step does, without positions, where `g` takes them out of its result. -/
def erase (g : α → α') (x : Emit α) : Emit α' := fun c =>
  Except.erase (fun out => ⟨g out.value, out.cursor, out.code⟩) (x c)

theorem erase_bind {x : Emit α} {x' : Emit α'} {k : α → Emit β} {k' : α' → Emit β'} {g : α → α'}
    {g' : β → β'} (hx : x' = erase g x) (hk : ∀ a, k' (g a) = erase g' (k a)) :
    (x' >>= k') = erase g' (x >>= k) := by
  subst hx
  funext c
  show andThen (erase g x) k' c = Except.erase _ (andThen x k c)
  unfold andThen
  rw [show erase g x c = Except.erase _ (x c) from rfl]
  cases x c with
  | error f => rfl
  | ok first =>
      dsimp only [Except.erase]
      rw [hk, show erase g' (k first.value) first.cursor =
        Except.erase _ (k first.value first.cursor) from rfl]
      cases k first.value first.cursor <;> rfl

theorem erase_ofExcept {x : Except Fault α} {x' : Except Fault α'} {g : α → α'}
    (h : x' = Except.erase g x) : ofExcept x' = erase g (ofExcept x) := by
  subst h
  cases x <;> rfl

/-- A step that cannot go wrong has no positions to show. -/
theorem Succeeds.erase {x : Emit α} (h : Succeeds x) : x = erase id x := by
  funext c
  obtain ⟨out, hout, -⟩ := h c
  show x c = Except.erase _ (x c)
  rw [hout]
  rfl

end Emit

open Emit

theorem firstArg_erase (args : List Operand) : firstArg args = Emit.erase id (firstArg args) := by
  cases args <;> rfl

theorem builtin?_erase {name : String} {args : List Operand} {code : Emit Operand}
    (h : builtin? name args = some code) : code = Emit.erase id code := by
  unfold builtin? at h
  split at h <;> cases h
  case h_1 | h_2 | h_5 =>
    refine erase_bind (firstArg_erase args) fun _ => Succeeds.erase ?_
    exact (print_succeeds _ _).bind fun _ => Succeeds.pure _
  case h_3 =>
    refine erase_bind (firstArg_erase args) fun _ => Succeeds.erase ?_
    exact (define_succeeds _ _).bind fun _ => (print_succeeds _ _).bind fun _ => Succeeds.pure _
  case h_4 =>
    refine erase_bind (firstArg_erase args) fun _ => Succeeds.erase ?_
    refine (use_succeeds _).bind fun _ => (use_succeeds _).bind fun _ => ?_
    exact (define_succeeds _ _).bind fun _ => (print_succeeds _ _).bind fun _ => Succeeds.pure _
  case h_6 | h_7 | h_8 => exact (scan_succeeds _ _ _).erase
  case h_9 => exact ((scan_succeeds _ _ _).bind fun _ => define_succeeds _ _).erase
  case h_10 =>
    exact ((allocate_succeeds _ _ _).bind fun _ => (use_succeeds _).bind fun _ =>
      (use_succeeds _).bind fun _ => (instr_succeeds _).bind fun _ => Succeeds.pure _).erase

theorem typedArgs_erase (place : Nat) (types : List Ty) (args : List Operand) :
    typedArgs place types args = Except.erase id (typedArgs place types args) := by
  induction types generalizing place args with
  | nil => cases args <;> rfl
  | cons t types ih =>
      cases args with
      | nil => rfl
      | cons x args =>
          rw [typedArgs]
          refine Except.erase_bind t.require_erase fun _ => ?_
          exact Except.erase_bind (ih (place + 1) args) fun _ => rfl

theorem convert_erase (pos : Pos) (src : Option Ty) (dst : Base) (x : Operand) :
    convert .nowhere src dst x = Emit.erase id (convert pos src dst x) := by
  unfold convert
  split
  · unfold convertBase
    split
    · exact (Succeeds.pure _).erase
    · split
      · split
        · exact (define_succeeds _ _).erase
        · exact (define_succeeds _ _).erase
      · split
        · exact (define_succeeds _ _).erase
        · rfl
  · rfl

section

variable {c : Context}

theorem plain_erase {e : Expr} {raw raw' : Emit Operand} (h : raw' = Emit.erase id raw) :
    plain c.erase e.erase raw' = Emit.erase id (plain c e raw) := by
  unfold plain
  rw [Expr.isLiteral_erase, Context.folded?_erase]
  split
  · exact h
  · split
    · exact (Succeeds.pure _).erase
    · exact h

theorem used_erase {e : Expr} {raw raw' : Emit Operand} (h : raw' = Emit.erase id raw) :
    used c.erase e.erase raw' = Emit.erase id (used c e raw) := by
  unfold used
  rw [Expr.note_erase]
  split
  · exact plain_erase h
  · rw [Context.foldedUsed?_erase, Expr.pos_erase]
    split
    · exact (Succeeds.pure _).erase
    · exact erase_bind (plain_erase h) fun x => convert_erase e.pos _ _ x

theorem lowerCall_erase (pos : Pos) (func : Option Ident) {args args' : Emit (List Operand)}
    (h : args' = Emit.erase id args) :
    lowerCall .nowhere (func.map Ident.erase) args' = Emit.erase id (lowerCall pos func args) := by
  refine erase_bind (erase_ofExcept (Ident.callee_erase pos func)) fun callee => ?_
  refine erase_bind h fun xs => ?_
  rw [show callee.erase.symbol.builtin = callee.symbol.builtin from rfl,
    show callee.erase.symbol.name = callee.symbol.name from rfl]
  dsimp only [id]
  split
  · split
    · next code hcode => exact builtin?_erase hcode
    · rfl
  · refine erase_bind (erase_ofExcept (typedArgs_erase 0 callee.params xs)) fun typed => ?_
    refine erase_bind (erase_ofExcept callee.result.require_erase) fun _ => ?_
    rw [show callee.erase.result = callee.result from rfl]
    dsimp only [id]
    split
    · exact ((instr_succeeds _).bind fun _ => Succeeds.pure _).erase
    · exact (define_succeeds _ _).erase

theorem lowerArgs_erase {args : List Expr}
    (h : ∀ e ∈ args, lowerRaw c.erase e.erase = Emit.erase id (lowerRaw c e)) :
    lowerArgs c.erase (args.map Expr.erase) = Emit.erase id (lowerArgs c args) := by
  induction args with
  | nil => exact (Succeeds.pure _).erase
  | cons e rest ih =>
      rw [List.map_cons, lowerArgs, lowerArgs]
      refine erase_bind (used_erase (h e List.mem_cons_self)) fun _ => ?_
      refine erase_bind (ih fun x hx => h x (List.mem_cons_of_mem _ hx)) fun _ => ?_
      exact (Succeeds.pure _).erase

variable {r : Reach} (hc : c.function = r.function)

include hc

theorem address_erase {sym : Symbol} (h : sym.Stored r) (pos : Pos) :
    address c.erase .nowhere sym.erase = Except.erase id (address c pos sym) := by
  unfold address
  rw [h.isParam_erase hc, Symbol.storage_erase, Symbol.isStatic_erase]
  split
  · rfl
  · split <;> rfl

theorem load_erase {sym : Symbol} (h : sym.Stored r) (pos : Pos) :
    load c.erase .nowhere sym.erase = Emit.erase id (load c pos sym) := by
  refine erase_bind (erase_ofExcept sym.type.require_erase) fun _ => ?_
  refine erase_bind (erase_ofExcept (address_erase hc h pos)) fun _ => ?_
  exact (define_succeeds _ _).erase

theorem store_erase {sym : Symbol} (h : sym.Stored r) (pos : Pos) (value : Operand) :
    store c.erase .nowhere sym.erase value = Emit.erase id (store c pos sym value) := by
  refine erase_bind (erase_ofExcept sym.type.require_erase) fun _ => ?_
  refine erase_bind (erase_ofExcept (address_erase hc h pos)) fun _ => ?_
  exact (instr_succeeds _).erase

omit hc in
/-- A name that stands for a symbol is resolved to it. -/
theorem resolved_bind_erase {β β' : Type} {x : Ident} {sym : Symbol} (h : x.symbol = some sym)
    {k : Ident × Symbol → Emit β} {k' : Ident × Symbol → Emit β'} {g : β → β'}
    (hk : k' (x.erase, sym.erase) = Emit.erase g (k (x, sym))) :
    (ofExcept (Ident.resolved (some x.erase)) >>= k') =
      Emit.erase g (ofExcept (Ident.resolved (some x)) >>= k) := by
  rw [Ident.resolved_ok h, Ident.resolved_ok_erase h]
  show (pure (x.erase, sym.erase) >>= k') = Emit.erase g (pure (x, sym) >>= k)
  rw [pure_bind, pure_bind]
  exact hk

theorem lowerElement_erase {array : Ident} {sym : Symbol} {elem : Base} {index index' : Emit Operand}
    (hrefers : array.Refers r sym) (hty : sym.type = .array elem)
    (hindex : index' = Emit.erase id index) :
    lowerElement c.erase (some array.erase) index' =
      Emit.erase (Prod.map Symbol.erase id) (lowerElement c (some array) index) := by
  obtain ⟨-, hstored⟩ := hrefers.known.element hty
  refine resolved_bind_erase hrefers.symbol ?_
  refine erase_bind (load_erase hc hstored array.pos) fun _ => ?_
  refine erase_bind hindex fun _ => ?_
  exact erase_bind (define_succeeds _ _).erase fun _ => rfl

/-- The code of a typed expression does not depend on positions. -/
theorem lowerRaw_erase {e : Expr} (h : e.Typed r) :
    e.IsValue → lowerRaw c.erase e.erase = Emit.erase id (lowerRaw c e) := by
  induction h with
  | @literal pos text value note decoded note_of =>
      intro _
      rw [Expr.erase_literal, lowerRaw, lowerRaw]
      exact erase_bind (erase_ofExcept (literalValue_erase pos text (some value))) fun _ => rfl
  | @ident x sym refers =>
      intro hv
      obtain ⟨ty, hty, hfunc⟩ := hv
      obtain rfl : sym.type = ty := Option.some.inj (refers.note.type.symm.trans hty)
      obtain ⟨-, hstored⟩ := refers.known.stored hfunc
      rw [Expr.erase_ident, lowerRaw, lowerRaw]
      exact resolved_bind_erase refers.symbol (load_erase hc hstored x.pos)
  | @unary _ op x _ _ operand husedType numeric _ ih =>
      intro _
      have hx := operand.isValue husedType (by rcases numeric with rfl | ⟨rfl, -⟩ <;> rfl)
      rw [Expr.erase_unary, lowerRaw, lowerRaw]
      refine erase_bind (used_erase (ih hx)) fun _ => ?_
      split
      · rfl
      · refine erase_bind (erase_ofExcept x.typeOf_erase) fun _ => ?_
        dsimp only [id]
        split
        · exact (define_succeeds _ _).erase
        · exact (define_succeeds _ _).erase
  | @binary _ op x _ _ _ _ _ left right usedLeft usedRight accepts _ _ ihx ihy =>
      intro _
      have hx := left.isValue usedLeft accepts.isData.1
      have hy := right.isValue usedRight accepts.isData.2
      rw [Expr.erase_binary, lowerRaw, lowerRaw]
      refine erase_bind (used_erase (ihx hx)) fun _ => ?_
      refine erase_bind (used_erase (ihy hy)) fun _ => ?_
      refine erase_bind (erase_ofExcept x.typeOf_erase) fun _ => ?_
      dsimp only [id]
      split
      · exact (define_succeeds _ _).erase
      · rfl
  | index refers type operand husedType _ ih =>
      intro _
      rw [Expr.erase_index, lowerRaw, lowerRaw]
      have hi := ih (operand.isValue husedType rfl)
      exact erase_bind (lowerElement_erase hc refers type (used_erase hi))
        fun _ => (define_succeeds _ _).erase
  | @call pos func sym _ params args _ refers type operands husedType _ ih =>
      intro _
      obtain ⟨-, hparams, -⟩ := refers.known.signature type
      rw [Expr.erase_call, lowerRaw, lowerRaw]
      refine lowerCall_erase pos (some func) (lowerArgs_erase fun e he => ?_)
      exact ih e he (Expr.isValue_of_argument husedType hparams he (operands e he))

theorem lowerExpr_erase {e : Expr} {ty : Ty} (h : e.UsedAs r ty) (hty : ty.isData = true) :
    lowerExpr c.erase e.erase = Emit.erase id (lowerExpr c e) :=
  used_erase (lowerRaw_erase hc h.typed (h.isValue hty))

theorem lowerAssign_erase {target value : Expr} {noted : Option Ty}
    (h : AssignTyped r target value noted) (pos : Pos) :
    lowerAssign c.erase .nowhere target.erase value.erase =
      Emit.erase id (lowerAssign c pos target value) := by
  obtain ⟨hplace, -, ty, hdata, htarget, hvalue, -⟩ := h
  have hv := lowerExpr_erase hc hvalue hdata
  cases htarget.typed with
  | @ident x sym refers =>
      obtain ⟨ty', hty, hfunc⟩ := htarget.isValue hdata
      obtain rfl : sym.type = ty' := Option.some.inj (refers.note.type.symm.trans hty)
      obtain ⟨-, hstored⟩ := refers.known.stored hfunc
      refine erase_bind hv fun _ => ?_
      exact resolved_bind_erase refers.symbol (store_erase hc hstored x.pos _)
  | @index _ array sym elem i _ refers type operand hused _ =>
      have hi : i.UsedAs r (.base .int) := ⟨operand, hused⟩
      rw [Expr.erase_index]
      refine erase_bind (lowerElement_erase hc refers type (lowerExpr_erase hc hi rfl)) fun _ => ?_
      exact erase_bind hv fun _ => (instr_succeeds _).erase
  | literal _ _ => cases hplace
  | unary _ _ _ _ => cases hplace
  | binary _ _ _ _ _ _ _ => cases hplace
  | call _ _ _ _ _ => cases hplace

theorem lowerVars_erase {vars : List Node} (h : ∀ n ∈ vars, n.TypedVar r) :
    lowerVars c.erase (vars.map Node.erase) = Emit.erase id (lowerVars c vars) := by
  induction vars with
  | nil => exact (Succeeds.pure _).erase
  | cons n rest ih =>
      have hrest := ih fun m hm => h m (List.mem_cons_of_mem _ hm)
      have hn := h n List.mem_cons_self
      unfold Node.TypedVar at hn
      split at hn
      · exact hrest
      · next pos x value noted =>
          exact erase_bind (lowerAssign_erase hc hn pos) fun _ => hrest
      · exact hn.elim

theorem lowerArray_erase {x : Ident} {sym : Symbol} {size : Expr} (hdecl : x.Declares r sym)
    (hsize : size.UsedAs r (.base .int)) :
    lowerArray c.erase (some x.erase) size.erase = Emit.erase id (lowerArray c (some x) size) := by
  refine resolved_bind_erase hdecl.symbol ?_
  refine erase_bind (erase_ofExcept sym.type.require_erase) fun _ => ?_
  refine erase_bind (lowerExpr_erase hc hsize rfl) fun _ => ?_
  refine erase_bind (define_succeeds _ _).erase fun _ => ?_
  have hstore : ∀ count, (allocate x.name count (elementSize sym.type.kind) >>=
      fun array => store c.erase .nowhere sym.erase array) =
      Emit.erase id (allocate x.name count (elementSize sym.type.kind) >>=
        fun array => store c x.pos sym array) := fun count =>
    erase_bind (allocate_succeeds _ _ _).erase fun _ => store_erase hc hdecl.stored x.pos _
  dsimp only
  rw [show sym.erase.type = sym.type from rfl]
  split
  · exact erase_bind (define_succeeds _ _).erase fun _ => hstore _
  · exact erase_bind (Succeeds.pure _).erase fun _ => hstore _

theorem lowerLoopCond_erase {cond inserted : Expr} (h : LoopCondTyped r cond inserted) :
    lowerLoopCond c.erase cond.erase inserted.erase =
      Emit.erase id (lowerLoopCond c cond inserted) := by
  unfold lowerLoopCond
  rw [Expr.isMissing_erase, Expr.isMissing_erase]
  rcases h with ⟨hcond, rfl⟩ | ⟨rfl, hins⟩
  · rw [hcond.typed.not_missing]
    exact lowerExpr_erase hc hcond rfl
  · rw [hins.typed.not_missing]
    exact lowerExpr_erase hc hins rfl

end

theorem lowerIf_erase {cond cond' : Emit Operand} {yes yes' no no' : Emit Unit}
    (hcond : cond' = Emit.erase id cond) (hyes : yes' = Emit.erase id yes)
    (hno : no' = Emit.erase id no) :
    lowerIf cond' yes' no' = Emit.erase id (lowerIf cond yes no) := by
  refine erase_bind nextControl_succeeds.erase fun _ => erase_bind hcond fun _ => ?_
  refine erase_bind (instr_succeeds _).erase fun _ => ?_
  refine erase_bind (label_succeeds _).erase fun _ => erase_bind hyes fun _ => ?_
  refine erase_bind (jump_succeeds _).erase fun _ => ?_
  refine erase_bind (label_succeeds _).erase fun _ => erase_bind hno fun _ => ?_
  exact erase_bind (jump_succeeds _).erase fun _ => (label_succeeds _).erase

theorem lowerLoop_erase {cond cond' : Emit Operand} {body body' step step' : Emit Unit}
    (hbody : body' = Emit.erase id body) (hstep : step' = Emit.erase id step)
    (hcond : cond' = Emit.erase id cond) :
    lowerLoop body' step' cond' = Emit.erase id (lowerLoop body step cond) := by
  refine erase_bind nextControl_succeeds.erase fun _ => ?_
  refine erase_bind (jump_succeeds _).erase fun _ => erase_bind (label_succeeds _).erase fun _ => ?_
  refine erase_bind hbody fun _ => erase_bind hstep fun _ => ?_
  refine erase_bind (jump_succeeds _).erase fun _ => erase_bind (label_succeeds _).erase fun _ => ?_
  refine erase_bind hcond fun _ => ?_
  exact erase_bind (instr_succeeds _).erase fun _ => (label_succeeds _).erase

theorem lowerPart_erase {c : Context} {r : Reach} {part : Stmt}
    (hpart : part = .missing ∨ part.Typed r)
    (h : part.Typed r → lowerStmt c.erase part.erase = Emit.erase id (lowerStmt c part)) :
    lowerPart c.erase part.erase = Emit.erase id (lowerPart c part) := by
  unfold lowerPart
  rw [Stmt.isMissing_erase]
  rcases hpart with rfl | hpart
  · rfl
  · split
    · rfl
    · exact h hpart

mutual

/-- The code of a typed statement does not depend on positions. -/
theorem lowerStmt_erase {c : Context} {r : Reach} (hc : c.function = r.function) :
    ∀ {stmt : Stmt}, stmt.Typed r →
      lowerStmt c.erase stmt.erase = Emit.erase id (lowerStmt c stmt)
  | .missing, h => h.elim
  | .call pos _ _ _, h => by
      cases h with
      | call refers type operands hused note_of =>
          obtain ⟨-, hparams, -⟩ := refers.known.signature type
          have hargs := lowerArgs_erase fun e he => lowerRaw_erase hc (operands e he)
            (Expr.isValue_of_argument hused hparams he (operands e he))
          rw [Stmt.erase_call, lowerStmt, lowerStmt]
          exact erase_bind (lowerCall_erase pos _ hargs) fun _ => rfl
  | .assign pos target value noted, h => by
      show lowerStmt c.erase (.assign .nowhere target.erase value.erase noted) = _
      rw [lowerStmt, lowerStmt]
      exact lowerAssign_erase hc h pos
  | .varDecl _ _ _, h => by
      rw [Stmt.erase_varDecl, lowerStmt, lowerStmt]
      exact lowerVars_erase hc h
  | .arrayDecl _ elem _ size, h => by
      obtain ⟨x, sym, _, rfl, hdecl, -, hsize⟩ := h
      show lowerStmt c.erase (.arrayDecl .nowhere (elem.map Ident.erase) (some x.erase)
        size.erase) = _
      rw [lowerStmt, lowerStmt]
      exact lowerArray_erase hc hdecl hsize
  | .ifElse _ cond yes no, h => by
      show lowerStmt c.erase (.ifElse .nowhere cond.erase yes.erase no.erase) = _
      rw [lowerStmt, lowerStmt]
      exact lowerIf_erase (lowerExpr_erase hc h.1 rfl) (lowerBlock_erase hc h.2.1)
        (lowerBlock_erase hc h.2.2)
  | .whileLoop _ cond body, h => by
      show lowerStmt c.erase (.whileLoop .nowhere cond.erase body.erase) = _
      rw [lowerStmt, lowerStmt]
      exact lowerLoop_erase (lowerBlock_erase hc h.2) (Succeeds.pure _).erase
        (lowerExpr_erase hc h.1 rfl)
  | .forLoop _ init cond inserted step body, h => by
      obtain ⟨hinit, hcond, hstep, hbody⟩ := h
      show lowerStmt c.erase (.forLoop .nowhere init.erase cond.erase inserted.erase step.erase
        body.erase) = _
      rw [lowerStmt_forLoop, lowerStmt_forLoop]
      refine erase_bind (lowerPart_erase hinit (lowerStmt_erase hc)) fun _ => ?_
      exact lowerLoop_erase (lowerBlock_erase hc hbody)
        (lowerPart_erase hstep (lowerStmt_erase hc)) (lowerLoopCond_erase hc hcond)
  | .block b, h => by
      show lowerStmt c.erase (.block b.erase) = _
      rw [lowerStmt, lowerStmt]
      exact lowerBlock_erase hc h
  | .funcDecl _ _ _ _ _ _ _, _ => rfl
  | .ret _ value, h => by
      obtain ⟨f, -, ⟨rfl, -⟩ | ⟨hdata, hv⟩⟩ := h
      · exact (instr_succeeds _).erase
      · show lowerStmt c.erase (.ret .nowhere value.erase) = _
        rw [lowerStmt, lowerStmt, Expr.isMissing_erase, hv.typed.not_missing]
        refine erase_bind (lowerExpr_erase hc hv hdata) fun _ => ?_
        exact erase_bind (erase_ofExcept value.typeOf_erase) fun _ => (instr_succeeds _).erase

/-- The code of a typed block does not depend on positions. -/
theorem lowerBlock_erase {c : Context} {r : Reach} (hc : c.function = r.function) :
    ∀ {b : Block}, b.Typed r → lowerBlock c.erase b.erase = Emit.erase id (lowerBlock c b)
  | .missing, _ => rfl
  | .of _ _, h => by
      rw [Block.erase_of, lowerBlock, lowerBlock]
      exact lowerStmts_erase hc h

/-- The code of typed statements does not depend on positions. -/
theorem lowerStmts_erase {c : Context} {r : Reach} (hc : c.function = r.function) :
    ∀ {stmts : List Stmt}, Stmt.AllTyped r stmts →
      lowerStmts c.erase (stmts.map Stmt.erase) = Emit.erase id (lowerStmts c stmts)
  | [], _ => rfl
  | _ :: _, h => by
      rw [List.map_cons, lowerStmts, lowerStmts]
      exact erase_bind (lowerStmt_erase hc h.1) fun _ => lowerStmts_erase hc h.2

end

/-- A definition without positions. -/
def Definition.erase (d : Definition) : Definition := ⟨d.origin.erase, d.code⟩

/-- A module without positions. -/
def Module.erase (m : Module) : Module :=
  ⟨m.name, m.globals.map Symbol.erase, m.used, m.definitions.map Definition.erase⟩

theorem lowerParams_erase (ids : List Symbol) :
    lowerParams (ids.map Symbol.erase) = Emit.erase id (lowerParams ids) := by
  induction ids with
  | nil => rfl
  | cons sym rest ih =>
      exact erase_bind (instr_succeeds _).erase fun _ =>
        erase_bind (instr_succeeds _).erase fun _ => ih

theorem lowerLocals_erase (ids : List Symbol) :
    lowerLocals (ids.map Symbol.erase) = Emit.erase id (lowerLocals ids) := by
  induction ids with
  | nil => rfl
  | cons sym rest ih =>
      refine erase_bind (erase_ofExcept sym.type.require_erase) fun _ => ?_
      exact erase_bind (instr_succeeds _).erase fun _ =>
        erase_bind (instr_succeeds _).erase fun _ => ih

theorem lowerFunction_erase {globals : List Symbol} {d : FuncDecl} {f : Function}
    (hbody : d.body.Typed ⟨globals, some f⟩) (fold initialized : Bool) :
    lowerFunction fold initialized d.erase f.erase =
      Emit.erase id (lowerFunction fold initialized d f) := by
  have hrest : (do
      lowerBlock (Context.erase ⟨fold, some f⟩) d.body.erase
      close (if f.result.isVoid then .ret none else .unreachable)) =
      Emit.erase id (do
        lowerBlock ⟨fold, some f⟩ d.body
        close (if f.result.isVoid then .ret none else .unreachable)) :=
    erase_bind (lowerBlock_erase (c := ⟨fold, some f⟩) rfl hbody) fun _ => (close_succeeds _).erase
  unfold lowerFunction
  refine erase_bind (label_succeeds _).erase fun _ => ?_
  refine erase_bind (lowerParams_erase f.params) fun _ => ?_
  rw [show d.erase.body.declared = d.body.declared.map Symbol.erase from
    Block.declared_erase d.body]
  refine erase_bind (lowerLocals_erase d.body.declared) fun _ => ?_
  rw [show f.erase.name = f.name from rfl]
  dsimp only
  split
  · exact erase_bind (instr_succeeds _).erase fun _ => hrest
  · exact hrest

theorem lowerInitializer_erase {globals : List Symbol} {b : Block} (h : b.Typed ⟨globals, none⟩)
    (fold : Bool) : lowerInitializer fold b.erase = Emit.erase id (lowerInitializer fold b) := by
  refine erase_bind (label_succeeds _).erase fun _ => ?_
  exact erase_bind (lowerBlock_erase (c := ⟨fold, none⟩) rfl h) fun _ => (close_succeeds _).erase

theorem lowerFunctions_erase {globals : List Symbol} {ds : List FuncDecl}
    (h : ∀ d ∈ ds, d.Typed globals) (fold initialized : Bool) (cur : Cursor) :
    lowerFunctions fold initialized cur (ds.map FuncDecl.erase) =
      Except.erase (Prod.map id (List.map Definition.erase))
        (lowerFunctions fold initialized cur ds) := by
  induction ds generalizing cur with
  | nil => rfl
  | cons d rest ih =>
      obtain ⟨f, hf, -, -, hbody⟩ := h d List.mem_cons_self
      have hdescribed : d.erase.described = .ok f.erase :=
        FuncDecl.described_ok_iff.2 (congrArg (Option.map Function.erase) hf)
      rw [List.map_cons, lowerFunctions, lowerFunctions]
      refine Except.erase_bind_ok (FuncDecl.described_ok_iff.2 hf) hdescribed ?_
      refine Except.erase_bind f.requireTypes_erase fun _ => ?_
      refine Except.erase_bind (congrFun (lowerFunction_erase hbody fold initialized) cur)
        fun out => ?_
      exact Except.erase_bind (ih (fun e he => h e (List.mem_cons_of_mem _ he)) out.cursor)
        fun _ => rfl

/-- A typed program without positions has the module of the program without positions. -/
theorem Module.ofAnalysis_erase {a : Analysis} (h : a.program.Typed ⟨a.globals, none⟩)
    (opts : Options) :
    Module.ofAnalysis a.erase opts = Except.erase Module.erase (Module.ofAnalysis a opts) := by
  obtain ⟨ds, hds, htyped⟩ := Block.Typed.functions h
  have hds' : a.erase.program.functions = .ok (ds.map FuncDecl.erase) := by
    rw [show a.erase.program = a.program.erase from rfl, Block.functions_erase, hds]
    rfl
  have htypes : a.erase.globals.map (·.type) = a.globals.map (·.type) := Symbol.types_erase a.globals
  have hrest : ∀ (cur : Cursor) (definitions more : List Definition), (do
      Ty.requireAll (a.erase.globals.map (·.type))
      return (⟨opts.name, a.erase.globals, cur.used,
        definitions.map Definition.erase ++ more.map Definition.erase⟩ : Module)) =
      Except.erase Module.erase (do
        Ty.requireAll (a.globals.map (·.type))
        return (⟨opts.name, a.globals, cur.used, definitions ++ more⟩ : Module)) := by
    intro cur definitions more
    rw [htypes, ← List.map_append]
    exact Except.erase_bind (Ty.requireAll_erase _) fun _ => rfl
  unfold Module.ofAnalysis
  refine Except.erase_bind (Analysis.needsInitializer_erase a.globals a.program)
    fun initialized => ?_
  refine Except.erase_bind_ok hds hds' ?_
  refine Except.erase_bind (lowerFunctions_erase htyped opts.fold initialized .start) fun p => ?_
  obtain ⟨cur, definitions⟩ := p
  cases initialized with
  | false => exact hrest cur definitions []
  | true =>
      exact Except.erase_bind (congrFun (lowerInitializer_erase h opts.fold) cur)
        fun out => hrest out.cursor definitions [⟨.initializer, out.code⟩]

theorem signature_erase (o : Origin) : signature o.erase = signature o := by
  cases o with
  | function f =>
      unfold signature Origin.erase
      dsimp only
      rw [show f.erase.params.map paramText = f.params.map paramText from List.map_map ..]
      rfl
  | initializer => rfl

theorem Definition.list_erase (l : Listing) (d : Definition) :
    Definition.list l d.erase = Definition.list l d := by
  unfold list
  rw [show d.erase.origin = d.origin.erase from rfl, signature_erase]
  rfl

theorem Module.decls_erase (m : Module) : m.erase.decls = m.decls := by
  unfold decls
  rw [show m.erase.support = m.support from rfl,
    show m.erase.globals.map globalDecl = m.globals.map globalDecl from List.map_map ..]

/-- The listing of a module does not show positions. -/
theorem Module.listing_erase (m : Module) : m.erase.listing = m.listing := by
  unfold listing
  dsimp only
  rw [Module.decls_erase, show m.erase.definitions = m.definitions.map Definition.erase from rfl,
    List.foldl_map]
  simp only [Definition.list_erase]
  rfl

end Llvm

/-! ## Both -/

/-- A typed program without positions is lowered to the same listing, for every target. -/
theorem Target.lower_erase {a : Analysis} (h : a.program.Typed ⟨a.globals, none⟩) (t : Target)
    (opts : Options) : t.lower a.erase opts = Except.erase id (t.lower a opts) := by
  have hcil : (Cil.Assembly.ofAnalysis a.erase opts).map Cil.Assembly.listing =
      Except.erase id ((Cil.Assembly.ofAnalysis a opts).map Cil.Assembly.listing) := by
    rw [Cil.Assembly.ofAnalysis_erase h]
    cases Cil.Assembly.ofAnalysis a opts with
    | error f => rfl
    | ok assembly => exact congrArg Except.ok assembly.listing_erase
  cases t with
  | cil => exact hcil
  | unnamed n => exact hcil
  | llvm =>
      unfold Target.lower
      rw [Llvm.Module.ofAnalysis_erase h]
      cases Llvm.Module.ofAnalysis a opts with
      | error f => rfl
      | ok module => exact congrArg Except.ok module.listing_erase

/-- A checked program has a listing, for every target. -/
theorem Target.lower_total {b : Block} {a : Analysis} (h : Analysis.ofProgram b = .ok a)
    (t : Target) (opts : Options) : Except.Succeeds (t.lower a opts) := by
  obtain ⟨htyped, -, hstatic⟩ := Analysis.ofProgram_checked h
  obtain ⟨pos, stmts, table, stmts', -, -, rfl⟩ := Analysis.ofProgram_ok h
  obtain ⟨assembly, hcil⟩ := Cil.Assembly.ofAnalysis_succeeds rfl htyped hstatic opts
  obtain ⟨module, hllvm⟩ := Llvm.Module.ofAnalysis_succeeds rfl htyped hstatic opts
  unfold Target.lower
  cases t with
  | cil | unnamed n => exact ⟨assembly.listing, by dsimp only; rw [hcil]; rfl⟩
  | llvm => exact ⟨module.listing, by dsimp only; rw [hllvm]; rfl⟩

/-- Two programs that are equal up to positions are both accepted or both rejected. If they are
accepted, then what is found out about them is equal up to positions, and they have the same
listings. If they are rejected, then the faults are equal up to positions. -/
theorem Analysis.positions_irrelevant {b b' : Block} (h : b.erase = b'.erase) :
    (∃ a a', Analysis.ofProgram b = .ok a ∧ Analysis.ofProgram b' = .ok a' ∧ a.erase = a'.erase ∧
      ∀ (t : Target) (opts : Options), ∃ listing,
        t.lower a opts = .ok listing ∧ t.lower a' opts = .ok listing) ∨
    (∃ f f', Analysis.ofProgram b = .error f ∧ Analysis.ofProgram b' = .error f' ∧
      f.erase = f'.erase ∧ f.isInternal = f'.isInternal ∧ ∀ k, f.hasKind k = f'.hasKind k) := by
  have hcheck : Except.erase Analysis.erase (Analysis.ofProgram b) =
      Except.erase Analysis.erase (Analysis.ofProgram b') := by
    rw [← Analysis.ofProgram_erase, ← Analysis.ofProgram_erase, h]
  cases hb : Analysis.ofProgram b with
  | error f =>
      cases hb' : Analysis.ofProgram b' with
      | ok a' =>
          rw [hb, hb'] at hcheck
          cases hcheck
      | error f' =>
          rw [hb, hb'] at hcheck
          have hf : f.erase = f'.erase := Except.error.inj hcheck
          refine .inr ⟨f, f', rfl, rfl, hf, ?_, fun k => ?_⟩
          · rw [← Fault.isInternal_erase f, hf, Fault.isInternal_erase]
          · rw [← Fault.hasKind_erase k f, hf, Fault.hasKind_erase]
  | ok a =>
      cases hb' : Analysis.ofProgram b' with
      | error f' =>
          rw [hb, hb'] at hcheck
          cases hcheck
      | ok a' =>
          rw [hb, hb'] at hcheck
          have ha : a.erase = a'.erase := Except.ok.inj hcheck
          refine .inl ⟨a, a', rfl, rfl, ha, fun t opts => ?_⟩
          have hlower := Target.lower_erase (Analysis.ofProgram_checked hb).1 t opts
          have hlower' := Target.lower_erase (Analysis.ofProgram_checked hb').1 t opts
          obtain ⟨listing, hlisting⟩ := Target.lower_total hb t opts
          obtain ⟨listing', hlisting'⟩ := Target.lower_total hb' t opts
          rw [hlisting] at hlower
          rw [hlisting', ← ha, hlower] at hlower'
          obtain rfl : listing = listing' := Except.ok.inj hlower'
          exact ⟨listing, hlisting, hlisting'⟩

/-- A function that converts its parameter to its result, with names in one place and everything
else in another, and the same function with no places at all. -/
theorem Analysis.positions_irrelevant_nowhere :
    let tree (p q : Pos) : Block := .of p [.funcDecl p (some { pos := p, name := "float" }) false
      (some { pos := q, name := "f" })
      (some ⟨p, [some ⟨p, some { pos := p, name := "int" }, some { pos := q, name := "a" }, false⟩]⟩)
      (.of p [.ret p (.ident { pos := q, name := "a" })]) none]
    ∃ a a', Analysis.ofProgram (tree ⟨1, 1⟩ ⟨1, 7⟩) = .ok a ∧
      Analysis.ofProgram (tree .nowhere .nowhere) = .ok a' ∧ a.erase = a'.erase ∧
      ∀ (t : Target) (opts : Options), ∃ listing,
        t.lower a opts = .ok listing ∧ t.lower a' opts = .ok listing := by
  intro tree
  have herase : (tree ⟨1, 1⟩ ⟨1, 7⟩).erase = (tree .nowhere .nowhere).erase := rfl
  rcases Analysis.positions_irrelevant herase with h | ⟨f, -, hf, -⟩
  · exact h
  · have haccepted : (Analysis.ofProgram (tree ⟨1, 1⟩ ⟨1, 7⟩)).toOption.isSome = true := by
      decide +kernel
    rw [hf] at haccepted
    cases haccepted

end SmallC
