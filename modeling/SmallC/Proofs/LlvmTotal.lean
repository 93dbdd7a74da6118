import SmallC.Llvm.Module
import SmallC.Proofs.TypedLowering

/-!
# A typed program has an LLVM module

The argument is that of the stack machine, with one difference. Steps that add
code depend on where the code stands, so that a step succeeds is to say that it
does so from wherever it starts. And a step yields something that later steps
look at: the code of a call asks for the first of its arguments, and pairs them
with the types of the parameters, so there must be as many of one as of the
other. `Emit.Yields` carries what is known of the result along.
-/

namespace SmallC.Llvm

namespace Emit

variable {α β : Type}

/-- A step that succeeds wherever it starts, with a result for which `P` holds. -/
def Yields (P : α → Prop) (x : Emit α) : Prop := ∀ c, ∃ out, x c = .ok out ∧ P out.value

/-- A step that succeeds wherever it starts. -/
def Succeeds (x : Emit α) : Prop := Yields (fun _ => True) x

theorem Yields.pure {P : α → Prop} {a : α} (h : P a) : Yields P (pure a : Emit α) :=
  fun c => ⟨⟨a, c, []⟩, rfl, h⟩

theorem Yields.bind {P : α → Prop} {Q : β → Prop} {x : Emit α} {f : α → Emit β} (h : Yields P x)
    (h' : ∀ a, P a → Yields Q (f a)) : Yields Q (x >>= f) := by
  intro c
  obtain ⟨first, hx, hP⟩ := h c
  obtain ⟨second, hf, hQ⟩ := h' first.value hP first.cursor
  exact ⟨_, bind_eq_ok_iff.2 ⟨first, second, hx, hf, rfl⟩, hQ⟩

theorem Succeeds.pure (a : α) : Succeeds (pure a : Emit α) := Yields.pure trivial

theorem Succeeds.bind {x : Emit α} {f : α → Emit β} (h : Succeeds x)
    (h' : ∀ a, Succeeds (f a)) : Succeeds (x >>= f) :=
  Yields.bind h fun a _ => h' a

theorem Succeeds.ofExcept_bind {x : Except Fault α} {f : α → Emit β} {a : α} (h : x = .ok a)
    (hf : Succeeds (f a)) : Succeeds (ofExcept x >>= f) := by
  subst h
  exact Yields.bind (P := (· = a)) (Yields.pure rfl) fun b hb => hb ▸ hf

theorem label_succeeds (l : Label) : Succeeds (label l) := fun _ => ⟨_, rfl, trivial⟩

theorem nextControl_succeeds : Succeeds nextControl := fun _ => ⟨_, rfl, trivial⟩

theorem use_succeeds (s : Support) : Succeeds (use s) := fun _ => ⟨_, rfl, trivial⟩

theorem register_succeeds (root : String) : Succeeds (register root) := fun _ => ⟨_, rfl, trivial⟩

theorem live_succeeds : Succeeds live := by
  intro c
  unfold live
  split
  · exact nextControl_succeeds.bind (fun n => label_succeeds (.after n)) c
  · exact ⟨_, rfl, trivial⟩

theorem instr_succeeds (i : Instr) : Succeeds (instr i) :=
  live_succeeds.bind fun _ _ => ⟨_, rfl, trivial⟩

theorem define_succeeds (root : String) (i : Reg → Instr) : Succeeds (define root i) :=
  (register_succeeds root).bind fun r => (instr_succeeds (i r)).bind fun _ => Succeeds.pure _

theorem close_succeeds (i : Instr) : Succeeds (close i) := by
  intro c
  unfold close
  split
  · exact ⟨_, rfl, trivial⟩
  · exact instr_succeeds i c

theorem jump_succeeds (l : Label) : Succeeds (jump l) := close_succeeds (.br l)

end Emit

open Emit

/-! ## The tables -/

theorem cast?_isSome {src dst : Base} (h : dst ∈ src.conversions) (hd : dst ≠ .bool) :
    (cast? src dst).isSome = true := by
  cases src <;> simp [Base.conversions] at h <;> rcases h with rfl | rfl | rfl <;>
    first | rfl | exact absurd rfl hd

theorem binaryOp?_isSome {op : Op} {x y : Ty} {r : Base} (h : op.Accepts x y r) :
    (binaryOp? op x).isSome = true := by
  unfold Op.Accepts at h
  split at h
  · next x y r =>
      unfold Op.result? at h
      split at h <;> first | rfl | cases h
  · obtain ⟨-, rfl | rfl, -⟩ := h <;> rfl
  · exact h.elim

theorem print_succeeds (format : Support) (x : Typed) : Succeeds (print format x) :=
  (use_succeeds _).bind fun _ => (use_succeeds _).bind fun _ => instr_succeeds _

theorem scan_succeeds (format place : Support) (type : IrType) :
    Succeeds (scan format place type) :=
  (use_succeeds _).bind fun _ => (use_succeeds _).bind fun _ => (use_succeeds _).bind fun _ =>
    (instr_succeeds _).bind fun _ => define_succeeds _ _

theorem allocate_succeeds (root : String) (count : Operand) (size : Nat) :
    Succeeds (allocate root count size) :=
  (use_succeeds _).bind fun _ => define_succeeds _ _

/-- A builtin function has code for as many arguments as it has parameters. -/
theorem builtin?_succeeds {sym : Symbol} (h : sym ∈ Symbol.builtins) {result : Ty}
    {params : List Ty} (hty : sym.type = .func result params) {args : List Operand}
    (hargs : args.length = params.length) :
    ∃ code, builtin? sym.name args = some code ∧ Succeeds code := by
  simp only [Symbol.builtins, List.mem_cons, List.not_mem_nil, or_false] at h
  rcases h with rfl | rfl | rfl | rfl | rfl | rfl | rfl | rfl | rfl | rfl <;> cases hty
  -- What prints has one argument, what reads has none.
  case inl | inr.inl | inr.inr.inr.inr.inl =>
    obtain ⟨x, rfl⟩ := List.length_eq_one_iff.1 hargs
    exact ⟨_, rfl, (Succeeds.pure x).bind fun _ => (print_succeeds _ _).bind fun _ =>
      Succeeds.pure _⟩
  case inr.inr.inl =>
    obtain ⟨x, rfl⟩ := List.length_eq_one_iff.1 hargs
    exact ⟨_, rfl, (Succeeds.pure x).bind fun _ => (define_succeeds _ _).bind fun _ =>
      (print_succeeds _ _).bind fun _ => Succeeds.pure _⟩
  case inr.inr.inr.inl =>
    obtain ⟨x, rfl⟩ := List.length_eq_one_iff.1 hargs
    exact ⟨_, rfl, (Succeeds.pure x).bind fun _ => (use_succeeds _).bind fun _ =>
      (use_succeeds _).bind fun _ => (define_succeeds _ _).bind fun _ =>
        (print_succeeds _ _).bind fun _ => Succeeds.pure _⟩
  · exact ⟨_, rfl, scan_succeeds _ _ _⟩
  · exact ⟨_, rfl, scan_succeeds _ _ _⟩
  · exact ⟨_, rfl, scan_succeeds _ _ _⟩
  · exact ⟨_, rfl, (scan_succeeds _ _ _).bind fun _ => define_succeeds _ _⟩
  · exact ⟨_, rfl, (allocate_succeeds _ _ _).bind fun _ => (use_succeeds _).bind fun _ =>
      (use_succeeds _).bind fun _ => (instr_succeeds _).bind fun _ => Succeeds.pure _⟩

/-! ## Expressions -/

theorem convert_succeeds {ty : Ty} {dst : Base} (h : dst ∈ ty.conversions) (pos : Pos)
    (x : Operand) : Succeeds (convert pos (some ty) dst x) := by
  cases ty with
  | base src =>
      show Succeeds (convertBase pos src dst x)
      unfold convertBase
      split
      · exact Succeeds.pure _
      · split
        · split
          · exact define_succeeds _ _
          · exact define_succeeds _ _
        · next hd =>
            obtain ⟨op, hop⟩ := Option.isSome_iff_exists.1 (cast?_isSome h hd)
            rw [hop]
            exact define_succeeds _ _
  | array b => cases h
  | func r ps => cases h
  | absent => cases h

section

variable {c : Context}

theorem plain_succeeds {e : Expr} {raw : Emit Operand} (h : Succeeds raw) :
    Succeeds (plain c e raw) := by
  unfold plain
  split
  · exact h
  · split
    · exact Succeeds.pure _
    · exact h

theorem used_succeeds {r : Reach} {e : Expr} {raw : Emit Operand} (he : e.Typed r)
    (h : Succeeds raw) : Succeeds (used c e raw) := by
  unfold used
  split
  · exact plain_succeeds h
  · next conv hconv =>
      split
      · exact Succeeds.pure _
      · obtain ⟨ty, hof⟩ := he.note_of
        refine (plain_succeeds h).bind fun x => ?_
        rw [hof.type]
        exact convert_succeeds (hof.conv conv hconv).2 e.pos x

theorem typedArgs_ok {params : List Ty} {args : List Operand} (place : Nat)
    (hargs : args.length = params.length) (hparams : ∀ p ∈ params, p.isData = true) :
    Except.Succeeds (typedArgs place params args) := by
  induction params generalizing args place with
  | nil =>
      obtain rfl := List.length_eq_zero_iff.1 hargs
      exact .ok _
  | cons p ps ih =>
      cases args with
      | nil => cases hargs
      | cons x xs =>
          rw [typedArgs, Ty.require_ok (Ty.isResult_of_isData (hparams p List.mem_cons_self))]
          refine (ih (place + 1) (Nat.succ.inj hargs) fun q hq =>
            hparams q (List.mem_cons_of_mem _ hq)).bind fun _ _ => .ok _

theorem lowerCall_succeeds {r : Reach} {func : Ident} {sym : Symbol} {result : Ty}
    {params : List Ty} {args : Emit (List Operand)} (hrefers : func.Refers r sym)
    (hty : sym.type = .func result params)
    (hargs : Yields (fun xs => xs.length = params.length) args) (pos : Pos) :
    Succeeds (lowerCall pos (some func) args) := by
  obtain ⟨hresult, hparams, hbuiltin⟩ := hrefers.known.signature hty
  unfold lowerCall
  refine Succeeds.ofExcept_bind (Ident.callee_ok hrefers.symbol hty pos) ?_
  refine hargs.bind fun xs hxs => ?_
  split
  · next hb =>
      obtain ⟨code, hcode, hsucc⟩ := builtin?_succeeds (hbuiltin hb) hty hxs
      dsimp only
      rw [hcode]
      exact hsucc
  · obtain ⟨typed, htyped⟩ := typedArgs_ok 0 hxs hparams
    refine Succeeds.ofExcept_bind htyped (Succeeds.ofExcept_bind (Ty.require_ok hresult) ?_)
    dsimp only
    split
    · exact (instr_succeeds _).bind fun _ => Succeeds.pure _
    · exact define_succeeds _ _

theorem lowerArgs_yields {r : Reach} {args : List Expr} (htyped : ∀ e ∈ args, e.Typed r)
    (h : ∀ e ∈ args, Succeeds (lowerRaw c e)) :
    Yields (fun xs => xs.length = args.length) (lowerArgs c args) := by
  induction args with
  | nil => exact Yields.pure rfl
  | cons e rest ih =>
      rw [lowerArgs]
      have he := used_succeeds (c := c) (htyped e List.mem_cons_self) (h e List.mem_cons_self)
      refine Yields.bind he fun x _ => ?_
      refine (ih (fun y hy => htyped y (List.mem_cons_of_mem _ hy))
        fun y hy => h y (List.mem_cons_of_mem _ hy)).bind fun xs hxs => ?_
      exact Yields.pure (by rw [List.length_cons, List.length_cons, hxs])

variable {r : Reach} (hc : c.function = r.function)

include hc

theorem address_succeeds {id : Symbol} (hd : id.type.isData = true) (h : id.Stored r) (pos : Pos) :
    Except.Succeeds (address c pos id) := by
  have hplace := h.place hc hd
  unfold address
  split
  · exact .ok _
  · split
    · exact .ok _
    · simp_all

theorem load_succeeds {id : Symbol} (hd : id.type.isData = true) (h : id.Stored r) (pos : Pos) :
    Succeeds (load c pos id) := by
  obtain ⟨addr, haddr⟩ := address_succeeds hc hd h pos
  refine Succeeds.ofExcept_bind (Ty.require_ok (Ty.isResult_of_isData hd)) ?_
  exact Succeeds.ofExcept_bind haddr (define_succeeds _ _)

theorem store_succeeds {id : Symbol} (hd : id.type.isData = true) (h : id.Stored r) (pos : Pos)
    (value : Operand) : Succeeds (store c pos id value) := by
  obtain ⟨addr, haddr⟩ := address_succeeds hc hd h pos
  refine Succeeds.ofExcept_bind (Ty.require_ok (Ty.isResult_of_isData hd)) ?_
  exact Succeeds.ofExcept_bind haddr (instr_succeeds _)

theorem lowerElement_succeeds {array : Ident} {sym : Symbol} {elem : Base} {index : Emit Operand}
    (hrefers : array.Refers r sym) (hty : sym.type = .array elem) (hindex : Succeeds index) :
    Succeeds (lowerElement c (some array) index) := by
  obtain ⟨hdata, hstored⟩ := hrefers.known.element hty
  unfold lowerElement
  refine Succeeds.ofExcept_bind (Ident.resolved_ok hrefers.symbol) ?_
  refine (load_succeeds hc hdata hstored _).bind fun _ => hindex.bind fun _ => ?_
  exact (define_succeeds _ _).bind fun _ => Succeeds.pure _

/-- A typed expression has code, unless it is the name of a function. -/
theorem lowerRaw_succeeds {e : Expr} (h : e.Typed r) : e.IsValue → Succeeds (lowerRaw c e) := by
  induction h with
  | literal decoded note_of => exact fun _ => (Succeeds.pure _).bind fun _ => Succeeds.pure _
  | @ident id sym refers =>
      intro hv
      obtain ⟨ty, hty, hfunc⟩ := hv
      obtain rfl : sym.type = ty := Option.some.inj (refers.note.type.symm.trans hty)
      obtain ⟨hdata, hstored⟩ := refers.known.stored hfunc
      rw [lowerRaw]
      exact Succeeds.ofExcept_bind (Ident.resolved_ok refers.symbol)
        (load_succeeds hc hdata hstored _)
  | @unary _ op x _ ty operand husedType numeric _ ih =>
      intro _
      have hx := operand.isValue husedType (by rcases numeric with rfl | ⟨rfl, -⟩ <;> rfl)
      rw [lowerRaw]
      refine (used_succeeds operand (ih hx)).bind fun _ => ?_
      split
      · exact Succeeds.pure _
      · refine Succeeds.ofExcept_bind (Expr.typeOf_ok husedType) ?_
        split
        · exact define_succeeds _ _
        · exact define_succeeds _ _
  | binary left right usedLeft usedRight accepts _ _ ihx ihy =>
      intro _
      have hx := left.isValue usedLeft accepts.isData.1
      have hy := right.isValue usedRight accepts.isData.2
      rw [lowerRaw]
      refine (used_succeeds left (ihx hx)).bind fun _ => ?_
      refine (used_succeeds right (ihy hy)).bind fun _ => ?_
      refine Succeeds.ofExcept_bind (Expr.typeOf_ok usedLeft) ?_
      obtain ⟨op, hop⟩ := Option.isSome_iff_exists.1 (binaryOp?_isSome accepts)
      rw [hop]
      exact define_succeeds _ _
  | @index _ array sym elem _ _ refers type operand husedType _ ih =>
      intro _
      rw [lowerRaw]
      have hi := used_succeeds (c := c) operand (ih (operand.isValue husedType rfl))
      exact (lowerElement_succeeds hc refers type hi).bind fun _ => define_succeeds _ _
  | @call _ _ sym _ params args _ refers type operands husedType _ ih =>
      intro _
      obtain ⟨-, hparams, -⟩ := refers.known.signature type
      have hlength : args.length = params.length := by
        simpa using congrArg List.length husedType
      rw [lowerRaw]
      refine lowerCall_succeeds refers type ?_ _
      rw [← hlength]
      refine lowerArgs_yields operands fun e he => ?_
      exact ih e he (Expr.isValue_of_argument husedType hparams he (operands e he))

theorem lowerExpr_succeeds {e : Expr} {ty : Ty} (h : e.UsedAs r ty) (hty : ty.isData = true) :
    Succeeds (lowerExpr c e) :=
  used_succeeds h.typed (lowerRaw_succeeds hc h.typed (h.isValue hty))

/-! ## Statements -/

theorem lowerAssign_succeeds {target value : Expr} {noted : Option Ty}
    (h : AssignTyped r target value noted) (pos : Pos) :
    Succeeds (lowerAssign c pos target value) := by
  obtain ⟨hplace, -, ty, hdata, htarget, hvalue, -⟩ := h
  have hv := lowerExpr_succeeds hc hvalue hdata
  cases htarget.typed with
  | @ident id sym refers =>
      obtain ⟨ty', hty, hfunc⟩ := htarget.isValue hdata
      obtain rfl : sym.type = ty' := Option.some.inj (refers.note.type.symm.trans hty)
      obtain ⟨hsym, hstored⟩ := refers.known.stored hfunc
      refine hv.bind fun x => ?_
      exact Succeeds.ofExcept_bind (Ident.resolved_ok refers.symbol)
        (store_succeeds hc hsym hstored _ x)
  | @index _ array sym elem i _ refers type operand hused _ =>
      have hi : i.UsedAs r (.base .int) := ⟨operand, hused⟩
      refine (lowerElement_succeeds hc refers type (lowerExpr_succeeds hc hi rfl)).bind fun _ => ?_
      exact hv.bind fun _ => instr_succeeds _
  | literal _ _ => cases hplace
  | unary _ _ _ _ => cases hplace
  | binary _ _ _ _ _ _ _ => cases hplace
  | call _ _ _ _ _ => cases hplace

theorem lowerVars_succeeds {vars : List Node} (h : ∀ n ∈ vars, n.TypedVar r) :
    Succeeds (lowerVars c vars) := by
  induction vars with
  | nil => exact Succeeds.pure _
  | cons n rest ih =>
      have hrest := ih fun m hm => h m (List.mem_cons_of_mem _ hm)
      have hn := h n List.mem_cons_self
      unfold Node.TypedVar at hn
      split at hn
      · exact hrest
      · rw [lowerVars]
        exact (lowerAssign_succeeds hc hn _).bind fun _ => hrest
      · exact hn.elim

theorem lowerArray_succeeds {id : Ident} {sym : Symbol} {size : Expr} (hdecl : id.Declares r sym)
    (hsize : size.UsedAs r (.base .int)) : Succeeds (lowerArray c (some id) size) := by
  unfold lowerArray
  refine Succeeds.ofExcept_bind (Ident.resolved_ok hdecl.symbol) ?_
  refine Succeeds.ofExcept_bind (Ty.require_ok (Ty.isResult_of_isData hdecl.isData)) ?_
  refine (lowerExpr_succeeds hc hsize rfl).bind fun _ => (define_succeeds _ _).bind fun _ => ?_
  have hstore : ∀ count, Succeeds (allocate id.name count (elementSize sym.type.kind) >>=
      fun array => store c id.pos sym array) := fun count =>
    (allocate_succeeds _ _ _).bind fun _ => store_succeeds hc hdecl.isData hdecl.stored _ _
  dsimp only
  split
  · exact (define_succeeds _ _).bind fun _ => hstore _
  · exact (Succeeds.pure _).bind fun _ => hstore _

theorem lowerLoopCond_succeeds {cond inserted : Expr} (h : LoopCondTyped r cond inserted) :
    Succeeds (lowerLoopCond c cond inserted) := by
  unfold lowerLoopCond
  rcases h with ⟨hcond, rfl⟩ | ⟨rfl, hins⟩
  · rw [hcond.typed.not_missing]
    exact lowerExpr_succeeds hc hcond rfl
  · rw [hins.typed.not_missing]
    exact lowerExpr_succeeds hc hins rfl

omit hc in
theorem lowerIf_succeeds {cond : Emit Operand} {yes no : Emit Unit} (hcond : Succeeds cond)
    (hyes : Succeeds yes) (hno : Succeeds no) : Succeeds (lowerIf cond yes no) := by
  unfold lowerIf
  refine nextControl_succeeds.bind fun n => hcond.bind fun x => (instr_succeeds _).bind fun _ => ?_
  refine (label_succeeds _).bind fun _ => hyes.bind fun _ => (jump_succeeds _).bind fun _ => ?_
  refine (label_succeeds _).bind fun _ => hno.bind fun _ => (jump_succeeds _).bind fun _ => ?_
  exact label_succeeds _

omit hc in
theorem lowerLoop_succeeds {cond : Emit Operand} {body step : Emit Unit} (hbody : Succeeds body)
    (hstep : Succeeds step) (hcond : Succeeds cond) : Succeeds (lowerLoop body step cond) := by
  unfold lowerLoop
  refine nextControl_succeeds.bind fun n => (jump_succeeds _).bind fun _ => ?_
  refine (label_succeeds _).bind fun _ => hbody.bind fun _ => hstep.bind fun _ => ?_
  refine (jump_succeeds _).bind fun _ => (label_succeeds _).bind fun _ => hcond.bind fun x => ?_
  exact (instr_succeeds _).bind fun _ => label_succeeds _

end

/-- The code of a part of a loop that may be absent. -/
def lowerPart (c : Context) (part : Stmt) : Emit Unit :=
  if part.isMissing then return () else lowerStmt c part

theorem lowerStmt_forLoop (c : Context) (pos : Pos) (init step : Stmt) (cond inserted : Expr)
    (body : Block) :
    lowerStmt c (.forLoop pos init cond inserted step body) = (do
      lowerPart c init
      lowerLoop (lowerBlock c body) (lowerPart c step) (lowerLoopCond c cond inserted)) := by
  rw [lowerStmt]
  unfold lowerPart
  cases init.isMissing with
  | true => simp only [Bool.not_true, Bool.false_eq_true, if_false, if_true, pure_bind]
  | false => rfl

mutual

/-- A typed statement has code. -/
theorem lowerStmt_succeeds {c : Context} {r : Reach} (hc : c.function = r.function) :
    ∀ {stmt : Stmt}, stmt.Typed r → Succeeds (lowerStmt c stmt)
  | .missing, h => h.elim
  | .call pos _ args _, h => by
      cases h with
      | @call _ _ _ _ params _ _ refers type operands hused note_of =>
          obtain ⟨-, hparams, -⟩ := refers.known.signature type
          have hlength : args.length = params.length := by
            simpa using congrArg List.length hused
          have hargs := lowerArgs_yields operands fun e he => lowerRaw_succeeds hc (operands e he)
            (Expr.isValue_of_argument hused hparams he (operands e he))
          rw [hlength] at hargs
          rw [lowerStmt]
          exact (lowerCall_succeeds refers type hargs pos).bind fun _ => Succeeds.pure _
  | .assign _ _ _ _, h => by
      rw [lowerStmt]
      exact lowerAssign_succeeds hc h _
  | .varDecl _ _ _, h => by
      rw [lowerStmt]
      exact lowerVars_succeeds hc h
  | .arrayDecl _ _ _ _, h => by
      obtain ⟨id, sym, elem, rfl, hdecl, -, hsize⟩ := h
      rw [lowerStmt]
      exact lowerArray_succeeds hc hdecl hsize
  | .ifElse _ _ _ _, h => by
      rw [lowerStmt]
      exact lowerIf_succeeds (lowerExpr_succeeds hc h.1 rfl) (lowerBlock_succeeds hc h.2.1)
        (lowerBlock_succeeds hc h.2.2)
  | .whileLoop _ _ _, h => by
      rw [lowerStmt]
      exact lowerLoop_succeeds (lowerBlock_succeeds hc h.2) (Succeeds.pure _)
        (lowerExpr_succeeds hc h.1 rfl)
  | .forLoop _ init _ _ step _, h => by
      obtain ⟨hinit, hcond, hstep, hbody⟩ := h
      have hi : Succeeds (lowerPart c init) := by
        rcases hinit with rfl | hinit
        · exact Succeeds.pure _
        · unfold lowerPart
          split
          · exact Succeeds.pure _
          · exact lowerStmt_succeeds hc hinit
      have hst : Succeeds (lowerPart c step) := by
        rcases hstep with rfl | hstep
        · exact Succeeds.pure _
        · unfold lowerPart
          split
          · exact Succeeds.pure _
          · exact lowerStmt_succeeds hc hstep
      rw [lowerStmt_forLoop]
      refine hi.bind fun _ => ?_
      exact lowerLoop_succeeds (lowerBlock_succeeds hc hbody) hst (lowerLoopCond_succeeds hc hcond)
  | .block _, h => by
      rw [lowerStmt]
      exact lowerBlock_succeeds hc h
  | .funcDecl _ _ _ _ _ _ _, _ => by
      rw [lowerStmt]
      exact Succeeds.pure _
  | .ret _ value, h => by
      obtain ⟨f, -, ⟨rfl, -⟩ | ⟨hdata, hv⟩⟩ := h
      · exact instr_succeeds _
      · rw [lowerStmt, hv.typed.not_missing]
        refine (lowerExpr_succeeds hc hv hdata).bind fun _ => ?_
        exact Succeeds.ofExcept_bind (Expr.typeOf_ok hv.used) (instr_succeeds _)

/-- A typed block has code. -/
theorem lowerBlock_succeeds {c : Context} {r : Reach} (hc : c.function = r.function) :
    ∀ {b : Block}, b.Typed r → Succeeds (lowerBlock c b)
  | .missing, _ => by
      rw [lowerBlock]
      exact Succeeds.pure _
  | .of _ _, h => by
      rw [lowerBlock]
      exact lowerStmts_succeeds hc h

/-- Typed statements have code. -/
theorem lowerStmts_succeeds {c : Context} {r : Reach} (hc : c.function = r.function) :
    ∀ {stmts : List Stmt}, Stmt.AllTyped r stmts → Succeeds (lowerStmts c stmts)
  | [], _ => by
      rw [lowerStmts]
      exact Succeeds.pure _
  | _ :: _, h => by
      rw [lowerStmts]
      exact (lowerStmt_succeeds hc h.1).bind fun _ => lowerStmts_succeeds hc h.2

end

/-! ## Modules -/

theorem lowerParams_succeeds (ids : List Symbol) : Succeeds (lowerParams ids) := by
  induction ids with
  | nil => exact Succeeds.pure _
  | cons id rest ih => exact (instr_succeeds _).bind fun _ => (instr_succeeds _).bind fun _ => ih

theorem lowerLocals_succeeds {ids : List Symbol} (h : ∀ id ∈ ids, id.type.isData = true) :
    Succeeds (lowerLocals ids) := by
  induction ids with
  | nil => exact Succeeds.pure _
  | cons id rest ih =>
      have hid := Ty.require_ok (Ty.isResult_of_isData (h id List.mem_cons_self))
      refine Succeeds.ofExcept_bind hid ?_
      refine (instr_succeeds _).bind fun _ => (instr_succeeds _).bind fun _ => ?_
      exact ih fun x hx => h x (List.mem_cons_of_mem _ hx)

theorem lowerFunction_succeeds {globals : List Symbol} {d : FuncDecl} {f : Function}
    (hplaced : f.Placed) (hlocals : f.locals = d.body.declared)
    (hbody : d.body.Typed ⟨globals, some f⟩) (fold initialized : Bool) :
    Succeeds (lowerFunction fold initialized d f) := by
  have hdeclared : Succeeds (lowerLocals d.body.declared) := by
    rw [← hlocals]
    exact lowerLocals_succeeds fun id hid => hplaced.locals.isData hid
  have hrest : Succeeds (do
      lowerBlock ⟨fold, some f⟩ d.body
      close (if f.result.isVoid then .ret none else .unreachable)) :=
    (lowerBlock_succeeds (c := ⟨fold, some f⟩) rfl hbody).bind fun _ => close_succeeds _
  unfold lowerFunction
  refine (label_succeeds _).bind fun _ => (lowerParams_succeeds _).bind fun _ => ?_
  refine hdeclared.bind fun _ => ?_
  dsimp only
  split
  · exact (instr_succeeds _).bind fun _ => hrest
  · exact hrest

theorem lowerFunctions_succeeds {globals : List Symbol} {ds : List FuncDecl}
    (h : ∀ d ∈ ds, d.Typed globals) (fold initialized : Bool) (cur : Cursor) :
    Except.Succeeds (lowerFunctions fold initialized cur ds) := by
  induction ds generalizing cur with
  | nil => exact .ok _
  | cons d rest ih =>
      obtain ⟨f, hf, hplaced, hlocals, hbody⟩ := h d List.mem_cons_self
      obtain ⟨out, hout, -⟩ :=
        lowerFunction_succeeds hplaced hlocals hbody fold initialized cur
      rw [lowerFunctions, FuncDecl.described_ok_iff.2 hf]
      show Except.Succeeds (f.requireTypes >>= _)
      rw [hplaced.requireTypes_ok]
      show Except.Succeeds (lowerFunction fold initialized d f cur >>= _)
      rw [hout]
      exact (ih (fun e he => h e (List.mem_cons_of_mem _ he)) _).bind fun _ _ => .ok _

theorem lowerInitializer_succeeds {globals : List Symbol} {b : Block}
    (h : b.Typed ⟨globals, none⟩) (fold : Bool) : Succeeds (lowerInitializer fold b) := by
  refine (label_succeeds _).bind fun _ => ?_
  exact (lowerBlock_succeeds (c := ⟨fold, none⟩) rfl h).bind fun _ => close_succeeds _

/-- A typed program has a module. -/
theorem Module.ofAnalysis_succeeds {a : Analysis} {pos : Pos} {stmts : List Stmt}
    (hb : a.program = .of pos stmts) (h : a.program.Typed ⟨a.globals, none⟩)
    (hstatic : Symbol.Static a.globals) (opts : Options) :
    Except.Succeeds (Module.ofAnalysis a opts) := by
  obtain ⟨ds, hds, htyped⟩ := Block.Typed.functions h
  have hneeds : Except.Succeeds (Analysis.needsInitializer a.globals a.program) := by
    rw [hb]
    exact .ok _
  unfold Module.ofAnalysis
  refine hneeds.bind fun initialized _ => ?_
  rw [hds]
  refine (lowerFunctions_succeeds htyped opts.fold initialized .start).bind fun pair _ => ?_
  have hrest : ∀ last : Cursor × List Definition, Except.Succeeds (do
      Ty.requireAll (a.globals.map (·.type))
      return (⟨opts.name, a.globals, last.1.used, pair.2 ++ last.2⟩ : Module) :
        Except Fault Module) := by
    intro last
    rw [hstatic.requireAll_ok]
    exact .ok _
  cases initialized with
  | false => exact hrest (pair.1, [])
  | true =>
      obtain ⟨out, hout, -⟩ := lowerInitializer_succeeds h opts.fold pair.1
      show Except.Succeeds (lowerInitializer opts.fold a.program pair.1 >>= _)
      rw [hout]
      exact hrest (out.cursor, [⟨.initializer, out.code⟩])

/-! ## What a module is put together from -/

theorem lowerFunctions_cons_ok {fold initialized : Bool} {d : FuncDecl} {rest : List FuncDecl}
    {cur cur' : Cursor} {definitions : List Definition}
    (h : lowerFunctions fold initialized cur (d :: rest) = .ok (cur', definitions)) :
    ∃ f out more, d.described = .ok f ∧ lowerFunction fold initialized d f cur = .ok out ∧
      lowerFunctions fold initialized out.cursor rest = .ok (cur', more) ∧
      definitions = ⟨.function f, out.code⟩ :: more := by
  simp only [lowerFunctions, Except.bind_eq_ok_iff] at h
  obtain ⟨f, hf, -, -, out, hout, ⟨_, more⟩, hmore, h⟩ := h
  cases h
  exact ⟨f, out, more, hf, hout, hmore, rfl⟩

/-- The definitions of the functions come first, and after them that of the initializer, if one is
needed. -/
theorem Module.ofAnalysis_ok {a : Analysis} {opts : Options} {m : Module}
    (h : Module.ofAnalysis a opts = .ok m) :
    ∃ ds initialized cur definitions, a.program.functions = .ok ds ∧
      Analysis.needsInitializer a.globals a.program = .ok initialized ∧
      lowerFunctions opts.fold initialized .start ds = .ok (cur, definitions) ∧
      (m.name = opts.name ∧ m.globals = a.globals) ∧
      (initialized = true ∧ (∃ out, lowerInitializer opts.fold a.program cur = .ok out ∧
          m.used = out.cursor.used ∧ m.definitions = definitions ++ [⟨.initializer, out.code⟩]) ∨
        initialized = false ∧ m.used = cur.used ∧ m.definitions = definitions) := by
  simp only [Module.ofAnalysis, Except.bind_eq_ok_iff] at h
  obtain ⟨initialized, hinit, ds, hds, ⟨cur, definitions⟩, hfunctions, h⟩ := h
  refine ⟨ds, initialized, cur, definitions, hds, hinit, hfunctions, ?_⟩
  split at h
  · next hneeded =>
      simp only [Except.bind_eq_ok_iff] at h
      obtain ⟨out, hout, initializer, heq, -, -, h⟩ := h
      cases heq
      cases h
      exact ⟨⟨rfl, rfl⟩, .inl ⟨hneeded, out, hout, rfl, rfl⟩⟩
  · next hneeded =>
      simp only [Except.bind_eq_ok_iff] at h
      obtain ⟨initializer, heq, -, -, h⟩ := h
      cases heq
      cases h
      exact ⟨⟨rfl, rfl⟩, .inr ⟨Bool.eq_false_iff.2 hneeded, rfl, List.append_nil _⟩⟩

end SmallC.Llvm
