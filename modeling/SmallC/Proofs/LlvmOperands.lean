import SmallC.Proofs.Kinds
import SmallC.Proofs.LlvmBlocks

/-!
# Operands are defined before they are used

Lowering hands operands around as names. An operand is yielded by one step and
used by another, with the code of other expressions in between, and nothing in
the type of an operand says where or at which type it was defined. This file says
so for all of them: a register is defined by an earlier instruction of the same
block, at the type at which it is used.

What could go wrong is a label in between, since an instruction that follows one
that has left its block puts one down. It does not go wrong because a register is
only ever yielded where the block is open, and the code of an expression leaves
an open block open. A constant needs no such care. `Operand.Ready` is what is
true of an operand from the moment it is yielded to the moment it is used, and
`Emit.Makes` carries it through the steps, together with the code so far.
-/

namespace SmallC

namespace Llvm

open Emit

/-! ## Operands and the code before them -/

/-- The type of what an instruction on two operands of a type computes. -/
def BinOp.resultType (op : BinOp) (type : IrType) : IrType :=
  match op with
  | icmp _ | fcmp _ => .i1
  | _ => type

/-- The type of the register that an instruction defines. -/
def Instr.resultType : Instr → IrType
  | load _ type _ | cast _ _ _ type => type
  | binary _ op x _ => op.resultType x.type
  | fneg _ _ => .double
  | element _ _ _ _ | select _ _ _ _ => .ptr
  | call _ result _ _ _ => result
  | label _ | alloca _ _ | store _ _ | br _ | condBr _ _ _ | ret _ | unreachable => .void

/-- The constants of a type. An integer must be one that the type has, read as signed. -/
def Operand.ConstantOf (type : IrType) : Operand → Prop
  | int n =>
    type = .i32 ∧ wrap 32 n = n ∨ type = .i8 ∧ wrap 8 n = n ∨ type = .i64 ∧ wrap 64 n = n
  | bool _ => type = .i1
  | float _ => type = .double
  | zero t => t = type ∧ type ≠ .void ∧ type ≠ .unknown
  | global _ => type = .ptr
  | nothing | reg _ | arg _ | slot _ => False

/-- The code defines a register at a type, and its block goes on from there to the end. -/
def Defined (code : List Instr) (q : Reg) (type : IrType) : Prop :=
  ∃ before i between, code = before ++ i :: between ∧ i.dest? = some q ∧ i.resultType = type ∧
    ∀ j ∈ between, j.label? = none ∧ j.isTerminator = false

/-- The first block of the code makes a place for a parameter or a local. -/
def Placed (code : List Instr) (name : String) : Prop :=
  ∃ before type rest, code = .label .entry :: (before ++ .alloca name type :: rest) ∧
    ∀ i ∈ before, i.label? = none ∧ i.isTerminator = false

/-- What an expression can yield: a constant of a type, or a register that the code before it
defines at that type, in the same block. -/
def Operand.Result (code : List Instr) (type : IrType) (x : Operand) : Prop :=
  x.ConstantOf type ∨ ∃ q, x = .reg q ∧ Defined code q type

/-- What an instruction can use at a type after some code of a function. -/
inductive Operand.Valid (params : List Symbol) (code : List Instr) (type : IrType) :
    Operand → Prop where
  | result {x : Operand} (result : x.Result code type) : Valid params code type x
  | arg {id : Symbol} (param : id ∈ params) (passed : .ofTy id.type = type) :
      Valid params code type (.arg id.name)
  | slot {name : String} (isPtr : type = .ptr) (placed : Placed code name) :
      Valid params code type (.slot name)

theorem Placed.append {code : List Instr} {name : String} (h : Placed code name)
    (more : List Instr) : Placed (code ++ more) name := by
  obtain ⟨before, type, rest, rfl, hbefore⟩ := h
  exact ⟨before, type, rest ++ more, by simp, hbefore⟩

theorem Defined.append {code more : List Instr} {q : Reg} {type : IrType}
    (h : Defined code q type) (hmore : ∀ i ∈ more, i.isPlain = true) :
    Defined (code ++ more) q type := by
  obtain ⟨before, i, between, rfl, hdest, htype, hbetween⟩ := h
  refine ⟨before, i, between ++ more, by simp, hdest, htype, ?_⟩
  refine List.forall_mem_append.2 ⟨hbetween, fun j hj => ?_⟩
  exact ⟨Instr.label?_of_isPlain (hmore j hj), Instr.isTerminator_of_isPlain (hmore j hj)⟩

theorem Defined.last (code : List Instr) {i : Instr} {q : Reg} (hq : i.dest? = some q) :
    Defined (code ++ [i]) q i.resultType :=
  ⟨code, i, [], rfl, hq, rfl, by simp⟩

/-- Code that defines no register can be left away. -/
theorem Defined.of_append {code more : List Instr} {q : Reg} {type : IrType}
    (h : Defined (code ++ more) q type) (hcode : ∀ i ∈ code, i.dest? = none) :
    Defined more q type := by
  obtain ⟨before, i, between, heq, hdest, htype, hbetween⟩ := h
  rcases List.append_eq_append_iff.1 heq with ⟨c, rfl, hmore⟩ | ⟨c, rfl, hc⟩
  · exact ⟨c, i, between, hmore, hdest, htype, hbetween⟩
  · cases c with
    | nil => exact ⟨[], i, between, by simpa using hc.symm, hdest, htype, hbetween⟩
    | cons j c =>
        obtain ⟨rfl, -⟩ := List.cons.inj hc
        rw [hcode i (by simp)] at hdest
        cases hdest

/-- Every operand of the code is one that can be used there, where `before` is the code that comes
before it. -/
def Uses (params : List Symbol) (before : List Instr) : List Instr → Prop
  | [] => True
  | i :: rest =>
    (∀ x ∈ i.operands, x.operand.Valid params before x.type) ∧ Uses params (before ++ [i]) rest

theorem uses_append {params : List Symbol} {before code more : List Instr} :
    Uses params before (code ++ more) ↔
      Uses params before code ∧ Uses params (before ++ code) more := by
  induction code generalizing before with
  | nil => simp [Uses]
  | cons i rest ih => simp [Uses, ih, and_assoc]

theorem Uses.at {params : List Symbol} {pre post : List Instr} {i : Instr}
    (h : Uses params [] (pre ++ i :: post)) :
    ∀ x ∈ i.operands, x.operand.Valid params pre x.type := by
  have hpost := (uses_append.1 h).2
  rw [List.nil_append] at hpost
  exact hpost.1

/-! ## From yielding to using -/

/-- What is true of an operand until it is used: where the block has been left, it is a constant. -/
structure Operand.Ready (code : List Instr) (c : Cursor) (type : IrType) (x : Operand) : Prop where
  result : x.Result code type
  constant : c.closed = true → x.ConstantOf type

theorem Operand.ConstantOf.ready {type : IrType} {x : Operand} (h : x.ConstantOf type)
    (code : List Instr) (c : Cursor) : x.Ready code c type :=
  ⟨.inl h, fun _ => h⟩

theorem Operand.Ready.congr {code : List Instr} {c c' : Cursor} {type : IrType} {x : Operand}
    (h : x.Ready code c type) (hc : c'.closed = c.closed) : x.Ready code c' type :=
  ⟨h.result, fun hclosed => h.constant (hc ▸ hclosed)⟩

/-- The code of an expression keeps operands. -/
theorem Operand.Ready.keep {α : Type} {code : List Instr} {c : Cursor} {type : IrType} {x : Operand}
    (h : x.Ready code c type) {y : Emit α} (hy : Plain y) {out : Emitted α} (hout : y c = .ok out) :
    x.Ready (code ++ out.code) out.cursor type := by
  rcases h.result with hconst | ⟨q, rfl, hdefined⟩
  · exact hconst.ready _ _
  · have hc : c.closed = false := by
      cases hc : c.closed with
      | false => rfl
      | true => exact (h.constant hc).elim
    obtain ⟨hopen, -, hplain⟩ := hy.opened hc hout
    refine ⟨.inr ⟨q, rfl, hdefined.append hplain⟩, fun hclosed => ?_⟩
    rw [hopen] at hclosed
    cases hclosed

/-- What an instruction can be given next. Places are there in every block. -/
inductive Operand.Given (code : List Instr) (c : Cursor) (type : IrType) : Operand → Prop where
  | ready {x : Operand} (ready : x.Ready code c type) : Given code c type x
  | slot {name : String} (isPtr : type = .ptr) (placed : Placed code name) :
      Given code c type (.slot name)

theorem Operand.Given.congr {code : List Instr} {c c' : Cursor} {type : IrType} {x : Operand}
    (h : x.Given code c type) (hc : c'.closed = c.closed) : x.Given code c' type := by
  cases h with
  | ready ready => exact .ready (ready.congr hc)
  | slot isPtr placed => exact .slot isPtr placed

/-- Whatever a label may come before the next instruction, its operands can be used there. -/
theorem Operand.Given.valid {params : List Symbol} {code : List Instr} {c : Cursor} {type : IrType}
    {x : Operand} (h : x.Given code c type) {out : Emitted Unit} (hout : live c = .ok out) :
    x.Valid params (code ++ out.code) type := by
  cases h with
  | slot isPtr placed => exact .slot isPtr (placed.append _)
  | ready ready =>
      cases hc : c.closed with
      | true => exact .result (.inl (ready.constant hc))
      | false =>
          rw [live_open hc] at hout
          cases hout
          rw [List.append_nil]
          exact .result ready.result

/-! ## Steps -/

/-- The places of the parameters and locals of a function. -/
def Places (f : Option Function) (code : List Instr) : Prop :=
  ∀ g, f = some g → ∀ id ∈ g.params ++ g.locals, Placed code id.name

theorem Places.append {f : Option Function} {code : List Instr} (h : Places f code)
    (more : List Instr) : Places f (code ++ more) :=
  fun g hg id hid => (h g hg id hid).append more

/-- A step that follows some code of a function uses only what can be used, and then `Q` is true of
the code, of where it stands and of what the step yields. -/
def Emit.Makes {α : Type} (f : Option Function) (params : List Symbol) (code : List Instr)
    (c : Cursor) (x : Emit α) (Q : List Instr → Cursor → α → Prop) : Prop :=
  Places f code → ∀ out, x c = .ok out →
    Uses params code out.code ∧ Q (code ++ out.code) out.cursor out.value

namespace Emit

variable {α β : Type} {f : Option Function} {params : List Symbol} {code : List Instr} {c : Cursor}
  {P Q : List Instr → Cursor → α → Prop} {R : List Instr → Cursor → β → Prop}

theorem Makes.pure {a : α} (h : Q code c a) : Makes f params code c (Pure.pure a) Q := by
  intro _ out hx
  cases hx
  exact ⟨trivial, by simpa using h⟩

theorem Makes.fail {fault : Fault} : Makes f params code c (Emit.fail fault) Q := by
  intro _ out hx
  cases hx

theorem Makes.mono {x : Emit α} (h : Makes f params code c x P)
    (hmono : ∀ code c a, P code c a → Q code c a) : Makes f params code c x Q := by
  intro hplaces out hx
  obtain ⟨huses, hP⟩ := h hplaces out hx
  exact ⟨huses, hmono _ _ _ hP⟩

theorem Makes.bind {x : Emit α} {g : α → Emit β} (h : Makes f params code c x P)
    (h' : ∀ code c a, Places f code → P code c a → Makes f params code c (g a) R) :
    Makes f params code c (x >>= g) R := by
  intro hplaces out hx
  obtain ⟨first, second, hfirst, hsecond, rfl⟩ := bind_eq_ok_iff.1 hx
  obtain ⟨huses, hP⟩ := h hplaces first hfirst
  have hplaces' := hplaces.append first.code
  obtain ⟨huses', hR⟩ := h' _ _ _ hplaces' hP hplaces' second hsecond
  refine ⟨uses_append.2 ⟨huses, huses'⟩, ?_⟩
  rwa [List.append_assoc] at hR

/-- What needs no code changes nothing. -/
theorem Makes.ofExcept_bind {x : Except Fault α} {g : α → Emit β}
    (h : ∀ a, x = .ok a → Places f code → Makes f params code c (g a) R) :
    Makes f params code c (Emit.ofExcept x >>= g) R := by
  intro hplaces
  cases x with
  | error fault =>
      exact Makes.bind (P := fun _ _ _ => False) .fail (fun _ _ _ _ h => h.elim) hplaces
  | ok a =>
      rw [show Emit.ofExcept (.ok a) >>= g = g a from pure_bind a g]
      exact h a rfl hplaces hplaces

/-- To use something adds no code. -/
theorem Makes.use {s : Support} {g : Global → Emit β}
    (h : Makes f params code { c with used := s :: c.used } (g (.support s)) R) :
    Makes f params code c (Emit.use s >>= g) R := by
  intro hplaces out hx
  rw [use_bind] at hx
  exact h hplaces out hx

/-- An operand that is ready stays so while the code of an expression is added. -/
theorem Makes.keep {x : Emit α} {y : Operand} {type : IrType} (h : Makes f params code c x P)
    (hx : Plain x) (hy : y.Ready code c type) :
    Makes f params code c x fun code c a => P code c a ∧ y.Ready code c type := by
  intro hplaces out hout
  obtain ⟨huses, hP⟩ := h hplaces out hout
  exact ⟨huses, hP, hy.keep hx hout⟩

theorem live_uses {out : Emitted Unit} (h : live c = .ok out) : Uses params code out.code := by
  cases hc : c.closed with
  | false =>
      rw [live_open hc] at h
      cases h
      trivial
  | true =>
      rw [live_closed hc] at h
      cases h
      exact ⟨fun _ hx => (nomatch hx), trivial⟩

theorem Makes.instr {i : Instr} (h : ∀ x ∈ i.operands, x.operand.Given code c x.type) :
    Makes f params code c (Emit.instr i) fun _ _ _ => True := by
  intro _ out hx
  obtain ⟨first, second, hfirst, hsecond, rfl⟩ := bind_eq_ok_iff.1 hx
  cases hsecond
  refine ⟨uses_append.2 ⟨live_uses hfirst, ?_, trivial⟩, trivial⟩
  exact fun x hx => (h x hx).valid hfirst

/-- An instruction that defines a register yields it ready to be used. -/
theorem Makes.define {root : String} {i : Reg → Instr} (type : IrType)
    (hplain : ∀ q, (i q).isPlain = true) (hdest : ∀ q, (i q).dest? = some q)
    (htype : ∀ q, (i q).resultType = type)
    (h : ∀ q, ∀ x ∈ (i q).operands, x.operand.Given code c x.type) :
    Makes f params code c (Emit.define root i) fun code c x => x.Ready code c type := by
  intro hplaces out hx
  obtain ⟨first, second, hfirst, hrest, rfl⟩ := bind_eq_ok_iff.1 hx
  cases hfirst
  obtain ⟨third, fourth, hthird, hfourth, rfl⟩ := bind_eq_ok_iff.1 hrest
  cases hfourth
  -- The number of a register has nothing to do with whether the block is open.
  have hgiven : ∀ x ∈ (i ⟨root, c.fresh.count root + 1⟩).operands,
      x.operand.Given code { c with fresh := (c.fresh.next root).2 } x.type :=
    fun x hx => (h _ x hx).congr rfl
  obtain ⟨huses, -⟩ := Makes.instr hgiven hplaces third hthird
  obtain ⟨opening, last, hopening, hlast, rfl⟩ := bind_eq_ok_iff.1 hthird
  cases hlast
  refine ⟨by simpa using huses, .inr ⟨_, rfl, ?_⟩, fun hclosed => ?_⟩
  · rw [← htype ⟨root, c.fresh.count root + 1⟩]
    simpa using Defined.last (code ++ opening.code) (hdest ⟨root, c.fresh.count root + 1⟩)
  · have hopen := Instr.isTerminator_of_isPlain (hplain ⟨root, c.fresh.count root + 1⟩)
    exact absurd (hopen.symm.trans hclosed) (by decide)

section

variable {root : String} {type : IrType} {x y : Operand}

theorem Makes.binary (op : BinOp) (hx : x.Ready code c type) (hy : y.Ready code c type) :
    Makes f params code c (Emit.define root (.binary · op ⟨type, x⟩ y))
      fun code c z => z.Ready code c (op.resultType type) :=
  .define _ (fun _ => rfl) (fun _ => rfl) (fun _ => rfl) fun _ =>
    List.forall_mem_cons.2 ⟨.ready hx, List.forall_mem_singleton.2 (.ready hy)⟩

theorem Makes.cast {op : Cast} {target : IrType} (hx : x.Ready code c type) :
    Makes f params code c (Emit.define root (.cast · op ⟨type, x⟩ target))
      fun code c z => z.Ready code c target :=
  .define _ (fun _ => rfl) (fun _ => rfl) (fun _ => rfl) fun _ =>
    List.forall_mem_singleton.2 (.ready hx)

theorem Makes.load (hx : x.Given code c .ptr) :
    Makes f params code c (Emit.define root (.load · type x))
      fun code c z => z.Ready code c type :=
  .define _ (fun _ => rfl) (fun _ => rfl) (fun _ => rfl) fun _ => List.forall_mem_singleton.2 hx

end

theorem Makes.label (l : Label) : Makes f params code c (Emit.label l) fun _ _ _ => True := by
  intro _ out hx
  cases hx
  exact ⟨⟨fun _ hx => (nomatch hx), trivial⟩, trivial⟩

theorem Makes.close {i : Instr} (h : i.operands = []) :
    Makes f params code c (Emit.close i) fun _ _ _ => True := by
  intro hplaces out hx
  unfold Emit.close at hx
  split at hx
  · cases hx
    exact ⟨trivial, trivial⟩
  · exact Makes.instr (by simp [h]) hplaces out hx

theorem Makes.nextControl : Makes f params code c Emit.nextControl fun _ _ _ => True := by
  intro _ out hx
  cases hx
  exact ⟨trivial, trivial⟩

end Emit

/-! ## Expressions -/

theorem immediate_constantOf {v : Value} {k : Base} (h : v.Of k) :
    (immediate v).ConstantOf (.ofBase k) := by
  have hwrap : ∀ bits n, wrap bits (wrap bits n) = wrap bits n := fun _ _ => Int.bmod_bmod
  cases h with
  | real bits => rfl
  | ordinal isOrdinal n =>
      cases k with
      | int => exact .inl ⟨rfl, hwrap 32 n⟩
      | char => exact .inr (.inl ⟨rfl, hwrap 8 n⟩)
      | bool => rfl
      | void | float | unnamed _ => cases isOrdinal

theorem ofTy_ne {ty : Ty} (h : ty.isData = true) :
    IrType.ofTy ty ≠ .void ∧ IrType.ofTy ty ≠ .unknown := by
  cases ty with
  | base k => cases k <;> first | decide | cases h
  | array _ => simp [IrType.ofTy]
  | func _ _ | absent => cases h

theorem zero_constantOf {ty : Ty} (h : ty.isData = true) :
    (Operand.zero (.ofTy ty)).ConstantOf (.ofTy ty) :=
  ⟨rfl, ofTy_ne h⟩

theorem int_zero_constantOf {type : IrType} (h : type = .i32 ∨ type = .i8) :
    (Operand.int 0).ConstantOf type :=
  h.elim (fun h => .inl ⟨h, rfl⟩) fun h => .inr (.inl ⟨h, rfl⟩)

/-- What an expression of a type yields: nothing if it is a call that has no result. -/
def Operand.Yielded (ty : Ty) (code : List Instr) (c : Cursor) (x : Operand) : Prop :=
  ty.isVoid = true ∧ x = .nothing ∨ x.Ready code c (.ofTy ty)

theorem Operand.Yielded.ready {ty : Ty} {code : List Instr} {c : Cursor} {x : Operand}
    (h : x.Yielded ty code c) (hty : ty.isVoid = false) : x.Ready code c (.ofTy ty) := by
  rcases h with ⟨hvoid, -⟩ | h
  · rw [hty] at hvoid
    cases hvoid
  · exact h

section

variable {f : Option Function} {params : List Symbol} {code : List Instr} {cur : Cursor}

theorem convert_makes {src dst : Base} (hmem : dst ∈ src.conversions) {x : Operand}
    (hx : x.Ready code cur (.ofBase src)) (pos : Pos) :
    Makes f params code cur (convert pos (some (.base src)) dst x)
      fun code c y => y.Ready code c (.ofBase dst) := by
  show Makes f params code cur (convertBase pos src dst x) _
  unfold convertBase
  split
  · next heq =>
      subst heq
      exact .pure hx
  · split
    · next hdst =>
        subst hdst
        split
        · next hsrc =>
            subst hsrc
            have hzero : (Operand.zero .double).ConstantOf (.ofTy (.base .float)) :=
              zero_constantOf rfl
            exact .binary (.fcmp .une) hx (hzero.ready _ _)
        · next hne hsrc =>
            have hint : IrType.ofBase src = .i32 ∨ IrType.ofBase src = .i8 := by
              cases src <;> simp_all [IrType.ofBase, Base.conversions]
            exact .binary (.icmp .ne) hx ((int_zero_constantOf hint).ready _ _)
    · split
      · exact .cast hx
      · exact .fail

variable {c : Context} {r : Reach}

theorem plain_makes {e : Expr} (he : e.Typed r) {ty : Ty} (hty : e.note.type = some ty)
    {raw : Emit Operand}
    (hraw : Makes f params code cur raw fun code c x => x.Yielded ty code c) :
    Makes f params code cur (plain c e raw) fun code c x => x.Yielded ty code c := by
  unfold plain
  split
  · exact hraw
  · split
    · next value hvalue =>
        obtain ⟨k, hk, hof⟩ := Precision.eval_of he value (Context.eval_of_folded hvalue)
        cases hty.symm.trans hk
        exact .pure (.inr ((immediate_constantOf hof).ready _ _))
    · exact hraw

theorem used_makes {e : Expr} (he : e.Typed r) {ty used : Ty} (hty : e.note.type = some ty)
    (hused : e.usedType = some used) {raw : Emit Operand}
    (hraw : Makes f params code cur raw fun code c x => x.Yielded ty code c) :
    Makes f params code cur (Llvm.used c e raw) fun code c x => x.Yielded used code c := by
  have hplain := plain_makes (c := c) he hty hraw
  obtain ⟨ty', hof⟩ := he.note_of
  cases hty.symm.trans hof.type
  unfold Llvm.used
  split
  · next hconv =>
      cases hty.symm.trans ((Note.usedType_of_kept hconv).symm.trans hused)
      exact hplain
  · next conv hconv =>
      obtain ⟨-, hmem⟩ := hof.conv conv hconv
      have hdst : e.usedType = some (.base conv.dst) := hof.usedType_of_conv hconv
      cases hdst.symm.trans hused
      split
      · next value hvalue =>
          obtain ⟨k, hk, hof⟩ := Precision.evalUsed_of he (Context.eval_of_folded hvalue)
          cases hdst.symm.trans hk
          exact .pure (.inr ((immediate_constantOf hof).ready _ _))
      · cases ty with
        | base src =>
            rw [hty]
            refine hplain.bind fun code cur x _ hx => ?_
            have hready := hx.ready (Ty.isVoid_of_isData (Base.isData_of_mem_conversions hmem).1)
            exact (convert_makes hmem hready e.pos).mono fun _ _ _ => .inr
        | array _ | func _ _ | absent => cases hmem

theorem support_ready (g : Support) : (Operand.global (.support g)).Ready code cur .ptr :=
  Operand.ConstantOf.ready (x := .global (.support g)) rfl _ _

theorem callVariadic_makes {g : Support} {args : List Typed}
    (h : ∀ x ∈ args, x.operand.Ready code cur x.type) :
    Makes f params code cur (callVariadic (.support g) args) fun _ _ _ => True :=
  .instr (List.forall_mem_cons.2 ⟨.ready (support_ready g), fun x hx => .ready (h x hx)⟩)

theorem print_makes {format : Support} {x : Typed} (h : x.operand.Ready code cur x.type) :
    Makes f params code cur (print format x) fun _ _ _ => True :=
  .use <| .use <| callVariadic_makes
    (List.forall_mem_cons.2 ⟨support_ready format, List.forall_mem_singleton.2 (h.congr rfl)⟩)

theorem scan_makes {format place : Support} {type : IrType} :
    Makes f params code cur (scan format place type) fun code c x => x.Ready code c type := by
  refine .use <| .use <| .use <| (callVariadic_makes (List.forall_mem_cons.2
    ⟨support_ready format, List.forall_mem_singleton.2 (support_ready place)⟩)).bind
      fun code cur _ _ _ => ?_
  exact .load (.ready (support_ready place))

theorem size_ready {n : Nat} (h : n < 2 ^ 31) : (Operand.int n).Ready code cur .i64 := by
  have hwrap : wrap 64 n = n := by
    rw [wrap_eq]
    exact Int.bmod_eq_of_le (by omega) (by omega)
  have hconst : (Operand.int n).ConstantOf .i64 := .inr (.inr ⟨rfl, hwrap⟩)
  exact hconst.ready _ _

theorem allocate_makes {root : String} {count : Operand} {size : Nat}
    (h : count.Ready code cur .i64) (hsize : size < 2 ^ 31) :
    Makes f params code cur (allocate root count size) fun code c x => x.Ready code c .ptr :=
  .use <| .define _ (fun _ => rfl) (fun _ => rfl) (fun _ => rfl) fun _ =>
    List.forall_mem_cons.2 ⟨.ready (support_ready .calloc), List.forall_mem_cons.2
      ⟨.ready (h.congr rfl), List.forall_mem_singleton.2 (.ready (size_ready hsize))⟩⟩

theorem firstArg_makes {x : Operand} {xs : List Operand} {type : IrType}
    (h : x.Ready code cur type) :
    Makes f params code cur (firstArg (x :: xs)) fun code c y => y.Ready code c type :=
  .pure h

/-- A builtin function makes of its arguments what its signature says. -/
theorem builtin?_makes {sym : Symbol} (h : sym ∈ Symbol.builtins) {result : Ty} {types : List Ty}
    (hty : sym.type = .func result types) {args : List Operand} {emit : Emit Operand}
    (hemit : builtin? sym.name args = some emit)
    (hargs : List.Forall₂ (fun x p => x.Ready code cur (.ofTy p)) args types) :
    Makes f params code cur emit fun code c x => x.Yielded result code c := by
  simp only [Symbol.builtins, List.mem_cons, List.not_mem_nil, or_false] at h
  rcases h with rfl | rfl | rfl | rfl | rfl | rfl | rfl | rfl | rfl | rfl <;> cases hty <;>
    cases hemit
  -- What prints has one argument, what reads has none.
  case inl | inr.inl | inr.inr.inr.inr.inl =>
    obtain _ | ⟨hx, _ | _⟩ := hargs
    refine (firstArg_makes hx).bind fun _ _ y _ hy => ?_
    exact (print_makes hy).bind fun _ _ _ _ _ => .pure (.inl ⟨rfl, rfl⟩)
  case inr.inr.inl =>
    obtain _ | ⟨hx, _ | _⟩ := hargs
    refine (firstArg_makes hx).bind fun _ _ y _ hy => ?_
    refine (Makes.cast hy).bind fun _ _ z _ hz => ?_
    exact (print_makes hz).bind fun _ _ _ _ _ => .pure (.inl ⟨rfl, rfl⟩)
  case inr.inr.inr.inl =>
    obtain _ | ⟨hx, _ | _⟩ := hargs
    refine (firstArg_makes hx).bind fun _ _ y _ hy => ?_
    refine .use <| .use <| Makes.bind (Makes.define .ptr (fun _ => rfl) (fun _ => rfl)
      (fun _ => rfl) fun _ => List.forall_mem_cons.2 ⟨.ready (hy.congr rfl), List.forall_mem_cons.2
        ⟨.ready (support_ready .strTrue),
          List.forall_mem_singleton.2 (.ready (support_ready .strFalse))⟩⟩) fun _ _ z _ hz => ?_
    exact (print_makes (x := .ptr z) hz).bind fun _ _ _ _ _ => .pure (.inl ⟨rfl, rfl⟩)
  case inr.inr.inr.inr.inr.inl | inr.inr.inr.inr.inr.inr.inl | inr.inr.inr.inr.inr.inr.inr.inl =>
    exact scan_makes.mono fun _ _ _ => .inr
  case inr.inr.inr.inr.inr.inr.inr.inr.inl =>
    refine Makes.mono (scan_makes.bind fun code cur x _ hx => ?_) fun _ _ _ => .inr
    exact .binary (.icmp .ne) hx ((int_zero_constantOf (.inl rfl)).ready _ _)
  case inr.inr.inr.inr.inr.inr.inr.inr.inr =>
    have hsize : (Operand.int readBufferSize).Ready code cur .i64 := size_ready (by decide)
    refine (allocate_makes hsize (by decide)).bind fun code cur x _ hx => ?_
    have hcall : ∀ cur, x.Ready code cur .ptr → Makes f params code cur
        (callVariadic (.support .scanf) [.ptr (.global (.support .scanStr)), .ptr x])
        fun _ _ _ => True := fun cur hx => callVariadic_makes
      (List.forall_mem_cons.2 ⟨support_ready .scanStr, List.forall_mem_singleton.2 hx⟩)
    refine .use <| .use <| Makes.bind (.keep (hcall _ (hx.congr rfl)) (callVariadic_plain _ _)
      (hx.congr rfl)) fun code cur _ _ h => ?_
    exact .pure (.inr h.2)

theorem typedArgs_ready {place : Nat} {types : List Ty} {args : List Operand} {typed : List Typed}
    (h : typedArgs place types args = .ok typed)
    (hargs : List.Forall₂ (fun x p => x.Ready code cur (.ofTy p)) args types) :
    ∀ x ∈ typed, x.operand.Ready code cur x.type := by
  induction hargs generalizing place typed with
  | nil =>
      cases h
      exact fun _ hx => (nomatch hx)
  | cons hx _ ih =>
      simp only [typedArgs, Except.bind_eq_ok_iff] at h
      obtain ⟨-, -, rest, hrest, h⟩ := h
      cases h
      exact List.forall_mem_cons.2 ⟨hx, ih hrest⟩

theorem lowerCall_makes {func : Ident} {sym : Symbol} {result : Ty} {types : List Ty}
    {args : Emit (List Operand)} (hrefers : func.Refers r sym) (hty : sym.type = .func result types)
    (hargs : Makes f params code cur args fun code c xs =>
      List.Forall₂ (fun x p => x.Ready code c (.ofTy p)) xs types) (pos : Pos) :
    Makes f params code cur (lowerCall pos (some func) args)
      fun code c x => x.Yielded result code c := by
  obtain ⟨hresult, -, hbuiltin⟩ := hrefers.known.signature hty
  unfold lowerCall
  rw [ofExcept_bind (Ident.callee_ok hrefers.symbol hty pos)]
  refine hargs.bind fun code cur xs _ hxs => ?_
  dsimp only
  split
  · next hb =>
      split
      · next emit hemit => exact builtin?_makes (hbuiltin hb) hty hemit hxs
      · exact .fail
  · refine .ofExcept_bind fun ys hys _ => .ofExcept_bind fun _ _ _ => ?_
    have hready := typedArgs_ready hys hxs
    have hgiven : ∀ dest, ∀ y ∈ (Instr.call dest (.ofTy result) false (.user sym.name) ys).operands,
        y.operand.Given code cur y.type := by
      refine fun _ => List.forall_mem_cons.2 ⟨.ready ?_, fun y hy => .ready (hready y hy)⟩
      exact Operand.ConstantOf.ready (x := .global (.user sym.name)) rfl _ _
    split
    · next hvoid =>
        exact (Makes.instr (hgiven none)).bind fun _ _ _ _ _ => .pure (.inl ⟨hvoid, rfl⟩)
    · have hdefine : Makes f params code cur
          (Emit.define "call" fun q => .call (some q) (.ofTy result) false (.user sym.name) ys)
          fun code c x => x.Ready code c (.ofTy result) :=
        .define _ (fun _ => rfl) (fun _ => rfl) (fun _ => rfl) fun q => hgiven (some q)
      exact hdefine.mono fun _ _ _ => .inr

theorem binaryOp?_resultType {op : Op} {x y : Ty} {k : Base} {b : BinOp} (h : op.Accepts x y k)
    (hb : binaryOp? op x = some b) : b.resultType (.ofTy x) = .ofBase k := by
  unfold Op.Accepts at h
  split at h
  · next m n k =>
      unfold Op.result? at h
      split at h <;> cases h <;> cases hb <;> rfl
  · obtain ⟨-, rfl | rfl, rfl⟩ := h <;> cases hb <;> rfl
  · exact h.elim

theorem lowerArgs_makes {args : List Expr} {types : List Ty} (htyped : ∀ e ∈ args, e.Typed r)
    (hused : args.map Expr.usedType = types.map some) (hdata : ∀ p ∈ types, p.isData = true)
    (hraw : ∀ e ∈ args, ∀ code cur ty, e.note.type = some ty →
      Makes f params code cur (lowerRaw c e) fun code c x => x.Yielded ty code c) :
    Makes f params code cur (lowerArgs c args) fun code c xs =>
      List.Forall₂ (fun x p => x.Ready code c (.ofTy p)) xs types := by
  induction args generalizing types code cur with
  | nil =>
      obtain rfl : types = [] := by simpa using hused
      rw [lowerArgs]
      exact .pure .nil
  | cons e rest ih =>
      cases types with
      | nil => cases hused
      | cons p types =>
          obtain ⟨he, htail⟩ := List.cons.inj hused
          obtain ⟨hp, hdata⟩ := List.forall_mem_cons.1 hdata
          obtain ⟨htyped, hrest⟩ := List.forall_mem_cons.1 htyped
          obtain ⟨hraw, hraws⟩ := List.forall_mem_cons.1 hraw
          obtain ⟨ty, hof⟩ := htyped.note_of
          rw [lowerArgs]
          refine (used_makes htyped hof.type he (hraw _ _ ty hof.type)).bind
            fun code cur x _ hx => ?_
          have hready := hx.ready (Ty.isVoid_of_isData hp)
          refine ((ih hrest htail hdata hraws).keep (lowerArgs_plain c rest) hready).bind
            fun code cur xs _ hxs => ?_
          exact .pure (.cons hxs.2 hxs.1)

variable (hc : c.function = r.function)

include hc

/-- What is stored has an address, in this function or in the program. -/
theorem address_given {id : Symbol} {addr : Operand} (h : id.Stored r) {pos : Pos}
    (haddr : address c pos id = .ok addr) (hplaces : Places r.function code) :
    addr.Given code cur .ptr := by
  unfold address at haddr
  split at haddr
  · next hslot =>
      cases haddr
      refine .slot rfl ?_
      rcases Bool.or_eq_true_iff.1 hslot with hparam | hlocal
      · rw [Context.isParam, hc, Option.any_eq_true] at hparam
        obtain ⟨g, hg, howns⟩ := hparam
        obtain ⟨-, hfind⟩ := Bool.and_eq_true_iff.1 howns
        have hmem := (Symbol.find?_some (beq_iff_eq.1 hfind)).1
        exact hplaces g hg id (List.mem_append_left _ hmem)
      · unfold Symbol.Stored at h
        rw [beq_iff_eq.1 hlocal] at h
        obtain ⟨g, hg, hmem⟩ := h
        exact hplaces g hg id (List.mem_append_right _ hmem)
  · split at haddr
    · cases haddr
      exact .ready (Operand.ConstantOf.ready (x := .global (.user id.name)) rfl _ _)
    · cases haddr

theorem load_makes {id : Symbol} (h : id.Stored r) (pos : Pos) :
    Makes r.function params code cur (load c pos id)
      fun code c x => x.Ready code c (.ofTy id.type) :=
  .ofExcept_bind fun _ _ _ => .ofExcept_bind fun _ haddr hplaces =>
    .load (address_given hc h haddr hplaces)

theorem store_makes {id : Symbol} (h : id.Stored r) {value : Operand}
    (hvalue : value.Ready code cur (.ofTy id.type)) (pos : Pos) :
    Makes r.function params code cur (store c pos id value) fun _ _ _ => True :=
  .ofExcept_bind fun _ _ _ => .ofExcept_bind fun _ haddr hplaces =>
    .instr (List.forall_mem_cons.2 ⟨.ready hvalue,
      List.forall_mem_singleton.2 (address_given hc h haddr hplaces)⟩)

theorem lowerElement_makes {array : Ident} {sym : Symbol} {elem : Base} {index : Emit Operand}
    (hrefers : array.Refers r sym) (hty : sym.type = .array elem) (hplain : Plain index)
    (hindex : ∀ code cur,
      Makes r.function params code cur index fun code c x => x.Ready code c .i32) :
    Makes r.function params code cur (lowerElement c (some array) index)
      fun code c p => p.1 = sym ∧ p.2.Ready code c .ptr := by
  obtain ⟨-, hstored⟩ := hrefers.known.element hty
  unfold lowerElement
  rw [ofExcept_bind (Ident.resolved_ok hrefers.symbol)]
  refine (load_makes hc hstored array.pos).bind fun code cur base _ hbase => ?_
  refine ((hindex code cur).keep hplain hbase).bind fun code cur i _ hi => ?_
  rw [hty] at hi
  refine Makes.bind (Makes.define .ptr (fun _ => rfl) (fun _ => rfl) (fun _ => rfl) fun _ =>
    List.forall_mem_cons.2 ⟨.ready hi.2, List.forall_mem_singleton.2 (.ready hi.1)⟩)
      fun code cur addr _ haddr => ?_
  exact .pure ⟨rfl, haddr⟩

/-- A typed expression yields an operand of its type. -/
theorem lowerRaw_makes {e : Expr} (h : e.Typed r) :
    e.IsValue → ∀ code cur ty, e.note.type = some ty →
      Makes r.function params code cur (lowerRaw c e) fun code c x => x.Yielded ty code c := by
  induction h with
  | @literal pos text value note decoded note_of =>
      intro _ code cur ty hty
      cases hty.symm.trans note_of.type
      have hvalue : literalValue pos text (some value) = .ok value := rfl
      rw [lowerRaw, ofExcept_bind hvalue]
      have hof := Precision.literal_of (p := precision) (Literal.decode_of decoded)
      exact .pure (.inr ((immediate_constantOf hof).ready _ _))
  | @ident id sym refers =>
      intro hv code cur ty hty
      obtain ⟨ty', hty', hfunc⟩ := hv
      cases hty.symm.trans hty'
      cases hty.symm.trans refers.note.type
      rw [lowerRaw, ofExcept_bind (Ident.resolved_ok refers.symbol)]
      exact (load_makes hc (refers.known.stored hfunc).2 id.pos).mono fun _ _ _ => .inr
  | @unary pos op x note ty operand husedType numeric note_of ih =>
      intro _ code cur ty' hty'
      cases hty'.symm.trans note_of.type
      have hdata : ty.isData = true := by rcases numeric with rfl | ⟨rfl, -⟩ <;> rfl
      have hvoid := Ty.isVoid_of_isData hdata
      obtain ⟨raw, hof⟩ := operand.note_of
      have hx := ih (operand.isValue husedType (Ty.isFunc_of_isData hdata))
      rw [lowerRaw]
      refine (used_makes operand hof.type husedType (hx _ _ raw hof.type)).bind
        fun code cur v _ hv => ?_
      split
      · exact .pure hv
      · rw [ofExcept_bind (Expr.typeOf_ok husedType)]
        have hready := hv.ready hvoid
        split
        · next hfloat =>
            subst hfloat
            exact (Makes.define .double (fun _ => rfl) (fun _ => rfl) (fun _ => rfl)
              fun _ => List.forall_mem_singleton.2 (.ready hready)).mono fun _ _ _ => .inr
        · next hfloat =>
            obtain rfl : ty = .base .int := numeric.resolve_right fun hf => hfloat hf.1
            have hzero := (int_zero_constantOf (.inl rfl)).ready code cur
            exact (Makes.binary .sub hzero hready).mono fun _ _ _ => .inr
  | @binary _ op x y _ xType yType result left right usedLeft usedRight accepts once note_of ihx
      ihy =>
      intro _ code cur ty hty
      cases hty.symm.trans note_of.type
      cases accepts.same
      obtain ⟨_, hofx⟩ := left.note_of
      obtain ⟨_, hofy⟩ := right.note_of
      have hx := ihx (left.isValue usedLeft accepts.isData.1)
      have hy := ihy (right.isValue usedRight accepts.isData.2)
      rw [lowerRaw]
      refine (used_makes left hofx.type usedLeft (hx _ _ _ hofx.type)).bind
        fun code cur v _ hv => ?_
      refine ((used_makes right hofy.type usedRight (hy _ _ _ hofy.type)).keep
        (used_plain (lowerRaw_plain c y)) (hv.ready accepts.isVoid)).bind fun code cur w _ hw => ?_
      rw [ofExcept_bind (Expr.typeOf_ok usedLeft)]
      split
      · next b hb =>
          have hbinary : Makes r.function params code cur
              (Emit.define b.mnemonic (.binary · b ⟨.ofTy xType, v⟩ w))
              fun code c z => z.Ready code c (b.resultType (.ofTy xType)) :=
            .binary b hw.2 (hw.1.ready accepts.isVoid)
          rw [binaryOp?_resultType accepts hb] at hbinary
          exact hbinary.mono fun _ _ _ => .inr
      · exact .fail
  | @index pos array sym elem i note refers type operand husedType note_of ih =>
      intro _ code cur ty hty
      cases hty.symm.trans note_of.type
      obtain ⟨_, hof⟩ := operand.note_of
      have hi := ih (operand.isValue husedType rfl)
      rw [lowerRaw]
      refine (lowerElement_makes hc refers type (used_plain (lowerRaw_plain c i)) fun code cur =>
        (used_makes operand hof.type husedType (hi _ _ _ hof.type)).mono
          fun _ _ _ hx => hx.ready rfl).bind fun code cur p _ hp => ?_
      obtain ⟨array, addr⟩ := p
      obtain ⟨rfl, haddr⟩ := hp
      dsimp only
      rw [type]
      exact (Makes.load (.ready haddr)).mono fun _ _ _ => .inr
  | @call pos func sym result types args note refers type operands husedType note_of ih =>
      intro _ code cur ty hty
      cases hty.symm.trans note_of.type
      obtain ⟨-, hparams, -⟩ := refers.known.signature type
      rw [lowerRaw]
      refine lowerCall_makes refers type ?_ pos
      exact lowerArgs_makes operands husedType hparams fun e he =>
        ih e he (Expr.isValue_of_argument husedType hparams he (operands e he))

theorem lowerExpr_makes {e : Expr} {ty : Ty} (h : e.UsedAs r ty) (hty : ty.isData = true) :
    Makes r.function params code cur (lowerExpr c e) fun code c x => x.Ready code c (.ofTy ty) := by
  obtain ⟨_, hof⟩ := h.typed.note_of
  exact (used_makes h.typed hof.type h.used
    (lowerRaw_makes hc h.typed (h.isValue hty) _ _ _ hof.type)).mono fun _ _ _ hx =>
      hx.ready (Ty.isVoid_of_isData hty)

/-! ## Statements -/

theorem lowerAssign_makes {target value : Expr} {noted : Option Ty}
    (h : AssignTyped r target value noted) (pos : Pos) :
    Makes r.function params code cur (lowerAssign c pos target value) fun _ _ _ => True := by
  obtain ⟨hplace, hkept, ty, hdata, htarget, hvalue, -⟩ := h
  have htype : target.note.type = some ty := (Note.usedType_of_kept hkept).symm.trans htarget.used
  have hv : ∀ code cur, Makes r.function params code cur (lowerExpr c value)
      fun code c x => x.Ready code c (.ofTy ty) := fun _ _ => lowerExpr_makes hc hvalue hdata
  cases htarget.typed with
  | @ident id sym refers =>
      cases htype.symm.trans refers.note.type
      refine (hv _ _).bind fun code cur x _ hx => ?_
      rw [ofExcept_bind (Ident.resolved_ok refers.symbol)]
      exact store_makes hc (refers.known.stored (Ty.isFunc_of_isData hdata)).2 hx id.pos
  | @index _ array sym elem i _ refers type operand hused note_of =>
      cases htype.symm.trans note_of.type
      have hi : i.UsedAs r (.base .int) := ⟨operand, hused⟩
      refine (lowerElement_makes hc refers type (lowerExpr_plain c i) fun _ _ =>
        lowerExpr_makes hc hi rfl).bind fun code cur p _ hp => ?_
      obtain ⟨array, addr⟩ := p
      obtain ⟨rfl, haddr⟩ := hp
      refine ((hv _ _).keep (lowerExpr_plain c value) haddr).bind fun code cur x _ hx => ?_
      rw [type]
      exact .instr (List.forall_mem_cons.2 ⟨.ready hx.1, List.forall_mem_singleton.2 (.ready hx.2)⟩)
  | literal _ _ => cases hplace
  | unary _ _ _ _ => cases hplace
  | binary _ _ _ _ _ _ _ => cases hplace
  | call _ _ _ _ _ => cases hplace

theorem lowerVars_makes {vars : List Node} (h : ∀ n ∈ vars, n.TypedVar r) :
    Makes r.function params code cur (lowerVars c vars) fun _ _ _ => True := by
  induction vars generalizing code cur with
  | nil => exact .pure trivial
  | cons n rest ih =>
      obtain ⟨hn, hrest⟩ := List.forall_mem_cons.1 h
      unfold Node.TypedVar at hn
      split at hn
      · exact ih hrest
      · rw [lowerVars]
        exact (lowerAssign_makes hc hn _).bind fun _ _ _ _ _ => ih hrest
      · exact hn.elim

theorem lowerArray_makes {id : Ident} {sym : Symbol} {elem : Base} {size : Expr}
    (hdecl : id.Declares r sym) (hty : sym.type = .array elem)
    (hsize : size.UsedAs r (.base .int)) :
    Makes r.function params code cur (lowerArray c (some id) size) fun _ _ _ => True := by
  have hbound : elementSize sym.type.kind < 2 ^ 31 := by
    cases sym.type.kind <;> simp [elementSize]
  have hstore : ∀ code cur (count : Operand), count.Ready code cur .i64 →
      Makes r.function params code cur (do
        let array ← allocate id.name count (elementSize sym.type.kind)
        store c id.pos sym array) fun _ _ _ => True := by
    intro code cur count hcount
    refine (allocate_makes hcount hbound).bind fun code cur x _ hx => ?_
    exact store_makes hc hdecl.stored (by rw [hty]; exact hx) id.pos
  unfold lowerArray
  rw [ofExcept_bind (Ident.resolved_ok hdecl.symbol)]
  refine .ofExcept_bind fun _ _ _ => ?_
  refine (lowerExpr_makes hc hsize rfl).bind fun code cur n _ hn => ?_
  refine (Makes.cast hn).bind fun code cur count _ hcount => ?_
  dsimp only
  split
  · refine (Makes.binary .add hcount (size_ready (n := 1) (by decide))).bind
      fun code cur count _ hcount => ?_
    exact hstore _ _ count hcount
  · refine (Makes.pure (Q := fun code c x => x.Ready code c .i64) hcount).bind
      fun code cur count _ hcount => ?_
    exact hstore _ _ count hcount

theorem lowerLoopCond_makes {cond inserted : Expr} (h : LoopCondTyped r cond inserted) :
    Makes r.function params code cur (lowerLoopCond c cond inserted)
      fun code c x => x.Ready code c .i1 := by
  unfold lowerLoopCond
  rcases h with ⟨hcond, rfl⟩ | ⟨rfl, hins⟩
  · rw [hcond.typed.not_missing]
    exact lowerExpr_makes hc hcond rfl
  · rw [hins.typed.not_missing]
    exact lowerExpr_makes hc hins rfl

end

section

variable {f : Option Function} {params : List Symbol} {code : List Instr} {cur : Cursor}
  {cond : Emit Operand} {yes no body step : Emit Unit}

theorem turn_makes (l next : Label) :
    Makes f params code cur (turn l next) fun _ _ _ => True :=
  (Makes.close rfl).bind fun _ _ _ _ _ => .label next

theorem branch_makes {x : Operand} (h : x.Ready code cur .i1) (l l' next : Label) :
    Makes f params code cur (branch x l l' next) fun _ _ _ => True :=
  (Makes.instr (List.forall_mem_singleton.2 (.ready h))).bind fun _ _ _ _ _ => .label next

theorem lowerIf_makes
    (hcond : ∀ code cur, Makes f params code cur cond fun code c x => x.Ready code c .i1)
    (hyes : ∀ code cur, Makes f params code cur yes fun _ _ _ => True)
    (hno : ∀ code cur, Makes f params code cur no fun _ _ _ => True) :
    Makes f params code cur (lowerIf cond yes no) fun _ _ _ => True := by
  rw [lowerIf_eq]
  refine Makes.nextControl.bind fun code cur n _ _ => ?_
  refine (hcond code cur).bind fun code cur x _ hx => ?_
  refine (branch_makes hx _ _ _).bind fun code cur _ _ _ => (hyes code cur).bind ?_
  refine fun code cur _ _ _ => (turn_makes _ _).bind fun code cur _ _ _ => (hno code cur).bind ?_
  exact fun code cur _ _ _ => turn_makes _ _

theorem lowerLoop_makes
    (hbody : ∀ code cur, Makes f params code cur body fun _ _ _ => True)
    (hstep : ∀ code cur, Makes f params code cur step fun _ _ _ => True)
    (hcond : ∀ code cur, Makes f params code cur cond fun code c x => x.Ready code c .i1) :
    Makes f params code cur (lowerLoop body step cond) fun _ _ _ => True := by
  rw [lowerLoop_eq]
  refine Makes.nextControl.bind fun code cur n _ _ => ?_
  refine (turn_makes _ _).bind fun code cur _ _ _ => (hbody code cur).bind ?_
  refine fun code cur _ _ _ => (hstep code cur).bind fun code cur _ _ _ => ?_
  refine (turn_makes _ _).bind fun code cur _ _ _ => (hcond code cur).bind ?_
  exact fun code cur x _ hx => branch_makes hx _ _ _

end

mutual

/-- The code of a typed statement uses only what can be used. -/
theorem lowerStmt_makes {c : Context} {r : Reach} (hc : c.function = r.function)
    {params : List Symbol} : ∀ {stmt : Stmt}, stmt.Typed r → ∀ code cur,
      Makes r.function params code cur (lowerStmt c stmt) fun _ _ _ => True
  | .missing, h => h.elim
  | .call pos _ args _, h => by
      intro code cur
      cases h with
      | @call _ _ _ _ types _ _ refers type operands hused note_of =>
          obtain ⟨-, hparams, -⟩ := refers.known.signature type
          have hargs : Makes r.function params code cur (lowerArgs c args) fun code c xs =>
              List.Forall₂ (fun x p => x.Ready code c (.ofTy p)) xs types :=
            lowerArgs_makes operands hused hparams fun e he => lowerRaw_makes hc (operands e he)
              (Expr.isValue_of_argument hused hparams he (operands e he))
          rw [lowerStmt]
          exact (lowerCall_makes refers type hargs pos).bind fun _ _ _ _ _ => .pure trivial
  | .assign _ _ _ _, h => by
      intro code cur
      rw [lowerStmt]
      exact lowerAssign_makes hc h _
  | .varDecl _ _ _, h => by
      intro code cur
      rw [lowerStmt]
      exact lowerVars_makes hc h
  | .arrayDecl _ _ _ _, h => by
      intro code cur
      obtain ⟨id, sym, elem, rfl, hdecl, hty, hsize⟩ := h
      rw [lowerStmt]
      exact lowerArray_makes hc hdecl hty hsize
  | .ifElse _ _ _ _, h => by
      intro code cur
      rw [lowerStmt]
      exact lowerIf_makes (fun _ _ => lowerExpr_makes hc h.1 rfl) (lowerBlock_makes hc h.2.1)
        (lowerBlock_makes hc h.2.2)
  | .whileLoop _ _ _, h => by
      intro code cur
      rw [lowerStmt]
      exact lowerLoop_makes (lowerBlock_makes hc h.2) (fun _ _ => .pure trivial)
        fun _ _ => lowerExpr_makes hc h.1 rfl
  | .forLoop _ init _ _ step _, h => by
      intro code cur
      obtain ⟨hinit, hcond, hstep, hbody⟩ := h
      have hi : ∀ code cur, Makes r.function params code cur (lowerPart c init)
          fun _ _ _ => True := by
        rcases hinit with rfl | hinit
        · exact fun _ _ => .pure trivial
        · unfold lowerPart
          split
          · exact fun _ _ => .pure trivial
          · exact lowerStmt_makes hc hinit
      have hst : ∀ code cur, Makes r.function params code cur (lowerPart c step)
          fun _ _ _ => True := by
        rcases hstep with rfl | hstep
        · exact fun _ _ => .pure trivial
        · unfold lowerPart
          split
          · exact fun _ _ => .pure trivial
          · exact lowerStmt_makes hc hstep
      rw [lowerStmt_forLoop]
      exact (hi code cur).bind fun _ _ _ _ _ => lowerLoop_makes (lowerBlock_makes hc hbody) hst
        fun _ _ => lowerLoopCond_makes hc hcond
  | .block _, h => by
      rw [lowerStmt]
      exact lowerBlock_makes hc h
  | .funcDecl _ _ _ _ _ _ _, _ => by
      intro code cur
      rw [lowerStmt]
      exact .pure trivial
  | .ret _ value, h => by
      intro code cur
      obtain ⟨f, -, ⟨rfl, -⟩ | ⟨hdata, hv⟩⟩ := h
      · rw [lowerStmt]
        exact .instr fun _ hx => (nomatch hx)
      · rw [lowerStmt, hv.typed.not_missing]
        refine (lowerExpr_makes hc hv hdata).bind fun code cur x _ hx => ?_
        rw [ofExcept_bind (Expr.typeOf_ok hv.used)]
        exact .instr (List.forall_mem_singleton.2 (.ready hx))

theorem lowerBlock_makes {c : Context} {r : Reach} (hc : c.function = r.function)
    {params : List Symbol} : ∀ {b : Block}, b.Typed r → ∀ code cur,
      Makes r.function params code cur (lowerBlock c b) fun _ _ _ => True
  | .missing, _ => by
      intro code cur
      rw [lowerBlock]
      exact .pure trivial
  | .of _ _, h => by
      rw [lowerBlock]
      exact lowerStmts_makes hc h

theorem lowerStmts_makes {c : Context} {r : Reach} (hc : c.function = r.function)
    {params : List Symbol} : ∀ {stmts : List Stmt}, Stmt.AllTyped r stmts → ∀ code cur,
      Makes r.function params code cur (lowerStmts c stmts) fun _ _ _ => True
  | [], _ => by
      intro code cur
      rw [lowerStmts]
      exact .pure trivial
  | _ :: _, h => by
      intro code cur
      rw [lowerStmts]
      exact (lowerStmt_makes hc h.1 code cur).bind fun code cur _ _ _ =>
        lowerStmts_makes hc h.2 code cur

end

/-! ## Definitions -/

section

variable {params : List Symbol} {before : List Instr} {value : Symbol → Operand} {ids : List Symbol}

theorem places_placed (hbefore : ∀ i ∈ before, i.Opens) {id : Symbol} (hid : id ∈ ids) :
    Placed (.label .entry :: (before ++ places value ids)) id.name := by
  obtain ⟨first, rest, rfl⟩ := List.append_of_mem hid
  refine ⟨before ++ places value first, .ofTy id.type, .store ⟨.ofTy id.type, value id⟩
    (.slot id.name) :: places value rest, by simp [places], fun i hi => ?_⟩
  have hopens : i.Opens := (List.forall_mem_append.2 ⟨hbefore, places_opens value first⟩) i hi
  exact ⟨hopens.label, hopens.terminator⟩

theorem places_uses (hbefore : ∀ i ∈ before, i.Opens)
    (hvalue : ∀ id ∈ ids, ∀ code, (value id).Valid params code (.ofTy id.type)) :
    Uses params (.label .entry :: before) (places value ids) := by
  induction ids generalizing before with
  | nil => trivial
  | cons id rest ih =>
      obtain ⟨hid, hrest⟩ := List.forall_mem_cons.1 hvalue
      have hplaced :
          Placed (.label .entry :: before ++ [Instr.alloca id.name (.ofTy id.type)]) id.name :=
        ⟨before, .ofTy id.type, [], rfl, fun i hi => ⟨(hbefore i hi).label,
          (hbefore i hi).terminator⟩⟩
      have hopens : ∀ i ∈ before ++ places value [id], i.Opens :=
        List.forall_mem_append.2 ⟨hbefore, places_opens value [id]⟩
      have hnext := ih hopens hrest
      rw [places, List.flatMap_cons, ← places, uses_append]
      refine ⟨⟨List.forall_mem_nil _, List.forall_mem_cons.2 ⟨hid _,
        List.forall_mem_singleton.2 (.slot rfl hplaced)⟩, trivial⟩, ?_⟩
      simpa [places] using hnext

end

/-- The code of a function, or of the initializer, up to where its statements begin. -/
def opening : Option Function → List Instr
  | some f => .label .entry :: prologue f
  | none => [.label .entry]

theorem opening_places (f : Option Function) : Places f (opening f) := by
  rintro g rfl id hid
  rcases List.mem_append.1 hid with hid | hid
  · have hplaced :
        Placed (.label .entry :: ([] ++ places (fun id => .arg id.name) g.params)) id.name :=
      places_placed (by simp) hid
    exact hplaced.append _
  · exact places_placed (places_opens _ _) hid

theorem opening_dest (f : Option Function) : ∀ i ∈ opening f, i.dest? = none := by
  cases f with
  | none => exact List.forall_mem_singleton.2 rfl
  | some f =>
      refine List.forall_mem_cons.2 ⟨rfl, List.forall_mem_append.2 ⟨?_, ?_⟩⟩
      · exact fun i hi => (places_opens _ _ i hi).dest
      · exact fun i hi => (places_opens _ _ i hi).dest

theorem opening_uses {f : Function} (h : f.Placed) : Uses f.params [] (opening (some f)) := by
  have hnone : ∀ i ∈ ([] : List Instr), i.Opens := fun _ hi => (nomatch hi)
  refine ⟨fun _ hx => (nomatch hx), uses_append.2 ⟨places_uses hnone ?_,
    places_uses (places_opens _ _) ?_⟩⟩
  · exact fun id hid _ => .arg hid rfl
  · exact fun id hid _ => .result (.inl (zero_constantOf (h.locals.isData hid)))

theorem lowerBody_makes {globals : List Symbol} {d : FuncDecl} {f : Function}
    (params : List Symbol) (hbody : d.body.Typed ⟨globals, some f⟩) {fold initialized : Bool}
    {code : List Instr} {cur : Cursor} :
    Makes (some f) params code cur (lowerBody fold initialized d f) fun _ _ _ => True := by
  have hrest : ∀ code cur, Makes (some f) params code cur (do
      lowerBlock ⟨fold, some f⟩ d.body
      close (if f.result.isVoid then .ret none else .unreachable)) fun _ _ _ => True := by
    intro code cur
    refine (lowerBlock_makes (r := ⟨globals, some f⟩) rfl hbody code cur).bind fun _ _ _ _ _ => ?_
    refine .close ?_
    split <;> rfl
  unfold lowerBody
  dsimp only
  split
  · refine (Makes.instr ?_).bind fun code cur _ _ _ => hrest code cur
    refine List.forall_mem_singleton.2 (.ready ?_)
    exact Operand.ConstantOf.ready (x := .global .initializer) rfl _ _
  · exact hrest code cur

/-- Every operand of a definition can be used where it stands. -/
def Definition.UsesDefined (d : Definition) : Prop :=
  ∀ pre i post, d.code = pre ++ i :: post →
    ∀ x ∈ i.operands, x.operand.Valid d.params pre x.type

theorem Definition.Lowered.usesDefined {a : Analysis} {fold : Bool} {d : Definition}
    (h : d.Lowered a fold) (htyped : a.program.Typed ⟨a.globals, none⟩) : d.UsesDefined := by
  have huses : Uses d.params [] d.code := by
    cases h with
    | @function ds decl f initialized start out functions declared described lowered =>
        obtain ⟨hplaced, hlocals, hbody⟩ := htyped.described functions declared described
        obtain ⟨rest, hrest, rfl⟩ := lowerFunction_ok hplaced hlocals lowered
        obtain ⟨hbodyUses, -⟩ := lowerBody_makes f.params hbody (opening_places (some f)) rest hrest
        have huses : Uses f.params [] (opening (some f) ++ rest.code) :=
          uses_append.2 ⟨opening_uses hplaced, hbodyUses⟩
        exact huses
    | @initializer start out lowered =>
        obtain ⟨first, rest, hfirst, hrest, rfl⟩ := bind_eq_ok_iff.1 lowered
        cases hfirst
        have hmakes : Makes none [] [.label .entry] { start with closed := false } (do
            lowerBlock ⟨fold, none⟩ a.program
            close (.ret none)) fun _ _ _ => True :=
          (lowerBlock_makes (r := ⟨a.globals, none⟩) rfl htyped _ _).bind
            fun _ _ _ _ _ => .close rfl
        obtain ⟨hrestUses, -⟩ := hmakes (opening_places none) rest hrest
        exact ⟨fun _ hx => (nomatch hx), hrestUses⟩
  intro pre i post hcode
  rw [hcode] at huses
  exact huses.at

/-- What the code of an expression of a type comes down to. A call without a result has none; any
other expression has a constant of its type, or a register that the code defines at that type, with
no label after it. -/
def Operand.Carries (x : Operand) (ty : Ty) (code : List Instr) : Prop :=
  ty.isVoid = true ∧ x = .nothing ∨ x.Result code (.ofTy ty)

theorem carries_of_makes {f : Option Function} {x : Emit Operand} {ty : Ty}
    (h : ∀ code cur, Makes f [] code cur x fun code c y => y.Yielded ty code c) {cur : Cursor}
    {out : Emitted Operand} (hx : x cur = .ok out) : out.value.Carries ty out.code := by
  obtain ⟨-, hvoid | hready⟩ := h (opening f) cur (opening_places f) out hx
  · exact .inl hvoid
  · rcases hready.result with hconst | ⟨q, hq, hdefined⟩
    · exact .inr (.inl hconst)
    · exact .inr (.inr ⟨q, hq, hdefined.of_append (opening_dest f)⟩)

end Llvm

/-- Every operand is defined before it is used, at the type at which it is used. In the code of each
function, a register that an instruction uses at a type was defined at that type by an earlier
instruction of the same block, a place was made in the first block, a parameter has the type with
which it is passed, and anything else is a constant of the type. And the operand that lowering an
expression yields, before folding, before conversion or as used, is a constant of the type of the
expression or a register defined at that type since the last label. -/
theorem Analysis.llvm_operands_defined {b : Block} {a : Analysis}
    (ha : Analysis.ofProgram b = .ok a) (opts : Options) :
    ∃ module, Llvm.Module.ofAnalysis a opts = .ok module ∧
      (∀ d ∈ module.definitions, d.UsesDefined) ∧
      ∀ e ∈ a.program.exprs, ∃ f, e.Typed ⟨a.globals, f⟩ ∧
        ∀ ty used, e.note.type = some ty → e.usedType = some used → ty.isFunc = false →
          ∀ cursor, ∃ raw plain out,
            Llvm.lowerRaw ⟨opts.fold, f⟩ e cursor = .ok raw ∧ raw.value.Carries ty raw.code ∧
            Llvm.plain ⟨opts.fold, f⟩ e (Llvm.lowerRaw ⟨opts.fold, f⟩ e) cursor = .ok plain ∧
              plain.value.Carries ty plain.code ∧
            Llvm.lowerExpr ⟨opts.fold, f⟩ e cursor = .ok out ∧ out.value.Carries used out.code := by
  obtain ⟨htyped, -, hstatic⟩ := Analysis.ofProgram_checked ha
  obtain ⟨pos, stmts, t, stmts', -, -, rfl⟩ := Analysis.ofProgram_ok ha
  obtain ⟨module, hmodule⟩ := Llvm.Module.ofAnalysis_succeeds rfl htyped hstatic opts
  refine ⟨module, hmodule, fun d hd => (Llvm.Module.lowered hmodule d hd).usesDefined htyped,
    fun e he => ?_⟩
  obtain ⟨f, hf⟩ := Block.Typed.exprs htyped e he
  refine ⟨f, hf, fun ty used hty hused hfunc cursor => ?_⟩
  have hvalue : e.IsValue := ⟨ty, hty, hfunc⟩
  have hraw := Llvm.lowerRaw_succeeds (c := ⟨opts.fold, f⟩) rfl hf hvalue
  have hmakes : ∀ code cur, Llvm.Emit.Makes f [] code cur (Llvm.lowerRaw ⟨opts.fold, f⟩ e)
      fun code c x => x.Yielded ty code c :=
    fun code cur => Llvm.lowerRaw_makes rfl hf hvalue code cur ty hty
  obtain ⟨raw, hrawOk, -⟩ := hraw cursor
  obtain ⟨plain, hplainOk, -⟩ := Llvm.plain_succeeds (c := ⟨opts.fold, f⟩) (e := e) hraw cursor
  obtain ⟨out, houtOk, -⟩ := Llvm.used_succeeds (c := ⟨opts.fold, f⟩) hf hraw cursor
  refine ⟨raw, plain, out, hrawOk, Llvm.carries_of_makes hmakes hrawOk, hplainOk, ?_, houtOk, ?_⟩
  · exact Llvm.carries_of_makes (fun code cur => Llvm.plain_makes hf hty (hmakes code cur)) hplainOk
  · exact Llvm.carries_of_makes (fun code cur => Llvm.used_makes hf hty hused (hmakes code cur))
      houtOk

theorem Analysis.llvm_operands_defined_product :
    ∃ b a module d,
      Block.parse "(func float f ((float[] x) (int i)) (block (return (* 2.5 (index x 'a')))))" =
        .ok b ∧
      Analysis.ofProgram b = .ok a ∧ Llvm.Module.ofAnalysis a ⟨false, "program"⟩ = .ok module ∧
      d ∈ module.definitions ∧ .ret (some ⟨.double, .reg ⟨"fmul", 1⟩⟩) ∈ d.code ∧
      d.UsesDefined := by
  have htext : ((Analysis.ofText?
      "(func float f ((float[] x) (int i)) (block (return (* 2.5 (index x 'a')))))").any fun a =>
        (Llvm.Module.ofAnalysis a ⟨false, "program"⟩).toOption.any fun m =>
          m.definitions.any fun d =>
            d.code.contains (.ret (some ⟨.double, .reg ⟨"fmul", 1⟩⟩))) = true := by
    decide +kernel
  obtain ⟨a, ha, hany⟩ := (Option.any_eq_true _ _).1 htext
  obtain ⟨b, hb, ha⟩ := Analysis.ofText?_eq_some ha
  obtain ⟨module, hmodule, hall, -⟩ := Analysis.llvm_operands_defined ha ⟨false, "program"⟩
  rw [hmodule] at hany
  obtain ⟨d, hd, hcode⟩ := List.any_eq_true.1 hany
  exact ⟨b, a, module, d, hb, ha, hmodule, hd, List.contains_iff_mem.1 hcode, hall d hd⟩

end SmallC
