import SmallC.Llvm.Lower
import SmallC.Proofs.Exec
import SmallC.Proofs.FoldMeaning

/-!
# Running LLVM

The register machine that the code of expressions and of scalar programs needs.
A value has the type it is used at: 32 bits for an integer, eight for a
character, one for a truth value. Where a value of another type turns up, the
machine does not know what to do.

A branch leads to the instruction after a label, and to fall into a label is no
way to get there: a block has to be left by its last instruction.
-/

namespace SmallC.Llvm

/-- A value. -/
inductive Datum where
  | i32 (v : BitVec 32)
  | i8 (v : BitVec 8)
  | i1 (b : Bool)
  /-- The address of something that has a global name. -/
  | ptr (g : Global)
deriving DecidableEq, Repr

/-- The type of a value. -/
def Datum.type : Datum → IrType
  | i32 _ => .i32
  | i8 _ => .i8
  | i1 _ => .i1
  | ptr _ => .ptr

/-- The registers, the global variables of the program and what has been printed. -/
structure State where
  regs : Reg → Option Datum
  memory : String → Option Datum
  output : List Printed

/-- Gives a register a value. -/
def State.define (s : State) (dest : Reg) (d : Datum) : State :=
  { s with regs := fun r => if r = dest then some d else s.regs r }

/-- The value of an operand that is used at a type. -/
def Operand.eval (regs : Reg → Option Datum) (type : IrType) : Operand → Option Datum
  | .int n =>
    match type with
    | .i32 => some (.i32 (BitVec.ofInt 32 n))
    | .i8 => some (.i8 (BitVec.ofInt 8 n))
    | _ => none
  | .bool b => if type = .i1 then some (.i1 b) else none
  | .global g => if type = .ptr then some (.ptr g) else none
  | .reg r => (regs r).filter (·.type = type)
  | _ => none

/-- The value of an operand that comes with its type. -/
def Typed.eval (regs : Reg → Option Datum) (x : Typed) : Option Datum := x.operand.eval regs x.type

/-- Whether a comparison holds. -/
def IntCmp.holds {w : Nat} (c : IntCmp) (x y : BitVec w) : Bool :=
  match c with
  | eq => x = y
  | ne => x ≠ y
  | slt => x.slt y
  | sle => x.sle y
  | sgt => y.slt x
  | sge => y.sle x
  | ult => x.ult y
  | ule => x.ule y
  | ugt => y.ult x
  | uge => y.ule x

/-- What an instruction on two operands computes. -/
def BinOp.apply (op : BinOp) (x y : Datum) : Outcome Datum :=
  match op, x, y with
  | add, .i32 x, .i32 y => .next (.i32 (x + y))
  | sub, .i32 x, .i32 y => .next (.i32 (x - y))
  | mul, .i32 x, .i32 y => .next (.i32 (x * y))
  | sdiv, .i32 x, .i32 y =>
    match Word.divide x y with
    | some v => .next (.i32 v)
    | none => .trap
  | and, .i32 x, .i32 y => .next (.i32 (x &&& y))
  | or, .i32 x, .i32 y => .next (.i32 (x ||| y))
  | xor, .i32 x, .i32 y => .next (.i32 (x ^^^ y))
  | and, .i1 x, .i1 y => .next (.i1 (x && y))
  | or, .i1 x, .i1 y => .next (.i1 (x || y))
  | icmp c, .i32 x, .i32 y => .next (.i1 (c.holds x y))
  | icmp c, .i8 x, .i8 y => .next (.i1 (c.holds x y))
  | icmp c, .i1 x, .i1 y => .next (.i1 (c.holds (BitVec.ofBool x) (BitVec.ofBool y)))
  | _, _, _ => .stuck

/-- What a cast makes of a value. -/
def Cast.convert? (op : Cast) (x : Datum) (type : IrType) : Option Datum :=
  match op, x, type with
  | trunc, .i32 v, .i8 => some (.i8 (v.setWidth 8))
  | zext, .i8 v, .i32 => some (.i32 (v.setWidth 32))
  | zext, .i1 b, .i32 => some (.i32 (if b then 1 else 0))
  | zext, .i1 b, .i8 => some (.i8 (if b then 1 else 0))
  | _, _, _ => none

/-- What is printed for a format and a value. -/
def printed? : List Datum → Option Printed
  | [.ptr (.support .fmtInt), .i32 v] => some (.int v.toInt)
  | [.ptr (.support .fmtStr), .ptr (.support .strTrue)] => some (.bool true)
  | [.ptr (.support .fmtStr), .ptr (.support .strFalse)] => some (.bool false)
  | _ => none

/-- The name of the global variable that an operand is the address of. -/
def Operand.place? : Operand → Option String
  | .global (.user name) => some name
  | _ => none

/-- Goes on if the value is there. -/
def fallWith (x : Option State) : Effect Label State :=
  match x with
  | some s => .fall s
  | none => .stuck

/-- What an instruction does. -/
def effect (i : Instr) (s : State) : Effect Label State :=
  match i with
  | .store value addr => fallWith do
    let d ← value.eval s.regs
    let name ← addr.place?
    let old ← s.memory name
    if old.type = d.type then
      some { s with memory := fun x => if x = name then some d else s.memory x }
    else none
  | .load dest type addr => fallWith do
    let name ← addr.place?
    let d ← (s.memory name).filter (·.type = type)
    some (s.define dest d)
  | .binary dest op x y =>
    match x.eval s.regs, y.eval s.regs x.type with
    | some d, some e =>
      match op.apply d e with
      | .next v => .fall (s.define dest v)
      | .trap => .trap
      | .stuck => .stuck
    | _, _ => .stuck
  | .cast dest op x type => fallWith do
    let d ← x.eval s.regs
    let v ← op.convert? d type
    some (s.define dest v)
  | .select dest cond yes no => fallWith do
    let c ← cond.eval s.regs .i1
    let d ← yes.eval s.regs .ptr
    let e ← no.eval s.regs .ptr
    some (s.define dest (if c = .i1 true then d else e))
  | .call none .i32 true (.support .printf) args => fallWith do
    let data ← args.mapM (·.eval s.regs)
    let p ← printed? data
    some { s with output := s.output ++ [p] }
  | .br l => .jump l s
  | .condBr cond yes no =>
    match cond.eval s.regs .i1 with
    | some (.i1 b) => .jump (if b then yes else no) s
    | _ => .stuck
  | .ret none => .halt
  | _ => .stuck

/-- The label that an instruction puts at its place. -/
def Instr.label? : Instr → Option Label
  | .label l => some l
  | _ => none

/-- The register machine. -/
def machine : Machine Instr Label State := ⟨Instr.label?, effect⟩

/-! ## Words as values -/

/-- The value that stands for a word of a kind. -/
def encode (kind : Base) (v : BitVec 32) : Datum :=
  match kind with
  | .char => .i8 (v.setWidth 8)
  | .bool => .i1 (v ≠ 0)
  | _ => .i32 v

theorem encode_type {k : Base} (hk : k.isOrdinal = true) (v : BitVec 32) :
    (encode k v).type = .ofBase k := by
  cases k <;> first | rfl | cases hk

theorem encode_ofBool (b : Bool) : encode .bool (Word.ofBool b) = .i1 b := by
  cases b <;> rfl

/-- The outcome of an operation on words, as values of a kind. -/
def encoded (kind : Base) : Option (BitVec 32) → Outcome Datum
  | some v => .next (encode kind v)
  | none => .trap

section

variable {x y v : BitVec 32}

theorem setWidth_inj (hx : x.toNat < 2 ^ 8) (hy : y.toNat < 2 ^ 8) :
    x.setWidth 8 = y.setWidth 8 ↔ x = y := by
  rw [← BitVec.toNat_inj, ← BitVec.toNat_inj, BitVec.toNat_setWidth, BitVec.toNat_setWidth]
  omega

/-- Characters are compared as unsigned bytes, which is the same as comparing their codes. -/
theorem holds_char {op : Op} {c : IntCmp} {b : Bool} (hop : scalarOp? op .char = some (.icmp c))
    (hx : x.toNat < 2 ^ 8) (hy : y.toNat < 2 ^ 8) (hb : Word.compare? op x y = some b) :
    c.holds (x.setWidth 8) (y.setWidth 8) = b := by
  have hxi : x.toInt = x.toNat := BitVec.toInt_eq_toNat_of_lt (by omega)
  have hyi : y.toInt = y.toNat := BitVec.toInt_eq_toNat_of_lt (by omega)
  have hxn : (x.setWidth 8).toNat = x.toNat := by
    rw [BitVec.toNat_setWidth, Nat.mod_eq_of_lt hx]
  have hyn : (y.setWidth 8).toNat = y.toNat := by
    rw [BitVec.toNat_setWidth, Nat.mod_eq_of_lt hy]
  cases op with
  | eql => cases hop; cases hb; exact decide_eq_decide.2 (setWidth_inj hx hy)
  | neq => cases hop; cases hb; exact decide_eq_decide.2 (not_congr (setWidth_inj hx hy))
  | lss =>
      cases hop; cases hb
      show (x.setWidth 8).ult (y.setWidth 8) = x.slt y
      rw [BitVec.ult_eq_decide, BitVec.slt_eq_decide, hxn, hyn, hxi, hyi, decide_eq_decide]
      omega
  | leq =>
      cases hop; cases hb
      show (x.setWidth 8).ule (y.setWidth 8) = x.sle y
      rw [BitVec.ule_eq_decide, BitVec.sle_eq_decide, hxn, hyn, hxi, hyi, decide_eq_decide]
      omega
  | gtr =>
      cases hop; cases hb
      show (y.setWidth 8).ult (x.setWidth 8) = y.slt x
      rw [BitVec.ult_eq_decide, BitVec.slt_eq_decide, hxn, hyn, hxi, hyi, decide_eq_decide]
      omega
  | geq =>
      cases hop; cases hb
      show (y.setWidth 8).ule (x.setWidth 8) = y.sle x
      rw [BitVec.ule_eq_decide, BitVec.sle_eq_decide, hxn, hyn, hxi, hyi, decide_eq_decide]
      omega
  | _ => cases hop

/-- The instruction of an operator computes it. -/
theorem apply_scalarOp {op : Op} {b : BinOp} {m n : Base} (h : op.result? m m = some n)
    (hm : m.isOrdinal = true) (hop : scalarOp? op m = some b) (hx : m.Fits 8 x)
    (hy : m.Fits 8 y) :
    b.apply (encode m x) (encode m y) = encoded n (Word.binary op x y) := by
  rcases Op.result?_cases h hm with ⟨hkind, rfl, rfl⟩ | ⟨hkind, rfl, rfl⟩ | ⟨hkind, rfl, rfl⟩ |
    ⟨hkind, hbool, rfl⟩
  · cases op with
    | add | sub | mul => cases hop; rfl
    | div =>
        cases hop
        show (match Word.divide x y with
          | some v => Outcome.next (Datum.i32 v) | none => .trap) = encoded .int (Word.divide x y)
        cases Word.divide x y <;> rfl
    | _ => cases hkind
  · cases op with
    | and | or | xor => cases hop; rfl
    | _ => cases hkind
  · cases op with
    | land | lor =>
        cases hop
        rcases hx with rfl | rfl <;> rcases hy with rfl | rfl <;> rfl
    | _ => cases hkind
  · obtain ⟨c, hc, hword⟩ := Word.binary_of_isComparison hkind x y
    rw [hword]
    show _ = Outcome.next (encode .bool (Word.ofBool c))
    rw [encode_ofBool]
    cases m with
    | int => cases op <;> first | (cases hop; cases hc; rfl) | cases hkind
    | char =>
        obtain ⟨i, rfl⟩ : ∃ i, b = .icmp i := by
          cases op <;> first | (cases hop; exact ⟨_, rfl⟩) | cases hkind
        exact congrArg (Outcome.next ∘ Datum.i1) (holds_char hop hx hy hc)
    | bool =>
        rcases hbool rfl with rfl | rfl <;> cases hop <;> cases hc <;>
          rcases hx with rfl | rfl <;> rcases hy with rfl | rfl <;> rfl
    | void | float | unnamed _ => cases hm

/-- A conversion to `bool` is a comparison with zero. -/
theorem apply_test {src : Base} (hsrc : src.isOrdinal = true) (hne : src ≠ .bool)
    (hv : src.Fits 8 v) (regs : Reg → Option Datum) :
    ∃ d, (Operand.int 0).eval regs (.ofBase src) = some d ∧
      (BinOp.icmp .ne).apply (encode src v) d = .next (encode .bool (Word.convert 8 .bool v)) := by
  cases src with
  | int =>
      refine ⟨_, rfl, ?_⟩
      rw [show Word.convert 8 .bool v = Word.ofBool (v ≠ 0) from rfl, encode_ofBool]
      rfl
  | char =>
      refine ⟨_, rfl, ?_⟩
      rw [show Word.convert 8 .bool v = Word.ofBool (v ≠ 0) from rfl, encode_ofBool]
      exact congrArg (Outcome.next ∘ Datum.i1)
        (decide_eq_decide.2 (not_congr (setWidth_inj (y := 0) hv (by decide))))
  | bool => exact absurd rfl hne
  | void | float | unnamed _ => cases hsrc

theorem setWidth_lowBits (v : BitVec 32) : (Word.lowBits 8 v).setWidth 8 = v.setWidth 8 := by
  unfold Word.lowBits
  rw [← BitVec.toNat_inj, BitVec.toNat_setWidth, BitVec.toNat_setWidth, BitVec.toNat_ofNat]
  omega

/-- Any other conversion is a cast. -/
theorem apply_cast {src dst : Base} {op : Cast} (h : cast? src dst = some op)
    (hsrc : src.isOrdinal = true) (hdst : dst.isOrdinal = true) (hv : src.Fits 8 v) :
    op.convert? (encode src v) (.ofBase dst) = some (encode dst (Word.convert 8 dst v)) := by
  cases src with
  | int =>
      cases dst with
      | char =>
          cases h
          show some (Datum.i8 (v.setWidth 8)) = some (.i8 ((Word.lowBits 8 v).setWidth 8))
          rw [setWidth_lowBits]
      | float => cases hdst
      | void | int | bool | unnamed _ => cases h
  | char =>
      cases dst with
      | int =>
          cases h
          have hkeep : (v.setWidth 8).setWidth 32 = v := by
            have hlt : v.toNat < 2 ^ 8 := hv
            rw [← BitVec.toNat_inj, BitVec.toNat_setWidth, BitVec.toNat_setWidth]
            omega
          show some (Datum.i32 ((v.setWidth 8).setWidth 32)) = some (.i32 v)
          rw [hkeep]
      | float => cases hdst
      | void | char | bool | unnamed _ => cases h
  | bool =>
      cases dst with
      | int | char => cases h; rcases hv with rfl | rfl <;> rfl
      | float => cases hdst
      | void | bool | unnamed _ => cases h
  | void | float | unnamed _ => cases hsrc

/-- A constant as an operand has the value of the word that it stands for. -/
theorem eval_immediate {k : Base} (hk : k.isOrdinal = true) (hv : k.Fits 8 v)
    (regs : Reg → Option Datum) :
    (immediate (.ofWord k v)).eval regs (.ofBase k) = some (encode k v) := by
  cases k with
  | int =>
      show some (Datum.i32 (BitVec.ofInt 32 (wrap 32 v.toInt))) = some (.i32 v)
      rw [Word.wrap_toInt, BitVec.ofInt_toInt]
  | char =>
      have hlt : v.toNat < 2 ^ 8 := hv
      have hint : v.toInt = v.toNat := BitVec.toInt_eq_toNat_of_lt (by omega)
      have hword : BitVec.ofInt 8 (wrap 8 v.toInt) = v.setWidth 8 := by
        rw [← BitVec.toInt_inj, BitVec.toInt_ofInt, hint, BitVec.toInt_eq_toNat_bmod,
          BitVec.toNat_setWidth, Nat.mod_eq_of_lt hlt]
        exact Int.bmod_bmod
      show some (Datum.i8 (BitVec.ofInt 8 (wrap 8 v.toInt))) = some (.i8 (v.setWidth 8))
      rw [hword]
  | bool => rcases hv with rfl | rfl <;> rfl
  | void | float | unnamed _ => cases hk

end

end SmallC.Llvm
