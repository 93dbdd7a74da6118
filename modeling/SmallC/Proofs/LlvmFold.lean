import SmallC.Proofs.CilFold
import SmallC.Proofs.LlvmExpr
import SmallC.Proofs.LlvmPlain

/-!
# Folding is exact on LLVM

As for the stack machine, a constant expression of integers may be evaluated
before the program runs or left to the machine, and the answer is the same. What
is different here is how a value is written down. The evaluator keeps a
character as a number from 0 to 255, a register holds eight bits of no sign, and
the text of a constant is the signed number with these bits. So the theorem
speaks of the text too, and reads it as an assembler would.

Where the code goes matters as well. An expression can follow an instruction
that has left its block, and then a label comes first. The code after the label
is what it would be anywhere else.
-/

namespace SmallC

namespace Llvm

/-- The constant that a value stands for. An address is none. -/
def Datum.value? : Datum → Option Value
  | i32 v => some (.int v.toInt)
  | i8 v => some (.ordinal .char v.toNat)
  | i1 b => some (.bool b)
  | ptr _ => none

theorem value?_inj {d d' : Datum} {value : Value} (h : d.value? = some value)
    (h' : d'.value? = some value) : d = d' := by
  have heq := h.trans h'.symm
  cases d with
  | ptr g => cases h
  | i32 v =>
      cases d' with
      | i32 w => simpa [Datum.value?, Value.int, BitVec.toInt_inj] using heq
      | i8 _ | i1 _ | ptr _ => cases heq
  | i8 v =>
      cases d' with
      | i8 w => simpa [Datum.value?, Int.natCast_inj, BitVec.toNat_inj] using heq
      | i32 _ | i1 _ | ptr _ => cases heq
  | i1 b =>
      cases d' with
      | i1 b' => cases b <;> cases b' <;> first | rfl | cases heq
      | i32 _ | i8 _ | ptr _ => cases heq

theorem value?_encode {k : Base} (hk : k.isOrdinal = true) {v : BitVec 32} (hv : k.Fits 8 v) :
    (encode k v).value? = some (.ofWord k v) := by
  cases k with
  | int => rfl
  | char =>
      have hlt : v.toNat < 2 ^ 8 := hv
      have hint : v.toInt = v.toNat := BitVec.toInt_eq_toNat_of_lt (by omega)
      have hbyte : (v.setWidth 8).toNat = v.toNat := by
        rw [BitVec.toNat_setWidth, Nat.mod_eq_of_lt hlt]
      simp only [encode, Datum.value?, Value.ofWord, hint, hbyte]
  | bool => rcases hv with rfl | rfl <;> rfl
  | void | float | unnamed _ => cases hk

/-! ## The text of a constant -/

/-- The value that a text denotes where a constant of a type is asked for. A number must be one
that the type has, read as signed. -/
def constant? (type : IrType) (text : String) : Option Datum :=
  match type with
  | .i32 => (numeral? text).bind fun n => if wrap 32 n = n then some (.i32 (.ofInt 32 n)) else none
  | .i8 => (numeral? text).bind fun n => if wrap 8 n = n then some (.i8 (.ofInt 8 n)) else none
  | .i1 =>
    if text = "true" then some (.i1 true)
    else if text = "false" then some (.i1 false)
    else none
  | _ => none

/-- The text of a constant denotes the word that the constant stands for. -/
theorem constant?_immediate {k : Base} (hk : k.isOrdinal = true) {v : BitVec 32}
    (hv : k.Fits 8 v) :
    constant? (.ofBase k) (immediate (.ofWord k v)).text = some (encode k v) := by
  rw [← eval_immediate hk hv fun _ => none]
  have hwrap : ∀ bits n, wrap bits (wrap bits n) = wrap bits n := fun _ _ => Int.bmod_bmod
  cases k with
  | int =>
      show (numeral? (toString (wrap 32 v.toInt))).bind _ = _
      rw [numeral?_toString, Option.bind_some, if_pos (hwrap _ _)]
      rfl
  | char =>
      show (numeral? (toString (wrap 8 v.toInt))).bind _ = _
      rw [numeral?_toString, Option.bind_some, if_pos (hwrap _ _)]
      rfl
  | bool => rcases hv with rfl | rfl <;> decide
  | void | float | unnamed _ => cases hk

/-! ## With folding on and off -/

theorem addressesGlobals_nowhere (c : Context) : AddressesGlobals c Cil.nowhere :=
  fun _ _ h => (Cil.not_stored_nowhere h).elim

theorem stores_nowhere (s : State) : Stores Cil.nowhere ⟨fun _ => 0, s.output⟩ s :=
  ⟨Cil.fits_nowhere 8 _, fun _ _ h => (Cil.not_stored_nowhere h).elim, rfl⟩

/-- With folding on, an expression that can be evaluated needs no code. -/
theorem lowerExpr_folded {r : Reach} {f : Option Function} {e : Expr} {k : Base} {value : Value}
    (h : e.Ordinal r k) (hc : e.isConstant = true) (hv : precision.evalUsed e = some value) :
    lowerExpr ⟨true, f⟩ e = pure (immediate value) := by
  have hfolded : ∀ eval : Expr → Option Value,
      Context.folded? ⟨true, f⟩ eval e = eval e := by
    intro eval
    simp [Context.folded?, hc]
  unfold lowerExpr used
  split
  · next hconv =>
      have heval : precision.eval e = some value := by
        simpa only [Precision.evalUsed, hconv, Precision.used] using hv
      unfold plain
      split
      · next hlit =>
          cases h with
          | @literal pos text v note decoded ordinal _ =>
              have hvalue : (precision.literal v).1 = value := by
                have heval : (some v).bind precision.literal? = some value := heval
                rw [Option.bind_some] at heval
                unfold Precision.literal? at heval
                rw [Precision.literal_ofWord precision_low decoded ordinal] at heval ⊢
                cases heval
                rfl
              have hliteral : literalValue pos text (some v) = .ok v := rfl
              rw [lowerRaw, ofExcept_bind hliteral, hvalue]
          | ident _ _ _ _ _ => cases hlit
          | unary _ _ _ _ => cases hlit
          | binary _ _ _ _ _ _ _ => cases hlit
      · rw [hfolded, heval]
  · rw [hfolded, hv]

end Llvm

/-- Folding is exact on integers. Take a constant expression of a checked program that computes with
integers alone, and any place for its code. Without folding, running the code makes the operand hold
the value that the evaluator gives, whatever the registers and the memory hold before, and the code
traps exactly if the evaluator gives none. With folding on the operand is a constant wherever the
evaluator has a value, and the text of that constant denotes the same value at the type of the
expression. -/
theorem Analysis.llvm_folding_exact {text : String} {b : Block} {a : Analysis}
    (hb : Block.parse text = .ok b) (ha : Analysis.ofProgram b = .ok a) {e : Expr}
    (he : e ∈ a.program.exprs) (hconst : e.isConstant = true) (hord : e.isOrdinal = true)
    (f : Option Function) (c : Llvm.Cursor) :
    ∃ kind out code, e.note.usedType = some (.base kind) ∧
      Llvm.lowerExpr ⟨false, f⟩ e c = .ok out ∧
      (out.code = code ∨
        c.closed = true ∧ out.code = Llvm.Instr.label (.after (c.control + 1)) :: code) ∧
      (∀ s d, (∃ s', Llvm.machine.run code s = .next s' ∧
          out.value.eval s'.regs (.ofBase kind) = some d) ↔
        ∃ value, Llvm.precision.evalUsed e = some value ∧ d.value? = some value) ∧
      (∀ s, Llvm.machine.run code s = .trap ↔ Llvm.precision.evalUsed e = none) ∧
      ∀ value, Llvm.precision.evalUsed e = some value →
        Llvm.lowerExpr ⟨true, f⟩ e c = .ok ⟨Llvm.immediate value, c, []⟩ ∧
          ∃ d, Llvm.constant? (.ofBase kind) (Llvm.immediate value).text = some d ∧
            d.value? = some value := by
  obtain ⟨htyped, -, -⟩ := Analysis.ofProgram_checked ha
  obtain ⟨g, hg⟩ := Block.Typed.exprs htyped e he
  obtain ⟨k, m, htype, huses, hm, hk⟩ :=
    hg.ordinal Cil.nowhere (Analysis.written hb ha e he) hconst hord
  have hfits := Cil.fits_nowhere 8 fun _ => 0
  have heval : Llvm.precision.evalUsed e = (e.meaningUsed 8 fun _ => 0).map (.ofWord m) :=
    hk.evalUsed Llvm.precision_low Llvm.precision_high hfits huses hm hconst
  have hword : ∀ w, (e.meaningUsed 8 fun _ => 0) = some w → m.Fits 8 w :=
    fun w hw => hk.fits_used huses hm Llvm.precision_low hfits w hw
  -- In an open block the code computes the meaning, so it does after a label.
  obtain ⟨out, code, hout, ⟨hnext, htrap⟩, hcode⟩ :=
    (Llvm.lowerExpr_plain ⟨false, f⟩ e).anywhere (P := fun x code =>
      (∀ s w, (e.meaningUsed 8 fun _ => 0) = some w →
        ∃ s', Llvm.machine.run code s = .next s' ∧ x.Holds m w s') ∧
      ∀ s, (e.meaningUsed 8 fun _ => 0) = none → Llvm.machine.run code s = .trap) (by
        intro c hc
        obtain ⟨out, hout, hcomputes⟩ :=
          Llvm.lowerExpr_evaluates (Llvm.addressesGlobals_nowhere ⟨false, f⟩) hk huses hm c hc
        refine ⟨out, hout, fun s w hw => ?_, fun s => hcomputes.trap _ s (Llvm.stores_nowhere s)⟩
        obtain ⟨s', hrun, -, hholds⟩ := hcomputes.next _ s w (Llvm.stores_nowhere s) hw
        exact ⟨s', hrun, hholds⟩) c
  refine ⟨m, out, code, huses.usedType htype, hout, hcode, fun s d => ?_, fun s => ?_,
    fun value hvalue => ⟨?_, ?_⟩⟩
  · rw [heval]
    cases hw : e.meaningUsed 8 fun _ => 0 with
    | none => simp [htrap s hw]
    | some w =>
        obtain ⟨s', hrun, hholds⟩ := hnext s w hw
        have hvalue := Llvm.value?_encode hm (hword w hw)
        constructor
        · rintro ⟨s'', hrun', hd⟩
          cases hrun.symm.trans hrun'
          cases hholds.symm.trans hd
          exact ⟨_, rfl, hvalue⟩
        · rintro ⟨value, hsome, hd⟩
          cases hsome
          cases Llvm.value?_inj hvalue hd
          exact ⟨s', hrun, hholds⟩
  · rw [heval]
    cases hw : e.meaningUsed 8 fun _ => 0 with
    | none => simp [htrap s hw]
    | some w =>
        obtain ⟨s', hrun, -⟩ := hnext s w hw
        simp [hrun]
  · rw [Llvm.lowerExpr_folded hk hconst hvalue]
    rfl
  · rw [heval] at hvalue
    obtain ⟨w, hw, rfl⟩ := Option.map_eq_some_iff.1 hvalue
    exact ⟨_, Llvm.constant?_immediate hm (hword w hw), Llvm.value?_encode hm (hword w hw)⟩

theorem Analysis.llvm_folding_exact_negative :
    ∃ b a e, Block.parse "(var char (= x (+ 100 'd')))" = .ok b ∧ Analysis.ofProgram b = .ok a ∧
      e ∈ a.program.exprs ∧
      Llvm.lowerExpr ⟨true, none⟩ e .start = .ok ⟨.int (-56), .start, []⟩ ∧
      ∃ out, Llvm.lowerExpr ⟨false, none⟩ e .start = .ok out ∧
        ∀ s, ∃ s', Llvm.machine.run out.code s = .next s' ∧
          out.value.eval s'.regs .i8 = some (.i8 200) := by
  have htext : ((Analysis.ofText? "(var char (= x (+ 100 'd')))").any fun a =>
      a.program.exprs.any fun e => e.isConstant && e.isOrdinal &&
        e.note.usedType == some (.base .char) &&
        Llvm.precision.evalUsed e == some (.ordinal .char 200)) = true := by
    decide +kernel
  obtain ⟨a, ha, hany⟩ := (Option.any_eq_true _ _).1 htext
  obtain ⟨b, hb, ha⟩ := Analysis.ofText?_eq_some ha
  obtain ⟨e, he, hall⟩ := List.any_eq_true.1 hany
  simp only [Bool.and_eq_true, beq_iff_eq] at hall
  obtain ⟨⟨⟨hconst, hord⟩, hchar⟩, hvalue⟩ := hall
  obtain ⟨kind, out, code, hkind, hout, hcode, hruns, -, hfold⟩ :=
    Analysis.llvm_folding_exact hb ha he hconst hord none .start
  cases hkind.symm.trans hchar
  rcases hcode with rfl | ⟨hclosed, -⟩
  · refine ⟨b, a, e, hb, ha, he, (hfold _ hvalue).1, out, hout, fun s => ?_⟩
    exact (hruns s (.i8 200)).2 ⟨_, hvalue, rfl⟩
  · cases hclosed

end SmallC
