import SmallC.Proofs.CilMachine

/-!
# Folding is exact on CIL

A constant expression can be evaluated before the program runs, or lowered like
any other expression and left to the machine. On integers it makes no difference
which: the value that the evaluator finds is the word that the code pushes, and
the evaluator has none exactly if the code traps.

Both compute the meaning of the expression, so neither has to be compared with
the other.

An instruction is written down, and a negative integer is written as the word that
has its bits, in hexadecimal. So the text is read as an assembler would read it,
and denotes the word that is pushed.
-/

namespace SmallC

/-- The types of integers, characters and truth values. -/
def Ty.isOrdinal : Ty → Bool
  | .base k => k.isOrdinal
  | .array _ | .func _ _ | .absent => false

/-- Whether a value is an integer before conversion and as used. -/
def Note.isOrdinal (n : Note) : Bool := n.type.any Ty.isOrdinal && n.usedType.any Ty.isOrdinal

/-- Whether an expression computes with integers alone, conversions included. -/
def Expr.isOrdinal (e : Expr) : Bool := e.parts.all (·.note.isOrdinal)

theorem Note.Of.ordinal {n : Note} {ty : Ty} (h : n.Of ty) (hn : n.isOrdinal = true) :
    ∃ k m, ty = .base k ∧ k.isOrdinal = true ∧ n.Uses k m ∧ m.isOrdinal = true := by
  obtain ⟨htype, hused⟩ := Bool.and_eq_true_iff.1 hn
  rw [h.type] at htype
  cases ty with
  | base k =>
      cases hu : n.usedType with
      | none => rw [hu] at hused; cases hused
      | some ty =>
          rw [hu] at hused
          obtain ⟨m, rfl, huses⟩ := h.usedType_base hu
          exact ⟨k, m, rfl, htype, huses, hused⟩
  | array _ | func _ _ | absent => cases htype

theorem Expr.isOrdinal_unary {pos : Pos} {op : Op} {x : Expr} {note : Note}
    (h : (Expr.unary pos op x note).isOrdinal = true) :
    note.isOrdinal = true ∧ x.isOrdinal = true := by
  unfold Expr.isOrdinal at h ⊢
  rw [Expr.parts, List.all_cons, Bool.and_eq_true_iff] at h
  exact h

theorem Expr.isOrdinal_binary {pos : Pos} {op : Op} {x y : Expr} {note : Note}
    (h : (Expr.binary pos op x y note).isOrdinal = true) :
    note.isOrdinal = true ∧ x.isOrdinal = true ∧ y.isOrdinal = true := by
  unfold Expr.isOrdinal at h ⊢
  rw [Expr.parts, List.all_cons, List.all_append, Bool.and_eq_true_iff, Bool.and_eq_true_iff] at h
  exact h

theorem Expr.isOrdinal_note {e : Expr} (hm : e.isMissing = false) (h : e.isOrdinal = true) :
    e.note.isOrdinal = true :=
  List.all_eq_true.1 h e (Expr.mem_parts hm)

/-- A constant integer expression is one wherever it stands, since it reaches no storage. -/
theorem Expr.Typed.ordinal {r : Reach} (r' : Reach) {e : Expr} (h : e.Typed r) :
    e.Written → e.isConstant = true → e.isOrdinal = true →
      ∃ k m, e.note.type = some (.base k) ∧ e.note.Uses k m ∧ m.isOrdinal = true ∧
        e.Ordinal r' k := by
  induction h with
  | @literal pos text value note decoded note_of =>
      intro _ _ ho
      obtain ⟨k, m, hk, hordinal, huses, hm⟩ := note_of.ordinal (Expr.isOrdinal_note rfl ho)
      cases hk
      exact ⟨_, m, note_of.type, huses, hm, .literal decoded hordinal note_of.type⟩
  | ident _ => exact fun _ hc _ => (nomatch hc)
  | @unary pos op x note ty operand used numeric note_of ih =>
      intro hw hc ho
      obtain ⟨hn, hox⟩ := Expr.isOrdinal_unary ho
      obtain ⟨k, m, rfl, -, huses, hm⟩ := note_of.ordinal hn
      cases hw with
      | unary sign hw =>
          obtain ⟨j, l, htype, husesX, hl, hx⟩ := ih hw hc hox
          have hused : x.note.usedType = some (.base k) := used
          rw [husesX.usedType htype] at hused
          cases hused
          rcases numeric with hk | ⟨hk, -⟩
          · cases hk
            exact ⟨.int, m, note_of.type, huses, hm, .unary hx husesX sign note_of.type⟩
          · cases hk
            cases hl
  | @binary pos op x y note xType yType result left right usedLeft usedRight accepts once note_of
      ihx ihy =>
      intro hw hc ho
      obtain ⟨hn, hox, hoy⟩ := Expr.isOrdinal_binary ho
      obtain ⟨hcx, hcy⟩ := Bool.and_eq_true_iff.1 hc
      obtain ⟨k, m, hk, -, huses, hm⟩ := note_of.ordinal hn
      cases hk
      cases hw with
      | binary hwx hwy =>
          obtain ⟨i, p, htypeX, husesX, hp, hx⟩ := ihx hwx hcx hox
          obtain ⟨j, q, htypeY, husesY, -, hy⟩ := ihy hwy hcy hoy
          cases usedLeft.symm.trans (husesX.usedType htypeX)
          cases usedRight.symm.trans (husesY.usedType htypeY)
          have hres : op.result? p q = some result := accepts
          cases Op.result?_same hres
          exact ⟨result, m, note_of.type, huses, hm,
            .binary hx hy husesX husesY hp hres note_of.type⟩
  | index _ _ _ _ _ _ => exact fun _ hc _ => (nomatch hc)
  | call _ _ _ _ _ _ => exact fun _ hc _ => (nomatch hc)

/-! ## The text of a constant -/

/-- The number that a text writes in decimal. -/
def numeral? (text : String) : Option Int :=
  match text.toList with
  | '-' :: digits =>
    if Literal.isDecimal digits then some (-(Nat.ofDigitChars 10 digits 0 : Int)) else none
  | digits => if Literal.isDecimal digits then some (Nat.ofDigitChars 10 digits 0) else none

theorem isDecimal_toDigits (n : Nat) : Literal.isDecimal (Nat.toDigits 10 n) = true := by
  have hne : Nat.toDigits 10 n ≠ [] := Nat.toDigits_ne_nil
  have hall : ∀ c ∈ Nat.toDigits 10 n, c.isDigit = true :=
    fun c hc => Nat.isDigit_of_mem_toDigits (by omega) (by omega) hc
  simpa [Literal.isDecimal, hne] using hall

theorem numeral?_toString (n : Int) : numeral? (toString n) = some n := by
  cases n with
  | ofNat n =>
      have htext : (toString (Int.ofNat n)).toList = Nat.toDigits 10 n := Nat.toList_repr
      have hdecimal := isDecimal_toDigits n
      unfold numeral?
      rw [htext]
      split
      · next digits heq =>
          -- A digit is no sign.
          rw [heq] at hdecimal
          simp [Literal.isDecimal] at hdecimal
      · simp [hdecimal, Nat.ofDigitChars_ten_toDigits]
  | negSucc n =>
      have htext : (toString (Int.negSucc n)).toList = '-' :: Nat.toDigits 10 (n + 1) := by
        show ("-" ++ (n + 1).repr).toList = _
        rw [String.toList_append, Nat.toList_repr]
        rfl
      unfold numeral?
      rw [htext]
      simp only [isDecimal_toDigits, if_true, Nat.ofDigitChars_ten_toDigits, Option.some_inj]
      omega

/-- The value of a digit in upper-case hexadecimal. -/
def hexDigit? (c : Char) : Option Nat :=
  (List.range 16).find? fun d => (Nat.digitChar d).toUpper = c

/-- The number that digits write in hexadecimal, after digits that write `n`. -/
def hexFrom (n : Nat) : List Char → Option Nat
  | [] => some n
  | c :: rest => (hexDigit? c).bind fun d => hexFrom (16 * n + d) rest

theorem hexFrom_append (n : Nat) (cs rest : List Char) :
    hexFrom n (cs ++ rest) = (hexFrom n cs).bind (hexFrom · rest) := by
  induction cs generalizing n with
  | nil => rfl
  | cons c cs ih =>
      rw [List.cons_append, hexFrom, hexFrom, Option.bind_assoc]
      exact congrArg _ (funext fun d => ih _)

theorem hexFrom_singleton {d : Nat} (h : d < 16) (n : Nat) :
    hexFrom n [(Nat.digitChar d).toUpper] = some (16 * n + d) := by
  have hdigit : ∀ d < 16, hexDigit? (Nat.digitChar d).toUpper = some d := by decide
  rw [hexFrom, hdigit d h]
  rfl

/-- A number is read back from its digits. -/
theorem hexFrom_toDigits (n : Nat) :
    hexFrom 0 ((Nat.toDigits 16 n).map Char.toUpper) = some n := by
  induction n using Nat.strongRecOn with
  | ind n ih =>
      by_cases h : n < 16
      · rw [Nat.toDigits_of_lt_base h, List.map_singleton, hexFrom_singleton h, Nat.mul_zero,
          Nat.zero_add]
      · have hle : 16 ≤ n := Nat.le_of_not_lt h
        rw [Nat.toDigits_of_base_le (by omega) hle, List.map_append, hexFrom_append,
          ih (n / 16) (by omega), List.map_singleton, Option.bind_some,
          hexFrom_singleton (Nat.mod_lt n (by omega)), Nat.div_add_mod]

namespace Cil

/-- The number that a text writes in decimal, or in hexadecimal after `0x`. -/
def integer? (text : String) : Option Int :=
  match text.toList with
  | '0' :: 'x' :: digits => if digits.isEmpty then none else (hexFrom 0 digits).map Int.ofNat
  | _ => numeral? text

theorem integer?_toString (n : Nat) : integer? (toString n) = some (n : Int) := by
  have htext : (toString n).toList = Nat.toDigits 10 n := Nat.toList_repr
  unfold integer?
  split
  · next digits heq =>
      -- Among the digits of a number there is no letter.
      have hx : 'x' ∈ Nat.toDigits 10 n := by
        rw [← htext, heq]
        simp
      exact absurd (Nat.isDigit_of_mem_toDigits (by omega) (by omega) hx) (by decide)
  · exact numeral?_toString n

/-- The text of an integer denotes the word that has its bits. -/
theorem integer?_wordText (v : BitVec 32) : integer? (wordText v.toInt) = some (v.toNat : Int) := by
  have hword : (v.toInt % 0x100000000).toNat = v.toNat := by
    have hlt := v.isLt
    rw [BitVec.toInt_eq_toNat_cond]
    split <;> omega
  have htext : (wordText v.toInt).toList =
      '0' :: 'x' :: (Nat.toDigits 16 v.toNat).map Char.toUpper := by
    rw [wordText, hword, String.toList_append, String.toList_ofList]
    simp
  rw [integer?, htext]
  simp [hexFrom_toDigits]

example : wordText (-2) = "0xFFFFFFFE" := by decide +kernel

/-- The word that an instruction of a listing pushes, if it pushes an integer. It is written as a
signed number or by its bits. -/
def word? (i : Listing.Instr) : Option (BitVec 32) :=
  match i.op, i.args with
  | "ldc.i4.0", [] => some 0
  | "ldc.i4.1", [] => some 1
  | "ldc.i4.s", [text] =>
    (integer? text).bind fun n => if wrap 8 n = n then some (.ofInt 32 n) else none
  | "ldc.i4", [text] =>
    (integer? text).bind fun n =>
      if wrap 32 n = n ∨ 0 ≤ n ∧ n < 0x100000000 then some (.ofInt 32 n) else none
  | _, _ => none

/-- The text of the instruction that pushes a constant denotes the word that it pushes. -/
theorem word?_immediate {k : Base} (hk : k.isOrdinal = true) {v : BitVec 32} (hv : k.Fits 16 v) :
    word? (immediate (.ofWord k v)).render = some v := by
  cases k with
  | int =>
      show (integer? (wordText v.toInt)).bind _ = _
      rw [integer?_wordText, Option.bind_some, if_pos (by have := v.isLt; omega)]
      simp
  | char =>
      have hlt : v.toNat < 2 ^ 16 := hv
      have hint : v.toInt = v.toNat := BitVec.toInt_eq_toNat_of_lt (by omega)
      have hword : BitVec.ofInt 32 v.toNat = v := by simp
      show word? (if v.toInt ≤ 127 then Instr.ldcShort v.toInt else .ldcDec v.toInt).render = _
      rw [hint]
      split
      · next hshort =>
          have hbyte : wrap 8 v.toNat = v.toNat := by
            rw [wrap_eq]
            exact Int.bmod_eq_of_le (by omega) (by omega)
          show (integer? (toString v.toNat)).bind _ = _
          rw [integer?_toString, Option.bind_some, if_pos hbyte, hword]
      · show (integer? (toString v.toNat)).bind _ = _
        rw [integer?_toString, Option.bind_some, if_pos (by omega), hword]
  | bool => rcases hv with rfl | rfl <;> decide
  | void | float | unnamed _ => cases hk

/-! ## Folding -/

/-- The storage that a constant expression reaches. -/
def nowhere : Reach := ⟨[], none⟩

theorem not_stored_nowhere {sym : Symbol} : ¬sym.Stored nowhere := by
  unfold Symbol.Stored
  intro h
  split at h
  · cases h
  · cases h
  · obtain ⟨f, hf, -⟩ := h
    cases hf
  · obtain ⟨f, hf, -⟩ := h
    cases hf
  · exact h

theorem loadsFields_nowhere (c : Context) : LoadsFields c nowhere :=
  fun _ _ h => (not_stored_nowhere h).elim

theorem fits_nowhere (bits : Nat) (env : String → BitVec 32) : nowhere.Fits bits env :=
  fun _ _ h => (not_stored_nowhere h).elim

/-- With folding on, an expression that can be evaluated becomes one instruction. -/
theorem lowerExpr_folded {r : Reach} {f : Option Function} {e : Expr} {k : Base} {value : Value}
    (h : e.Ordinal r k) (hc : e.isConstant = true) (hv : precision.evalUsed e = some value) :
    lowerExpr ⟨true, f⟩ e = .ok [immediate value] := by
  have hfolded : ∀ eval : Expr → Option Value,
      Context.folded? ⟨true, f⟩ eval e = eval e := by
    intro eval
    unfold Context.folded?
    rw [hc]
    rfl
  unfold lowerExpr used
  split
  · next hconv =>
      have heval : precision.eval e = some value := by
        unfold Precision.evalUsed at hv
        rw [hconv] at hv
        exact hv
      unfold plain
      split
      · next hlit =>
          cases h with
          | @literal pos text v note decoded ordinal _ =>
              have hvalue : precision.literal v = (value, true) := by
                have hl := Precision.literal_ofWord precision_low decoded ordinal
                have heval : (some v).bind precision.literal? = some value := heval
                rw [Option.bind_some] at heval
                unfold Precision.literal? at heval
                rw [hl] at heval ⊢
                cases heval
                rfl
              rw [lowerRaw]
              show Except.ok [immediate (precision.literal v).1] = _
              rw [hvalue]
          | ident _ _ _ _ _ => cases hlit
          | unary _ _ _ _ => cases hlit
          | binary _ _ _ _ _ _ _ => cases hlit
      · rw [hfolded, heval]
  · rw [hfolded, hv]

end Cil

/-- Folding is exact on integers. Take a constant expression of a checked program that computes with
integers alone. Its code without folding pushes the word that the evaluator gives, from any stack,
and traps exactly if the evaluator gives none. With folding on it becomes one instruction wherever
the evaluator has a value. That instruction pushes the same word, and its text denotes that word. -/
theorem Analysis.cil_folding_exact {text : String} {b : Block} {a : Analysis}
    (hb : Block.parse text = .ok b) (ha : Analysis.ofProgram b = .ok a) {e : Expr}
    (he : e ∈ a.program.exprs) (hconst : e.isConstant = true) (hord : e.isOrdinal = true)
    (f : Option Function) :
    ∃ code, Cil.lowerExpr ⟨false, f⟩ e = .ok code ∧
      (∀ s v, Cil.machine.run code s = .next (s.push v) ↔
        ∃ value, Cil.precision.evalUsed e = some value ∧ value.code = v.toInt) ∧
      (∀ s, Cil.machine.run code s = .trap ↔ Cil.precision.evalUsed e = none) ∧
      ∀ value, Cil.precision.evalUsed e = some value →
        Cil.lowerExpr ⟨true, f⟩ e = .ok [Cil.immediate value] ∧
          (∀ s v, Cil.machine.run [Cil.immediate value] s = .next (s.push v) ↔
            value.code = v.toInt) ∧
          ∃ v, Cil.word? (Cil.immediate value).render = some v ∧ value.code = v.toInt := by
  obtain ⟨htyped, -, -⟩ := Analysis.ofProgram_checked ha
  obtain ⟨g, hg⟩ := Block.Typed.exprs htyped e he
  obtain ⟨k, m, -, huses, hm, hk⟩ :=
    hg.ordinal Cil.nowhere (Analysis.written hb ha e he) hconst hord
  have hfits := fun env => Cil.fits_nowhere 16 env
  -- The meaning is the same whatever the fields hold.
  have heval : ∀ env, Cil.precision.evalUsed e = (e.meaningUsed 16 env).map (.ofWord m) :=
    fun env => hk.evalUsed Cil.precision_low Cil.precision_high (hfits env) huses hm hconst
  obtain ⟨code, hcode, -, hrun⟩ :=
    Cil.lowerExpr_pushes (c := ⟨false, f⟩) (Cil.loadsFields_nowhere _) hk huses hm
  have hpush : ∀ (s : Cil.State) (v w : BitVec 32),
      Outcome.next (s.push v) = .next (s.push w) ↔ v = w := by
    intro s v w
    constructor
    · intro h
      injection h with h
      injection h with h _
      exact (List.cons.inj h).1
    · rintro rfl
      rfl
  refine ⟨code, hcode, fun s v => ?_, fun s => ?_, fun value hvalue => ⟨?_, fun s v => ?_, ?_⟩⟩
  · have hrun' : _ = s.pushed (e.meaningUsed 16 s.store.values) :=
      hrun s.store s.stack (hfits s.store.values)
    rw [hrun', heval s.store.values]
    cases hw : e.meaningUsed 16 s.store.values with
    | none => simp [Cil.State.pushed]
    | some w =>
        show Outcome.next (s.push w) = .next (s.push v) ↔
          ∃ value, some (Value.ofWord m w) = some value ∧ value.code = v.toInt
        rw [hpush]
        constructor
        · rintro rfl
          exact ⟨_, rfl, rfl⟩
        · rintro ⟨value, hvalue, hv⟩
          cases hvalue
          exact BitVec.toInt_inj.1 hv
  · have hrun' : _ = s.pushed (e.meaningUsed 16 s.store.values) :=
      hrun s.store s.stack (hfits s.store.values)
    rw [hrun', heval s.store.values]
    cases hw : e.meaningUsed 16 s.store.values with
    | none => simp [Cil.State.pushed]
    | some w => simp [Cil.State.pushed]
  · exact Cil.lowerExpr_folded hk hconst hvalue
  · rw [heval s.store.values] at hvalue
    obtain ⟨w, hw, rfl⟩ := Option.map_eq_some_iff.1 hvalue
    have hrun' : Cil.machine.run [Cil.immediate (.ofWord m w)] s = .next (s.push w) :=
      Cil.run_immediate hm (hk.fits_used huses hm Cil.precision_low (hfits _) w hw)
    rw [hrun', hpush]
    show w = v ↔ w.toInt = v.toInt
    rw [BitVec.toInt_inj]
  · rw [heval fun _ => 0] at hvalue
    obtain ⟨w, hw, rfl⟩ := Option.map_eq_some_iff.1 hvalue
    have hfit := hk.fits_used huses hm Cil.precision_low (hfits _) w hw
    exact ⟨w, Cil.word?_immediate hm hfit, rfl⟩

theorem Analysis.cil_folding_exact_mixed :
    ∃ b a e code, Block.parse "(var int (= x (- (+ 'a' (* 2 true)) 100)))" = .ok b ∧
      Analysis.ofProgram b = .ok a ∧ e ∈ a.program.exprs ∧
      Cil.lowerExpr ⟨false, none⟩ e = .ok code ∧
      ∀ s, Cil.machine.run code s = .next (s.push (-1)) := by
  have htext : ((Analysis.ofText? "(var int (= x (- (+ 'a' (* 2 true)) 100)))").any fun a =>
      a.program.exprs.any fun e => e.isConstant && e.isOrdinal &&
        (Cil.precision.evalUsed e).any (·.code = -1)) = true := by
    decide +kernel
  obtain ⟨a, ha, hany⟩ := (Option.any_eq_true _ _).1 htext
  obtain ⟨b, hb, ha⟩ := Analysis.ofText?_eq_some ha
  obtain ⟨e, he, hall⟩ := List.any_eq_true.1 hany
  simp only [Bool.and_eq_true] at hall
  obtain ⟨⟨hconst, hord⟩, hvalue⟩ := hall
  obtain ⟨value, hvalue, hcode⟩ := (Option.any_eq_true _ _).1 hvalue
  obtain ⟨code, hlower, hpush, -⟩ := Analysis.cil_folding_exact hb ha he hconst hord none
  refine ⟨b, a, e, code, hb, ha, he, hlower, fun s => (hpush s (-1)).2 ⟨value, hvalue, ?_⟩⟩
  exact of_decide_eq_true hcode

end SmallC
