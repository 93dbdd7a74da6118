import SmallC.Fold
import SmallC.Proofs.Meaning

/-!
# The evaluator of constants computes the meaning

The evaluator works with integers that it wraps around by hand, and the meaning
of an expression is a machine word. They are two readings of the same thing: the
evaluator has a value exactly where the expression has a meaning, and the value
is the word read as a signed integer. The proof goes operator by operator, and
what it rests on is that a word read as an integer is not changed by wrapping.

How many bits a character has only matters up to a point. There must be enough
for the characters that a literal can denote, and fewer than a word has.
-/

namespace SmallC

/-- The constant of a kind that a word stands for. -/
def Value.ofWord (kind : Base) (v : BitVec 32) : Value := .ordinal kind v.toInt

theorem Value.kind_ofWord (kind : Base) (v : BitVec 32) : (Value.ofWord kind v).kind = kind := rfl

/-! ## Words as integers -/

namespace Word

theorem wrap_toInt (v : BitVec 32) : wrap 32 v.toInt = v.toInt := BitVec.toInt_bmod_cancel v

theorem isTrue_ofWord (kind : Base) (v : BitVec 32) :
    (Value.ofWord kind v).isTrue = decide (v ≠ 0) := by
  have hiff : v.toInt = 0 ↔ v = 0 := BitVec.toInt_inj (y := 0)
  show (v.toInt != 0) = decide (v ≠ 0)
  rw [Bool.eq_iff_iff, bne_iff_ne, decide_eq_true_iff, ne_eq, ne_eq, hiff]

theorem bool_eq_ofWord (b : Bool) : Value.bool b = Value.ofWord .bool (ofBool b) := by
  cases b <;> rfl

/-- The last bits of a word, as an integer. Nothing is lost by reading the word as signed first. -/
theorem toInt_lowBits {bits : Nat} (hbits : bits < 32) (v : BitVec 32) :
    (lowBits bits v).toInt = v.toInt % 2 ^ bits := by
  have hpow : 2 ^ bits ≤ 2 ^ 31 := Nat.pow_le_pow_right (by omega) (by omega)
  have hlt : v.toNat % 2 ^ bits < 2 ^ bits := Nat.mod_lt _ (Nat.two_pow_pos bits)
  have hdvd : ((2 ^ bits : Nat) : Int) ∣ ((2 ^ 32 : Nat) : Int) :=
    Int.natCast_dvd_natCast.2 (Nat.pow_dvd_pow 2 (by omega))
  have hcast : (2 ^ bits : Int) = ((2 ^ bits : Nat) : Int) := by rw [Int.natCast_pow]; rfl
  have hleft : (lowBits bits v).toInt = (v.toNat % 2 ^ bits : Nat) := by
    unfold lowBits
    rw [BitVec.toInt_eq_toNat_of_lt] <;> rw [BitVec.toNat_ofNat, Nat.mod_eq_of_lt] <;> omega
  rw [hleft, hcast, ← Int.emod_emod_of_dvd v.toInt hdvd, BitVec.toInt_eq_toNat_bmod,
    Int.bmod_emod, Int.emod_emod_of_dvd _ hdvd, Int.natCast_emod]

theorem toInt_lowBits_small {bits : Nat} (hbits : bits < 32) (v : BitVec 32) :
    wrap 32 (v.toInt % 2 ^ bits) = v.toInt % 2 ^ bits := by
  rw [← toInt_lowBits hbits v]
  exact wrap_toInt _

end Word

/-! ## Operators -/

theorem Op.kinds_of_isArithmetic {op : Op} (h : op.isArithmetic = true) :
    op.isComparison = false ∧ op.isLogical = false ∧ op.isBitwise = false := by
  cases op <;> first | decide | cases h

theorem Op.kinds_of_isBitwise {op : Op} (h : op.isBitwise = true) :
    op.isComparison = false ∧ op.isLogical = false := by
  cases op <;> first | decide | cases h

theorem Op.kinds_of_isLogical {op : Op} (h : op.isLogical = true) : op.isComparison = false := by
  cases op <;> first | decide | cases h

namespace Precision

variable {p : Precision}

theorem convert_ofWord (hbits : p.charBits < 32) {src dst : Base} (hne : src ≠ dst)
    (hdst : dst.isOrdinal = true) (v : BitVec 32) :
    p.convert (.ofWord src v) dst = some (.ofWord dst (Word.convert p.charBits dst v)) := by
  unfold convert
  rw [Value.kind_ofWord, if_neg hne]
  cases dst with
  | int => rfl
  | char =>
      show some (Value.ordinal .char (wrap 32 (v.toInt % 2 ^ p.charBits))) = _
      rw [Word.toInt_lowBits_small hbits, ← Word.toInt_lowBits hbits]
      rfl
  | bool =>
      show some (Value.bool (Value.ofWord src v).isTrue) = _
      rw [Word.isTrue_ofWord, Word.bool_eq_ofWord]
      rfl
  | void => cases hdst
  | float => cases hdst
  | unnamed n => cases hdst

theorem used_ofWord (hbits : p.charBits < 32) {n : Note} {src dst : Base} (hu : n.Uses src dst)
    (hsrc : src.isOrdinal = true) (hdst : dst.isOrdinal = true) (v : Option (BitVec 32)) :
    p.used n.conv (v.map (.ofWord src)) =
      (v.map (Word.used p.charBits n.conv)).map (.ofWord dst) := by
  rcases hu with ⟨hc, rfl⟩ | ⟨hc, hmem⟩
  · rw [hc]
    cases v <;> rfl
  · have hne : src ≠ dst := by
      rintro rfl
      cases src <;> simp [Base.conversions] at hmem
    rw [hc]
    cases v with
    | none => rfl
    | some v => exact convert_ofWord hbits hne hdst v

theorem unary_ofWord {op : Op} (hop : op = .add ∨ op = .sub) (v : BitVec 32) :
    p.unary op (.ofWord .int v) = some (.ofWord .int (Word.unary op v)) := by
  rcases hop with rfl | rfl
  · rfl
  · show some (Value.int (wrap 32 (-wrap 32 v.toInt))) = some (.ofWord .int (-v))
    rw [Word.wrap_toInt]
    unfold Value.ofWord Value.int wrap
    rw [BitVec.toInt_neg]

theorem compareInt_toInt (op : Op) (x y : BitVec 32) :
    compareInt op x.toInt y.toInt = Word.compare? op x y := by
  unfold compareInt Word.compare?
  cases op with
  | eql => simp only [BitVec.toInt_inj]
  | neq => simp only [ne_eq, BitVec.toInt_inj]
  | lss => simp only [BitVec.slt_eq_decide]
  | leq => simp only [BitVec.sle_eq_decide]
  | gtr => simp only [BitVec.slt_eq_decide]
  | geq => simp only [BitVec.sle_eq_decide]
  | _ => rfl

theorem arithInt_toInt {op : Op} (hop : op.isArithmetic = true) (x y : BitVec 32) :
    arithInt op x.toInt y.toInt = (Word.binary op x y).map BitVec.toInt := by
  cases op with
  | add => exact congrArg some (BitVec.toInt_add x y).symm
  | sub => exact congrArg some BitVec.toInt_sub.symm
  | mul => exact congrArg some (BitVec.toInt_mul x y).symm
  | div =>
      have hzero : y.toInt = 0 ↔ y = 0 := BitVec.toInt_inj (y := 0)
      have hmin : x.toInt = -0x80000000 ↔ x = BitVec.intMin 32 :=
        BitVec.toInt_inj (y := BitVec.intMin 32)
      have hone : y.toInt = -1 ↔ y = -1 := BitVec.toInt_inj (y := -1)
      show (if y.toInt = 0 ∨ x.toInt = -0x80000000 ∧ y.toInt = -1 then none
        else some (x.toInt.tdiv y.toInt)) = (Word.divide x y).map BitVec.toInt
      unfold Word.divide
      simp only [hzero, hmin, hone]
      split
      · rfl
      · next hdiv =>
          have hne : x ≠ BitVec.intMin 32 ∨ y ≠ -1 :=
            Decidable.not_and_iff_or_not.1 fun hboth => hdiv (.inr hboth)
          rw [Option.map_some, BitVec.toInt_sdiv_of_ne_or_ne x y hne]
  | _ => cases hop

theorem bitwise_toInt {op : Op} (hop : op.isBitwise = true) (x y : BitVec 32) :
    bitwise op x.toInt y.toInt = (Word.binary op x y).map BitVec.toInt := by
  unfold bitwise
  rw [BitVec.ofInt_toInt, BitVec.ofInt_toInt]
  cases op <;> first | rfl | cases hop

theorem logical_fits {op : Op} (hop : op.isLogical = true) {bits : Nat} {x y : BitVec 32}
    (hx : Base.bool.Fits bits x) (hy : Base.bool.Fits bits y) :
    Word.binary op x y = some (Word.ofBool (logical op (decide (x ≠ 0)) (decide (y ≠ 0)))) := by
  cases op with
  | land => rcases hx with rfl | rfl <;> rcases hy with rfl | rfl <;> rfl
  | lor => rcases hx with rfl | rfl <;> rcases hy with rfl | rfl <;> rfl
  | _ => cases hop

theorem binary_ofWord {op : Op} {m n : Base} {bits : Nat} {x y : BitVec 32}
    (h : op.result? m m = some n) (hm : m.isOrdinal = true) (hx : m.Fits bits x)
    (hy : m.Fits bits y) :
    p.binary op (.ofWord m x) (.ofWord m y) = (Word.binary op x y).map (.ofWord n) := by
  have hsame : ¬(Value.ofWord m x).kind ≠ (Value.ofWord m y).kind := by
    rw [Value.kind_ofWord, Value.kind_ofWord]
    exact not_not_intro rfl
  unfold binary
  rw [if_neg hsame]
  rcases Op.result?_cases h hm with ⟨hop, rfl, rfl⟩ | ⟨hop, rfl, rfl⟩ | ⟨hop, rfl, rfl⟩ |
    ⟨hop, -, rfl⟩
  · obtain ⟨hcomp, hlog, hbit⟩ := Op.kinds_of_isArithmetic hop
    simp only [hcomp, hlog, hbit, Bool.false_eq_true, if_false]
    show (arithInt op (wrap 32 x.toInt) (wrap 32 y.toInt)).map Value.int = _
    rw [Word.wrap_toInt, Word.wrap_toInt, arithInt_toInt hop, Option.map_map]
    rfl
  · obtain ⟨hcomp, hlog⟩ := Op.kinds_of_isBitwise hop
    simp only [hcomp, hlog, hop, Bool.false_eq_true, if_false, if_true]
    show (bitwise op x.toInt y.toInt).map Value.int = _
    rw [bitwise_toInt hop, Option.map_map]
    rfl
  · simp only [Op.kinds_of_isLogical hop, hop, Bool.false_eq_true, if_false, if_true]
    rw [logical_fits hop hx hy, Word.isTrue_ofWord, Word.isTrue_ofWord, Word.bool_eq_ofWord]
    rfl
  · obtain ⟨b, hb, hword⟩ := Word.binary_of_isComparison hop x y
    have hcompare : compare op (.ofWord m x) (.ofWord m y) = some b :=
      (compareInt_toInt op x y).trans hb
    rw [if_pos hop, hcompare, hword]
    exact congrArg some (Word.bool_eq_ofWord b)

theorem literal_ofWord (hlow : 7 ≤ p.charBits) {text : String}
    {v : Value} (h : Literal.decode text = .ok v) (hv : v.kind.isOrdinal = true) :
    p.literal v = (.ofWord v.kind (BitVec.ofInt 32 v.code), true) := by
  obtain ⟨n, hn, hsmall, hchar, -⟩ := Literal.decode_ordinal h hv
  have hcode : v.code = n := by rw [hn]; rfl
  have htoInt : (BitVec.ofInt 32 n).toInt = n := by
    rw [BitVec.toInt_ofInt]
    exact wrap_of_small hsmall
  have hword : Value.ofWord v.kind (BitVec.ofInt 32 v.code) = .ordinal v.kind n := by
    unfold Value.ofWord
    rw [hcode, htoInt]
  rw [hword]
  cases hk : v.kind with
  | char =>
      rw [hk] at hn hchar
      have hlt := hchar rfl
      have hpow : 2 ^ 7 ≤ 2 ^ p.charBits := Nat.pow_le_pow_right (by omega) hlow
      have hmod : (n : Int) % 2 ^ p.charBits = n := by
        rw [Int.emod_eq_of_lt (by omega)]
        norm_cast
        omega
      rw [hn]
      show (Value.char ((n : Int) % 2 ^ p.charBits), true) = _
      rw [hmod]
      show (Value.ordinal .char (wrap 32 n), true) = _
      rw [wrap_of_small hsmall]
  | int => rw [hn, hk]; rfl
  | bool => rw [hn, hk]; rfl
  | void => rw [hk] at hv; cases hv
  | float => rw [hk] at hv; cases hv
  | unnamed i => rw [hk] at hv; cases hv

end Precision

/-! ## Expressions -/

section

variable {p : Precision} {r : Reach} {env : String → BitVec 32}

/-- The evaluator gives a constant expression the value that its meaning stands for, and none if it
has no meaning. -/
theorem Expr.Ordinal.eval (hlow : 7 ≤ p.charBits) (hhigh : p.charBits < 32)
    (henv : r.Fits p.charBits env) {e : Expr} {k : Base} (h : e.Ordinal r k)
    (hc : e.isConstant = true) : p.eval e = (e.meaning p.charBits env).map (.ofWord k) := by
  induction h with
  | @literal pos text value note decoded ordinal _ =>
      show (some value).bind p.literal? = _
      rw [Option.bind_some]
      unfold Precision.literal?
      rw [Precision.literal_ofWord hlow decoded ordinal]
      rfl
  | ident _ _ _ _ _ => cases hc
  | @unary pos op x note k operand uses sign _ ih =>
      show (p.used x.note.conv (p.eval x)).bind (p.unary op) = _
      rw [ih hc, Precision.used_ofWord hhigh uses operand.isOrdinal rfl, Expr.meaning]
      cases x.meaning p.charBits env with
      | none => rfl
      | some v => exact Precision.unary_ofWord (p := p) sign _
  | @binary pos op x y note j k m n left right usesLeft usesRight ordinal result _ ihx ihy =>
      obtain ⟨hcx, hcy⟩ := Bool.and_eq_true_iff.1 hc
      show ((p.used x.note.conv (p.eval x)).bind fun v =>
        (p.used y.note.conv (p.eval y)).bind fun w => p.binary op v w) = _
      rw [ihx hcx, ihy hcy, Precision.used_ofWord hhigh usesLeft left.isOrdinal ordinal,
        Precision.used_ofWord hhigh usesRight right.isOrdinal ordinal, Expr.meaning]
      have hx := left.fits hlow henv
      have hy := right.fits hlow henv
      cases hv : x.meaning p.charBits env with
      | none => rfl
      | some v =>
          cases hw : y.meaning p.charBits env with
          | none => rfl
          | some w =>
              exact Precision.binary_ofWord (p := p) result ordinal
                (Word.fits_used usesLeft ordinal (hx v hv))
                (Word.fits_used usesRight ordinal (hy w hw))

/-- The same of a constant expression as used. -/
theorem Expr.Ordinal.evalUsed (hlow : 7 ≤ p.charBits) (hhigh : p.charBits < 32)
    (henv : r.Fits p.charBits env) {e : Expr} {k m : Base} (h : e.Ordinal r k)
    (hu : e.note.Uses k m) (hm : m.isOrdinal = true) (hc : e.isConstant = true) :
    p.evalUsed e = (e.meaningUsed p.charBits env).map (.ofWord m) := by
  unfold Precision.evalUsed
  rw [h.eval hlow hhigh henv hc, Precision.used_ofWord hhigh hu h.isOrdinal hm]
  rfl

end

end SmallC
