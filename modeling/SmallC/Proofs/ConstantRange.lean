import SmallC.Cil.Lower
import SmallC.Llvm.Lower
import SmallC.Proofs.CheckTyping
import SmallC.Proofs.Kinds
import SmallC.Proofs.Written

/-!
# Constants in range

The evaluator of constants computes with unbounded integers and never asks for a
type. All the same, what it finds for an expression of a checked program is a
value of the type that the expression was given, and one that the target can
hold: an `int` has 32 bits, a `char` as many as the target says, and a `bool` is
0 or 1.

The second half is about where the evaluator finds nothing. Integers alone give
it no reason to stop except a quotient, but a number written with a point can
still be out of range where it is converted to an integer. So the numbers of an
expression that computes with integers decide whether it has a value, each of
them on its own.
-/

namespace SmallC

theorem wrap_range (n : Int) : -0x80000000 ≤ wrap 32 n ∧ wrap 32 n < 0x80000000 := by
  have hlow := Int.le_bmod (x := n) (m := 2 ^ 32) (by decide)
  have hhigh := Int.bmod_lt (x := n) (m := 2 ^ 32) (by decide)
  rw [wrap_eq]
  omega

theorem wrap_of_range {n : Int} (hlow : -0x80000000 ≤ n) (hhigh : n < 0x80000000) :
    wrap 32 n = n := by
  rw [wrap_eq]
  exact Int.bmod_eq_of_le_mul_two (by omega) (by omega)

theorem two_pow_le_word {bits : Nat} (h : bits < 32) : (2 : Int) ^ bits ≤ 0x80000000 := by
  have hpow : 2 ^ bits ≤ 2 ^ 31 := Nat.pow_le_pow_right (by omega) (by omega)
  have hcast : (2 ^ bits : Int) = ((2 ^ bits : Nat) : Int) := by rw [Int.natCast_pow]; rfl
  omega

theorem wrap_two_pow {bits : Nat} (h : bits < 32) : wrap 64 (Int.pow 2 bits) = 2 ^ bits := by
  have hle := two_pow_le_word h
  have hpos : (0 : Int) < 2 ^ bits := Int.pow_pos (by decide)
  have hpow : Int.pow 2 bits = 2 ^ bits := rfl
  rw [wrap_eq, hpow]
  exact Int.bmod_eq_of_le_mul_two (by omega) (by omega)

/-- What a type converts to is an integer kind unless it is `float`. -/
theorem Ty.isOrdinal_of_mem_conversions {ty : Ty} {b : Base} (h : b ∈ ty.conversions)
    (hne : b ≠ .float) : b.isOrdinal = true := by
  cases ty with
  | base k =>
      cases k <;> simp [Ty.conversions, Base.conversions] at h <;>
        rcases h with rfl | rfl | rfl <;> first | rfl | exact absurd rfl hne
  | array _ | func _ _ | absent => cases h

/-- A kind of constants is an integer kind unless it is `float`. -/
theorem Value.Of.isOrdinal {k : Base} {v : Value} (h : v.Of k) (hne : k ≠ .float) :
    k.isOrdinal = true := by
  cases h with
  | ordinal isOrdinal _ => exact isOrdinal
  | real _ => exact absurd rfl hne

/-- Whether an expression is a quotient. -/
def Expr.isQuotient : Expr → Bool
  | .binary _ .div _ _ _ => true
  | _ => false

/-! ## The values of a target -/

namespace Precision

/-- The values that a target can hold: integers of 32 bits, characters of as many bits as the
target says, 0 and 1 for the truth values, and finite numbers. -/
def InRange (p : Precision) : Value → Prop
  | .ordinal .int n => -0x80000000 ≤ n ∧ n < 0x80000000
  | .ordinal .char n => 0 ≤ n ∧ n < 2 ^ p.charBits
  | .ordinal .bool n => n = 0 ∨ n = 1
  | .ordinal _ _ => False
  | .real bits => isFinite bits = true

variable {p : Precision} {v w : Value} {k m : Base}

theorem inRange_bool (p : Precision) (b : Bool) : p.InRange (.bool b) := by
  cases b
  · exact .inl rfl
  · exact .inr rfl

theorem inRange_wrap (p : Precision) (n : Int) : p.InRange (.int (wrap 32 n)) := wrap_range n

theorem inRange_word (p : Precision) (v : BitVec 32) : p.InRange (.int v.toInt) := by
  rw [← Word.wrap_toInt]
  exact inRange_wrap p _

theorem inRange_char (hbits : p.charBits < 32) {n : Int} (hlow : 0 ≤ n)
    (hhigh : n < 2 ^ p.charBits) : p.InRange (.char n) := by
  have hle := two_pow_le_word hbits
  have hn : wrap 32 n = n := wrap_of_range (by omega) (by omega)
  show 0 ≤ wrap 32 n ∧ wrap 32 n < 2 ^ p.charBits
  rw [hn]
  exact ⟨hlow, hhigh⟩

theorem inRange_charCode (hbits : p.charBits < 32) (n : Int) :
    p.InRange (.char (p.charCode n)) := by
  have hpos : (0 : Int) < 2 ^ p.charBits := Int.pow_pos (by decide)
  exact inRange_char hbits (Int.emod_nonneg n (Int.ne_of_gt hpos)) (Int.emod_lt_of_pos n hpos)

theorem inRange_float? {bits : UInt64} (h : p.float? bits = some w) : p.InRange w := by
  simp only [float?] at h
  split at h
  · next hfinite =>
      cases h
      exact hfinite
  · cases h

/-- Every character is an integer, and so is every truth value. -/
theorem InRange.int (hbits : p.charBits < 32) {n : Int} (h : p.InRange (.ordinal k n)) :
    p.InRange (.int n) := by
  have hle := two_pow_le_word hbits
  show -0x80000000 ≤ n ∧ n < 0x80000000
  cases k with
  | int => exact h
  | char =>
      obtain ⟨hlow, hhigh⟩ := h
      omega
  | bool => rcases h with rfl | rfl <;> omega
  | void | float | unnamed _ => exact h.elim

/-! ## What the evaluator finds -/

theorem inRange_literal? (hbits : p.charBits < 32) {text : String}
    (hv : Literal.decode text = .ok v) (h : p.literal? v = some w) : p.InRange w := by
  cases v with
  | real bits =>
      unfold literal? literal at h
      simp only at h
      split at h
      · next hfinite =>
          cases h
          exact hfinite
      · cases h
  | ordinal kind n =>
      cases Literal.decode_of hv with
      | ordinal isOrdinal _ =>
          obtain ⟨i, hi, hsmall, -, hbool⟩ := Literal.decode_ordinal hv isOrdinal
          cases hi
          cases kind with
          | int =>
              cases h
              show -0x80000000 ≤ (i : Int) ∧ (i : Int) < 0x80000000
              omega
          | char =>
              cases h
              exact inRange_charCode hbits _
          | bool =>
              cases h
              rcases hbool rfl with rfl | rfl
              · exact .inl rfl
              · exact .inr rfl
          | void | float | unnamed _ => cases isOrdinal

theorem inRange_convert (hbits : p.charBits < 32) (hv : p.InRange v)
    (h : p.convert v m = some w) : p.InRange w := by
  unfold convert at h
  split at h
  · cases h
    exact hv
  · split at h
    · cases h
      exact inRange_bool p _
    · exact inRange_float? h
    · cases h
      exact hv.int hbits
    · obtain ⟨n, -, hn⟩ := Option.bind_eq_some_iff.1 h
      split at hn
      · next hrange =>
          cases hn
          exact hrange
      · cases hn
    · cases h
      exact inRange_charCode hbits _
    · obtain ⟨n, -, hn⟩ := Option.bind_eq_some_iff.1 h
      split at hn
      · next hrange =>
          cases hn
          obtain ⟨hlow, hhigh⟩ := hrange
          rw [wrap_two_pow hbits] at hhigh
          have hle := two_pow_le_word hbits
          have hclamp : clamp32 n = n := if_pos (by omega)
          rw [hclamp]
          exact inRange_char hbits hlow hhigh
      · cases hn
    · cases h

theorem inRange_unary {op : Op} (hv : p.InRange v) (h : p.unary op v = some w) :
    p.InRange w := by
  unfold unary at h
  split at h
  · cases h
    exact hv
  · split at h
    · exact inRange_float? h
    · cases h
      exact inRange_wrap p _

/-- The sum, difference, product or quotient of two words is a word. -/
theorem inRange_arithInt {op : Op} {x y n : Int}
    (h : arithInt op (wrap 32 x) (wrap 32 y) = some n) : p.InRange (.int n) := by
  have hword : ∀ i, wrap 32 i = (BitVec.ofInt 32 i).toInt := fun i => (BitVec.toInt_ofInt i).symm
  have hop : op.isArithmetic = true := by
    cases op <;> first | rfl | cases h
  rw [hword, hword, arithInt_toInt hop] at h
  obtain ⟨u, -, rfl⟩ := Option.map_eq_some_iff.1 h
  exact inRange_word p u

theorem inRange_bitwise {op : Op} {x y n : Int} (h : bitwise op x y = some n) :
    p.InRange (.int n) := by
  unfold bitwise at h
  split at h
  · cases h; exact inRange_word p _
  · cases h; exact inRange_word p _
  · cases h; exact inRange_word p _
  · cases h

theorem inRange_binary {op : Op} {x y : Value} (h : p.binary op x y = some w) : p.InRange w := by
  unfold binary at h
  split at h
  · cases h
  · split at h
    · obtain ⟨b, -, rfl⟩ := Option.map_eq_some_iff.1 h
      exact inRange_bool p b
    · split at h
      · cases h
        exact inRange_bool p _
      · split at h
        · obtain ⟨n, hn, rfl⟩ := Option.map_eq_some_iff.1 h
          exact inRange_bitwise hn
        · split at h
          · obtain ⟨r, -, hr⟩ := Option.bind_eq_some_iff.1 h
            exact inRange_float? hr
          · obtain ⟨n, hn, rfl⟩ := Option.map_eq_some_iff.1 h
            exact inRange_arithInt hn

theorem inRange_used (hbits : p.charBits < 32) {conv : Option Conversion} {x : Option Value}
    (hx : ∀ v, x = some v → p.InRange v) (h : p.used conv x = some w) : p.InRange w := by
  cases conv with
  | none => exact hx w h
  | some c =>
      obtain ⟨v, hv, hw⟩ := Option.bind_eq_some_iff.1 h
      exact inRange_convert hbits (hx v hv) hw

/-- Every constant that the evaluator finds in a typed expression is in range. -/
theorem inRange_eval (hbits : p.charBits < 32) {r : Reach} {e : Expr} (h : e.Typed r) :
    ∀ v, p.eval e = some v → p.InRange v := by
  induction h with
  | literal decoded _ => exact fun _ hv => inRange_literal? hbits decoded hv
  | ident _ => exact fun _ hv => (nomatch hv)
  | unary _ _ _ _ ih =>
      intro v hv
      obtain ⟨x, hx, hv⟩ := Option.bind_eq_some_iff.1 hv
      exact inRange_unary (inRange_used hbits ih hx) hv
  | binary _ _ _ _ _ _ _ _ _ =>
      intro v hv
      obtain ⟨x, -, hv⟩ := Option.bind_eq_some_iff.1 hv
      obtain ⟨y, -, hv⟩ := Option.bind_eq_some_iff.1 hv
      exact inRange_binary hv
  | index _ _ _ _ _ _ => exact fun _ hv => (nomatch hv)
  | call _ _ _ _ _ _ => exact fun _ hv => (nomatch hv)

theorem exists_of_used {conv : Option Conversion} {x : Option Value} (h : p.used conv x = some w) :
    ∃ v, x = some v := by
  cases conv with
  | none => exact ⟨w, h⟩
  | some c =>
      obtain ⟨v, hv, -⟩ := Option.bind_eq_some_iff.1 h
      exact ⟨v, hv⟩

/-- Only expressions made of literals alone have a constant. -/
theorem isConstant_of_eval {e : Expr} (h : p.eval e = some v) : e.isConstant = true := by
  induction e using Expr.isConstant.induct generalizing v with
  | case1 => rfl
  | case2 _ _ _ ih =>
      obtain ⟨x, hx, -⟩ := Option.bind_eq_some_iff.1 h
      exact ih hx
  | case3 _ _ _ _ ih =>
      obtain ⟨x, hx, -⟩ := Option.bind_eq_some_iff.1 h
      obtain ⟨x, hx⟩ := exists_of_used hx
      exact ih hx
  | case4 _ _ _ _ _ ihx ihy =>
      obtain ⟨x, hx, h⟩ := Option.bind_eq_some_iff.1 h
      obtain ⟨y, hy, -⟩ := Option.bind_eq_some_iff.1 h
      obtain ⟨x, hx⟩ := exists_of_used hx
      obtain ⟨y, hy⟩ := exists_of_used hy
      exact Bool.and_eq_true_iff.2 ⟨ihx hx, ihy hy⟩
  | case5 e hliteral hconvert hunary hbinary =>
      cases e with
      | literal _ _ _ _ => exact (hliteral _ _ _ _ rfl).elim
      | convert _ _ _ => exact (hconvert _ _ _ rfl).elim
      | unary _ _ _ _ => exact (hunary _ _ _ _ rfl).elim
      | binary _ _ _ _ _ => exact (hbinary _ _ _ _ _ rfl).elim
      | missing | ident _ | index _ _ _ _ | call _ _ _ _ => cases h

/-! ## Where the evaluator finds a value -/

theorem exists_convert (hv : v.Of k) (hk : k.isOrdinal = true) (hm : m.isOrdinal = true) :
    ∃ w, p.convert v m = some w := by
  cases hv with
  | real _ => cases hk
  | ordinal _ n =>
      unfold convert
      split
      · exact ⟨_, rfl⟩
      · cases m with
        | int | char | bool => exact ⟨_, rfl⟩
        | void | float | unnamed _ => cases hm

theorem exists_unary {op : Op} (hv : v.Of k) (hk : k.isOrdinal = true) :
    ∃ w, p.unary op v = some w := by
  cases hv with
  | real _ => cases hk
  | ordinal _ n =>
      unfold unary
      split
      · exact ⟨_, rfl⟩
      · exact ⟨_, rfl⟩

theorem exists_compareInt {op : Op} (h : op.isComparison = true) (x y : Int) :
    ∃ b, compareInt op x y = some b := by
  cases op <;> first | exact ⟨_, rfl⟩ | cases h

theorem exists_bitwise {op : Op} (h : op.isBitwise = true) (x y : Int) :
    ∃ n, bitwise op x y = some n := by
  cases op <;> first | exact ⟨_, rfl⟩ | cases h

theorem exists_arithInt {op : Op} (h : op.isArithmetic = true) (hdiv : op ≠ .div) (x y : Int) :
    ∃ n, arithInt op x y = some n := by
  cases op <;> first | exact ⟨_, rfl⟩ | exact absurd rfl hdiv | cases h

/-- The only operator that may have no value on integers is the quotient. -/
theorem exists_binary {op : Op} {x y : Value} (hres : op.result? m m = some k)
    (hm : m.isOrdinal = true) (hdiv : op ≠ .div) (hx : x.Of m) (hy : y.Of m) :
    ∃ w, p.binary op x y = some w := by
  cases hx with
  | real _ => cases hm
  | ordinal _ i =>
      cases hy with
      | real _ => cases hm
      | ordinal _ j =>
          have hsame : ¬(Value.ordinal m i).kind ≠ (Value.ordinal m j).kind := not_not_intro rfl
          unfold binary
          rw [if_neg hsame]
          rcases Op.result?_kind hres with ⟨hop, -⟩ | ⟨hop, -⟩ | ⟨hop, -⟩ | ⟨hop, -⟩
          · obtain ⟨b, hb⟩ := exists_compareInt hop i j
            have hcompare : compare op (.ordinal m i) (.ordinal m j) = some b := hb
            rw [if_pos hop, hcompare]
            exact ⟨_, rfl⟩
          · rw [if_neg (by simp [Op.kinds_of_isLogical hop]), if_pos hop]
            exact ⟨_, rfl⟩
          · obtain ⟨hcomp, hlog⟩ := Op.kinds_of_isBitwise hop
            obtain ⟨n, hn⟩ := exists_bitwise hop i j
            have hbitwise : bitwise op (Value.ordinal m i).code (Value.ordinal m j).code = some n :=
              hn
            simp only [hcomp, hlog, hop, Bool.false_eq_true, if_false, if_true, hbitwise]
            exact ⟨_, rfl⟩
          · obtain ⟨hcomp, hlog, hbit⟩ := Op.kinds_of_isArithmetic hop
            obtain ⟨n, hn⟩ := exists_arithInt hop hdiv (wrap 32 i) (wrap 32 j)
            have harith : arithInt op (wrap 32 (Value.ordinal m i).code)
                (wrap 32 (Value.ordinal m j).code) = some n := hn
            simp only [hcomp, hlog, hbit, Bool.false_eq_true, if_false, harith]
            exact ⟨_, rfl⟩

/-- An integer has a value as used wherever it is not used as a `float`. -/
theorem exists_used {n : Note} {ty : Ty} (hn : n.Of ty) (hv : v.Of k) (hk : k.isOrdinal = true)
    (hused : n.usedType ≠ some (.base .float)) : ∃ w, p.used n.conv (some v) = some w := by
  cases hc : n.conv with
  | none => exact ⟨v, rfl⟩
  | some c =>
      have hne : c.dst ≠ .float := by
        rintro heq
        rw [hn.usedType_of_conv hc, heq] at hused
        exact hused rfl
      exact exists_convert hv hk (Ty.isOrdinal_of_mem_conversions (hn.conv c hc).2 hne)

/-! ## Numbers that are out of range -/

/-- Whether a number converts to a kind: the whole part must be a value of the target. Every number
counts as true or false. -/
def Reaches (p : Precision) (bits : UInt64) : Base → Prop
  | .int => ∃ n, truncate? bits = some n ∧ p.InRange (.ordinal .int n)
  | .char => ∃ n, truncate? bits = some n ∧ p.InRange (.ordinal .char n)
  | _ => True

/-- A number that is written in a program has a value as used: it is finite with the precision of
the target, and in range of the kind that it is converted to. Other expressions are no numbers. -/
def Represents (p : Precision) : Expr → Prop
  | .literal _ _ (some (.real bits)) note =>
    isFinite (p.round bits) = true ∧ ∀ c, note.conv = some c → p.Reaches (p.round bits) c.dst
  | _ => True

theorem exists_convert_real_iff (hbits : p.charBits < 32) {bits : UInt64}
    (hm : m ∈ Base.float.conversions) :
    (∃ w, p.convert (.real bits) m = some w) ↔ p.Reaches bits m := by
  simp only [Base.conversions, List.mem_cons, List.not_mem_nil, or_false] at hm
  rcases hm with rfl | rfl | rfl
  · exact ⟨fun _ => trivial, fun _ => ⟨_, rfl⟩⟩
  · constructor
    · rintro ⟨w, hw⟩
      obtain ⟨n, hn, hw⟩ := Option.bind_eq_some_iff.1 (show Option.bind _ _ = _ from hw)
      split at hw
      · next hrange => exact ⟨n, hn, hrange⟩
      · cases hw
    · rintro ⟨n, hn, hrange⟩
      refine ⟨.int n, ?_⟩
      show (truncate? bits).bind _ = _
      rw [hn]
      exact if_pos hrange
  · constructor
    · rintro ⟨w, hw⟩
      obtain ⟨n, hn, hw⟩ := Option.bind_eq_some_iff.1 (show Option.bind _ _ = _ from hw)
      split at hw
      · next hrange =>
          rw [wrap_two_pow hbits] at hrange
          exact ⟨n, hn, hrange⟩
      · cases hw
    · rintro ⟨n, hn, hrange⟩
      refine ⟨.char (clamp32 n), ?_⟩
      show (truncate? bits).bind _ = _
      rw [hn, Option.bind_some, wrap_two_pow hbits]
      exact if_pos hrange

/-- A literal has a value as used exactly if it represents one. -/
theorem exists_literal_iff (hbits : p.charBits < 32) {pos : Pos} {text : String} {v : Value}
    {note : Note} (hv : Literal.decode text = .ok v) (hn : note.Of (.base v.kind))
    (hused : v.kind ≠ .float → note.usedType ≠ some (.base .float)) :
    (∃ w, p.evalUsed (.literal pos text (some v) note) = some w) ↔
      p.Represents (.literal pos text (some v) note) := by
  show (∃ w, p.used note.conv (p.literal? v) = some w) ↔ _
  cases v with
  | ordinal kind n =>
      refine ⟨fun _ => trivial, fun _ => ?_⟩
      have hof := Literal.decode_of hv
      have hkind : kind ≠ .float := by
        cases hof with
        | ordinal isOrdinal _ =>
            rintro rfl
            cases isOrdinal
      obtain ⟨w, hw⟩ : ∃ w, p.literal? (.ordinal kind n) = some w := by
        cases kind <;> exact ⟨_, rfl⟩
      rw [hw]
      exact exists_used hn (literal?_of hof hw) (hof.isOrdinal hkind) (hused hkind)
  | real bits =>
      have hliteral : p.literal? (.real bits) =
          if isFinite (p.round bits) = true then some (.real (p.round bits)) else none := rfl
      show _ ↔ isFinite (p.round bits) = true ∧
        ∀ c, note.conv = some c → p.Reaches (p.round bits) c.dst
      rw [hliteral]
      by_cases hfinite : isFinite (p.round bits) = true
      · rw [if_pos hfinite]
        cases hc : note.conv with
        | none => exact ⟨fun _ => ⟨hfinite, fun _ h => (nomatch h)⟩, fun _ => ⟨_, rfl⟩⟩
        | some c =>
            have hiff : (∃ w, p.convert (.real (p.round bits)) c.dst = some w) ↔
                p.Reaches (p.round bits) c.dst :=
              exists_convert_real_iff hbits (hn.conv c hc).2
            constructor
            · intro h
              refine ⟨hfinite, fun c' hc' => ?_⟩
              cases hc'
              exact hiff.1 h
            · exact fun h => hiff.2 (h.2 c rfl)
      · rw [if_neg hfinite]
        constructor
        · rintro ⟨w, hw⟩
          obtain ⟨v, hv⟩ := exists_of_used hw
          cases hv
        · exact fun h => absurd h.1 hfinite

/-! ## Expressions -/

/-- An expression that computes with integers alone and divides nothing has a value exactly if each
number in it has one. -/
theorem exists_evalUsed_iff (hbits : p.charBits < 32) {r : Reach} {e : Expr} (h : e.Typed r) :
    e.isConstant = true → (∀ x ∈ e.parts, x.usedType ≠ some (.base .float)) →
      (∀ x ∈ e.parts, x.isQuotient = false) →
        ((∃ v, p.evalUsed e = some v) ↔ ∀ x ∈ e.parts, p.Represents x) := by
  induction h with
  | @literal pos text value note decoded note_of =>
      intro _ hused _
      have hiff : (∃ w, p.evalUsed (.literal pos text (some value) note) = some w) ↔
          p.Represents (.literal pos text (some value) note) :=
        exists_literal_iff hbits decoded note_of fun _ => hused _ List.mem_cons_self
      rw [hiff]
      exact List.forall_mem_singleton.symm
  | ident _ => exact fun hc => (nomatch hc)
  | @unary pos op x note ty operand used numeric note_of ih =>
      intro hc hused hdiv
      obtain ⟨hself, husedX⟩ := List.forall_mem_cons.1 hused
      have hiff := ih hc husedX (List.forall_mem_cons.1 hdiv).2
      rw [Expr.parts, List.forall_mem_cons, ← hiff]
      constructor
      · rintro ⟨w, hw⟩
        obtain ⟨v, hv⟩ := exists_of_used hw
        obtain ⟨u, hu, -⟩ := Option.bind_eq_some_iff.1 hv
        exact ⟨trivial, u, hu⟩
      · rintro ⟨-, v, hv⟩
        obtain ⟨k, hk, hof⟩ := evalUsed_of operand hv
        cases used.symm.trans hk
        have hx := husedX x (Expr.mem_parts operand.not_missing)
        have hordinal := hof.isOrdinal fun heq => hx (heq ▸ hk)
        obtain ⟨u, hu⟩ : ∃ u, p.unary op v = some u := exists_unary hof hordinal
        have heval : p.eval (.unary pos op x note) = some u :=
          Option.bind_eq_some_iff.2 ⟨v, hv, hu⟩
        have hofu : u.Of k := by
          rcases numeric with hint | ⟨hfloat, -⟩
          · exact unary_of hof (.inl (Ty.base.inj hint)) hu
          · exact unary_of hof (.inr (Ty.base.inj hfloat)) hu
        show ∃ w, p.used note.conv (p.eval (.unary pos op x note)) = some w
        rw [heval]
        exact exists_used note_of hofu hordinal hself
  | @binary pos op x y note xType yType result left right usedLeft usedRight accepts once note_of
      ihx ihy =>
      intro hc hused hdiv
      obtain ⟨hcx, hcy⟩ := Bool.and_eq_true_iff.1 hc
      obtain ⟨hself, hused⟩ := List.forall_mem_cons.1 hused
      obtain ⟨husedX, husedY⟩ := List.forall_mem_append.1 hused
      obtain ⟨hop, hdiv⟩ := List.forall_mem_cons.1 hdiv
      obtain ⟨hdivX, hdivY⟩ := List.forall_mem_append.1 hdiv
      rw [Expr.parts, List.forall_mem_cons, List.forall_mem_append, ← ihx hcx husedX hdivX,
        ← ihy hcy husedY hdivY]
      constructor
      · rintro ⟨w, hw⟩
        obtain ⟨v, hv⟩ := exists_of_used hw
        obtain ⟨xv, hxv, hv⟩ := Option.bind_eq_some_iff.1 hv
        obtain ⟨yv, hyv, -⟩ := Option.bind_eq_some_iff.1 hv
        exact ⟨trivial, ⟨xv, hxv⟩, yv, hyv⟩
      · rintro ⟨-, ⟨xv, hxv⟩, yv, hyv⟩
        obtain ⟨i, hi, hxi⟩ := evalUsed_of left hxv
        obtain ⟨j, hj, hyj⟩ := evalUsed_of right hyv
        cases usedLeft.symm.trans hi
        cases usedRight.symm.trans hj
        have hres : op.result? i j = some result := accepts
        cases Op.result?_same hres
        have hx := husedX x (Expr.mem_parts left.not_missing)
        have hordinal := hxi.isOrdinal fun heq => hx (heq ▸ hi)
        have hne : op ≠ .div := by
          rintro rfl
          cases hop
        obtain ⟨v, hv⟩ := exists_binary (p := p) hres hordinal hne hxi hyj
        have heval : p.eval (.binary pos op x y note) = some v :=
          Option.bind_eq_some_iff.2 ⟨xv, hxv, Option.bind_eq_some_iff.2 ⟨yv, hyv, hv⟩⟩
        have hofv := binary_of hres hxi hyj hv
        have hordinal' : result.isOrdinal = true := by
          rcases Op.result?_kind hres with ⟨-, rfl⟩ | ⟨-, rfl⟩ | ⟨-, rfl⟩ | ⟨-, rfl, -⟩
          · rfl
          · rfl
          · rfl
          · exact hordinal
        show ∃ w, p.used note.conv (p.eval (.binary pos op x y note)) = some w
        rw [heval]
        exact exists_used note_of hofv hordinal' hself
  | index _ _ _ _ _ _ => exact fun hc => (nomatch hc)
  | call _ _ _ _ _ _ => exact fun hc => (nomatch hc)

end Precision

/-- The constants of a program that passes the check have the type that the check gave them, and a
target can hold them. An expression that computes with integers alone and divides nothing has one
unless a number in it is out of range where it is converted. -/
theorem Analysis.constants_in_range {b : Block} {a : Analysis} (ha : Analysis.ofProgram b = .ok a)
    {e : Expr} (he : e ∈ a.program.exprs) {p : Precision}
    (hp : p ∈ [Cil.precision, Llvm.precision]) :
    (∀ v, p.evalUsed e = some v →
      e.isConstant = true ∧ e.usedType = some (.base v.kind) ∧ p.InRange v) ∧
    (e.isConstant = true → (∀ x ∈ e.parts, x.usedType ≠ some (.base .float)) →
      (∀ x ∈ e.parts, x.isQuotient = false) →
        ((∃ v, p.evalUsed e = some v) ↔ ∀ x ∈ e.parts, p.Represents x)) := by
  have hbits : p.charBits < 32 := by
    simp only [List.mem_cons, List.not_mem_nil, or_false] at hp
    rcases hp with rfl | rfl <;> decide
  obtain ⟨htyped, -, -⟩ := Analysis.ofProgram_checked ha
  obtain ⟨f, hf⟩ := Block.Typed.exprs htyped e he
  refine ⟨fun v hv => ?_, Precision.exists_evalUsed_iff hbits hf⟩
  obtain ⟨k, hk, hof⟩ := Precision.evalUsed_of hf hv
  obtain ⟨x, hx⟩ := Precision.exists_of_used hv
  refine ⟨Precision.isConstant_of_eval hx, ?_, ?_⟩
  · rw [hof.kind]
    exact hk
  · exact Precision.inRange_used hbits (Precision.inRange_eval hbits hf) hv

/-- The expressions that compute with integers alone and divide nothing, as a test. -/
def Expr.isPlainConstant (e : Expr) : Bool :=
  e.isConstant && e.parts.all (fun x => x.usedType != some (.base .float) && !x.isQuotient)

theorem Expr.isPlainConstant_iff {e : Expr} :
    e.isPlainConstant = true ↔ e.isConstant = true ∧
      (∀ x ∈ e.parts, x.usedType ≠ some (.base .float)) ∧ ∀ x ∈ e.parts, x.isQuotient = false := by
  simp [Expr.isPlainConstant, List.all_eq_true, forall_and]

/-- A number that is rounded towards zero and one that is not are both in range. -/
theorem Analysis.constants_in_range_mixed :
    ∃ a e, Analysis.ofText? "(var int (= x (- (+ 'a' (* 2 true)) 2.5)))" = some a ∧
      e ∈ a.program.exprs ∧ Llvm.precision.evalUsed e = some (.int 97) ∧
      Llvm.precision.InRange (.int 97) ∧ ∀ x ∈ e.parts, Llvm.precision.Represents x := by
  have htext : ((Analysis.ofText? "(var int (= x (- (+ 'a' (* 2 true)) 2.5)))").any fun a =>
      a.program.exprs.any fun e => e.isPlainConstant &&
        decide (Llvm.precision.evalUsed e = some (.int 97))) = true := by
    decide +kernel
  obtain ⟨a, ha, hany⟩ := (Option.any_eq_true _ _).1 htext
  obtain ⟨b, -, hprogram⟩ := Analysis.ofText?_eq_some ha
  obtain ⟨e, he, hall⟩ := List.any_eq_true.1 hany
  obtain ⟨hplain, hvalue⟩ := Bool.and_eq_true_iff.1 hall
  obtain ⟨hconst, hused, hdiv⟩ := Expr.isPlainConstant_iff.1 hplain
  have heval := of_decide_eq_true hvalue
  obtain ⟨hrange, hiff⟩ :=
    Analysis.constants_in_range hprogram he (p := Llvm.precision) (by simp)
  exact ⟨a, e, ha, he, heval, (hrange _ heval).2.2, (hiff hconst hused hdiv).1 ⟨_, heval⟩⟩

/-- A number that no `int` can hold is converted to one, so the literal has no value, although it is
used as an integer and nothing is divided. -/
theorem Analysis.no_constant_of_large_number :
    ∃ b a e, Block.parse "(var int (= x 1e10))" = .ok b ∧ Analysis.ofProgram b = .ok a ∧
      e ∈ a.program.exprs ∧ e.isConstant = true ∧
      (∀ x ∈ e.parts, x.usedType ≠ some (.base .float)) ∧
      (∀ x ∈ e.parts, x.isQuotient = false) ∧ Llvm.precision.evalUsed e = none := by
  have htext : ((Analysis.ofText? "(var int (= x 1e10))").any fun a =>
      a.program.exprs.any fun e => e.isPlainConstant &&
        decide (Llvm.precision.evalUsed e = none)) = true := by
    decide +kernel
  obtain ⟨a, ha, hany⟩ := (Option.any_eq_true _ _).1 htext
  obtain ⟨b, hb, hprogram⟩ := Analysis.ofText?_eq_some ha
  obtain ⟨e, he, hall⟩ := List.any_eq_true.1 hany
  obtain ⟨hplain, hvalue⟩ := Bool.and_eq_true_iff.1 hall
  obtain ⟨hconst, hused, hdiv⟩ := Expr.isPlainConstant_iff.1 hplain
  exact ⟨b, a, e, hb, hprogram, he, hconst, hused, hdiv, of_decide_eq_true hvalue⟩

end SmallC
