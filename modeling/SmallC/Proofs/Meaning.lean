import Mathlib.Algebra.Group.Int.Defs
import Mathlib.Algebra.Group.Nat.Defs
import SmallC.Proofs.Typing

/-!
# The meaning of integer expressions

An expression over `int`, `char` and `bool` denotes a 32-bit word: an integer in
two's complement, the code of a character, or 0 and 1 for the truth values. It
denotes nothing if it divides by zero or divides the least integer by minus one,
since the machine traps there. How many bits a character has is up to the
machine, so it is a parameter.

This is neither the code of a target nor the evaluator of constants. It is what
both are compared with: each of them is shown to compute the meaning, and that
is how they come to agree with each other.
-/

namespace SmallC

/-- The kinds whose values are integers. -/
def Base.isOrdinal : Base → Bool
  | .int | .char | .bool => true
  | .void | .float | .unnamed _ => false

/-- The words that stand for values of a kind, where a character has `bits` bits. -/
def Base.Fits (bits : Nat) (v : BitVec 32) : Base → Prop
  | .int => True
  | .char => v.toNat < 2 ^ bits
  | .bool => v = 0 ∨ v = 1
  | .void | .float | .unnamed _ => False

namespace Word

/-- The word of a truth value. -/
def ofBool (b : Bool) : BitVec 32 := if b then 1 else 0

/-- The last bits of a word. -/
def lowBits (bits : Nat) (v : BitVec 32) : BitVec 32 := BitVec.ofNat 32 (v.toNat % 2 ^ bits)

/-- Converts a word to a kind. -/
def convert (bits : Nat) (dst : Base) (v : BitVec 32) : BitVec 32 :=
  match dst with
  | .bool => ofBool (v ≠ 0)
  | .char => lowBits bits v
  | _ => v

/-- Compares two words as signed integers. -/
def compare? (op : Op) (x y : BitVec 32) : Option Bool :=
  match op with
  | .eql => some (x = y)
  | .neq => some (x ≠ y)
  | .lss => some (x.slt y)
  | .leq => some (x.sle y)
  | .gtr => some (y.slt x)
  | .geq => some (y.sle x)
  | _ => none

/-- The quotient of two words as signed integers, rounded towards zero. -/
def divide (x y : BitVec 32) : Option (BitVec 32) :=
  if y = 0 ∨ (x = BitVec.intMin 32 ∧ y = -1) then none else some (x.sdiv y)

/-- Applies a binary operator to two words. -/
def binary (op : Op) (x y : BitVec 32) : Option (BitVec 32) :=
  match op with
  | .add => some (x + y)
  | .sub => some (x - y)
  | .mul => some (x * y)
  | .div => divide x y
  | .and | .land => some (x &&& y)
  | .or | .lor => some (x ||| y)
  | .xor => some (x ^^^ y)
  | op => (compare? op x y).map ofBool

/-- Applies a unary operator to a word. -/
def unary (op : Op) (v : BitVec 32) : BitVec 32 := if op = .sub then -v else v

/-- A word as used. -/
def used (bits : Nat) (conv : Option Conversion) (v : BitVec 32) : BitVec 32 :=
  match conv with
  | none => v
  | some c => convert bits c.dst v

end Word

/-- The word that an expression denotes before conversion, where `env` holds the values of the
variables. -/
def Expr.meaning (bits : Nat) (env : String → BitVec 32) : Expr → Option (BitVec 32)
  | .literal _ _ value _ => value.map fun v => BitVec.ofInt 32 v.code
  | .ident id => id.symbol.map fun sym => env sym.name
  | .unary _ op x _ =>
    (x.meaning bits env).map fun v => Word.unary op (Word.used bits x.note.conv v)
  | .binary _ op x y _ => do
    let v ← x.meaning bits env
    let w ← y.meaning bits env
    Word.binary op (Word.used bits x.note.conv v) (Word.used bits y.note.conv w)
  | _ => none

/-- The word that an expression denotes as used. -/
def Expr.meaningUsed (bits : Nat) (env : String → BitVec 32) (e : Expr) : Option (BitVec 32) :=
  (e.meaning bits env).map (Word.used bits e.note.conv)

/-! ## Integer expressions -/

/-- A value of kind `src` is used as one of kind `dst`. -/
def Note.Uses (n : Note) (src dst : Base) : Prop :=
  (n.conv = none ∧ src = dst) ∨
    (n.conv = some ⟨dst, some (.base dst)⟩ ∧ dst ∈ src.conversions)

theorem Note.Uses.usedType {n : Note} {src dst : Base} (h : n.Uses src dst)
    (ht : n.type = some (.base src)) : n.usedType = some (.base dst) := by
  unfold Note.usedType
  rcases h with ⟨hc, rfl⟩ | ⟨hc, -⟩
  · rw [hc]
    exact ht
  · rw [hc]

theorem Note.Uses.eq_of_none {n : Note} {src dst : Base} (h : n.Uses src dst)
    (hc : n.conv = none) : src = dst := by
  rcases h with ⟨-, rfl⟩ | ⟨hc', -⟩
  · rfl
  · rw [hc] at hc'
    cases hc'

/-- The typed expressions over `int`, `char` and `bool`, each with its kind before conversion. -/
inductive Expr.Ordinal (r : Reach) : Expr → Base → Prop where
  | literal {pos : Pos} {text : String} {value : Value} {note : Note}
      (decoded : Literal.decode text = .ok value) (ordinal : value.kind.isOrdinal = true)
      (type : note.type = some (.base value.kind)) :
      Ordinal r (.literal pos text (some value) note) value.kind
  | ident {id : Ident} {sym : Symbol} {k : Base} (symbol : id.symbol = some sym)
      (stored : sym.Stored r) (type : sym.type = .base k) (ordinal : k.isOrdinal = true)
      (noted : id.note.type = some (.base k)) : Ordinal r (.ident id) k
  | unary {pos : Pos} {op : Op} {x : Expr} {note : Note} {k : Base} (operand : Ordinal r x k)
      (uses : x.note.Uses k .int) (sign : op = .add ∨ op = .sub)
      (type : note.type = some (.base .int)) : Ordinal r (.unary pos op x note) .int
  | binary {pos : Pos} {op : Op} {x y : Expr} {note : Note} {j k m n : Base}
      (left : Ordinal r x j) (right : Ordinal r y k) (usesLeft : x.note.Uses j m)
      (usesRight : y.note.Uses k m) (ordinal : m.isOrdinal = true)
      (result : op.result? m m = some n) (type : note.type = some (.base n)) :
      Ordinal r (.binary pos op x y note) n

/-- The table of operators, read by the sort of operator: integers are computed with, truth values
are combined, and values of any one kind are compared, truth values only for being the same. -/
theorem Op.result?_cases {op : Op} {m n : Base} (h : op.result? m m = some n)
    (hm : m.isOrdinal = true) :
    (op.isArithmetic = true ∧ m = .int ∧ n = .int) ∨
      (op.isBitwise = true ∧ m = .int ∧ n = .int) ∨
      (op.isLogical = true ∧ m = .bool ∧ n = .bool) ∨
      (op.isComparison = true ∧ (m = .bool → op = .eql ∨ op = .neq) ∧ n = .bool) := by
  unfold Op.result? at h
  split at h <;> cases h <;> first | decide | cases hm

theorem Op.result?_ordinal {op : Op} {m n : Base} (h : op.result? m m = some n)
    (hm : m.isOrdinal = true) : n.isOrdinal = true := by
  rcases Op.result?_cases h hm with ⟨-, -, rfl⟩ | ⟨-, -, rfl⟩ | ⟨-, -, rfl⟩ | ⟨-, -, rfl⟩ <;> rfl

theorem Expr.Ordinal.isOrdinal {r : Reach} {e : Expr} {k : Base} (h : e.Ordinal r k) :
    k.isOrdinal = true := by
  cases h with
  | literal _ ordinal _ => exact ordinal
  | ident _ _ _ ordinal _ => exact ordinal
  | unary _ _ _ _ => rfl
  | binary _ _ _ _ ordinal result _ => exact Op.result?_ordinal result ordinal

theorem Expr.Ordinal.type {r : Reach} {e : Expr} {k : Base} (h : e.Ordinal r k) :
    e.note.type = some (.base k) := by
  cases h with
  | literal _ _ type => exact type
  | ident _ _ _ _ noted => exact noted
  | unary _ _ _ type => exact type
  | binary _ _ _ _ _ _ type => exact type

/-! ## Words that fit their kinds -/

section

variable {bits : Nat}

theorem Word.fits_ofBool (b : Bool) : Base.bool.Fits bits (Word.ofBool b) := by
  cases b
  · exact .inl rfl
  · exact .inr rfl

theorem Word.fits_convert {dst : Base} {v : BitVec 32} (hd : dst.isOrdinal = true) :
    dst.Fits bits (Word.convert bits dst v) := by
  cases dst with
  | int => trivial
  | char =>
      show (BitVec.ofNat 32 (v.toNat % 2 ^ bits)).toNat < 2 ^ bits
      rw [BitVec.toNat_ofNat]
      have hpos : 0 < 2 ^ bits := Nat.two_pow_pos bits
      have hlt : v.toNat % 2 ^ bits < 2 ^ bits := Nat.mod_lt _ hpos
      exact Nat.lt_of_le_of_lt (Nat.mod_le _ _) hlt
  | bool => exact Word.fits_ofBool _
  | void => cases hd
  | float => cases hd
  | unnamed n => cases hd

theorem Word.fits_used {n : Note} {src dst : Base} {v : BitVec 32} (h : n.Uses src dst)
    (hd : dst.isOrdinal = true) (hv : src.Fits bits v) :
    dst.Fits bits (Word.used bits n.conv v) := by
  rcases h with ⟨hc, rfl⟩ | ⟨hc, -⟩
  · rw [hc]
    exact hv
  · rw [hc]
    exact Word.fits_convert hd

theorem Word.fits_logical {op : Op} {x y v : BitVec 32} (h : op.isLogical = true)
    (hx : Base.bool.Fits bits x) (hy : Base.bool.Fits bits y) (hv : Word.binary op x y = some v) :
    Base.bool.Fits bits v := by
  show v = 0 ∨ v = 1
  cases op with
  | land =>
      obtain rfl : x &&& y = v := Option.some.inj hv
      rcases hx with rfl | rfl <;> rcases hy with rfl | rfl <;> decide
  | lor =>
      obtain rfl : x ||| y = v := Option.some.inj hv
      rcases hx with rfl | rfl <;> rcases hy with rfl | rfl <;> decide
  | _ => cases h

theorem Word.binary_of_isComparison {op : Op} (h : op.isComparison = true) (x y : BitVec 32) :
    ∃ b, Word.compare? op x y = some b ∧ Word.binary op x y = some (Word.ofBool b) := by
  cases op <;> first | exact ⟨_, rfl, rfl⟩ | cases h

/-- Whatever an operator makes of two words of one kind fits the kind of the result. -/
theorem Word.fits_binary {op : Op} {m n : Base} {x y v : BitVec 32} (h : op.result? m m = some n)
    (hm : m.isOrdinal = true) (hx : m.Fits bits x) (hy : m.Fits bits y)
    (hv : Word.binary op x y = some v) : n.Fits bits v := by
  rcases Op.result?_cases h hm with ⟨-, -, rfl⟩ | ⟨-, -, rfl⟩ | ⟨hop, rfl, rfl⟩ | ⟨hop, -, rfl⟩
  · trivial
  · trivial
  · exact Word.fits_logical hop hx hy hv
  · obtain ⟨b, -, hb⟩ := Word.binary_of_isComparison hop x y
    obtain rfl := Option.some.inj (hb.symm.trans hv)
    exact Word.fits_ofBool b

end

/-! ## Literals -/

theorem wrap_eq (bits : Nat) (n : Int) : wrap bits n = Int.bmod n (2 ^ bits) := rfl

theorem wrap_of_small {n : Nat} (h : n < 2 ^ 31) : wrap 32 n = n := by
  rw [wrap_eq, Int.bmod_eq_of_le] <;> omega

theorem Literal.escape?_lt {c : Char} {n : Nat} (h : Literal.escape? c = some n) : n < 128 := by
  unfold Literal.escape? at h
  split at h <;> cases h <;> decide

theorem Literal.decodeChar_ok {text : String} {rest : List Char} {v : Value}
    (h : Literal.decodeChar text rest = .ok v) : ∃ n : Nat, n < 128 ∧ v = .char n := by
  unfold Literal.decodeChar at h
  split at h
  · split at h
    · next c quote hc =>
        cases h
        exact ⟨c.toNat, by simpa [Literal.isAscii] using hc.2.1, rfl⟩
    · cases h
  · split at h
    · split at h
      · next code hcode =>
          cases h
          exact ⟨code, Literal.escape?_lt hcode, rfl⟩
      · cases h
    · cases h
  · cases h

theorem Literal.decodeInt_ok {text : String} {n : Nat} {v : Value}
    (h : Literal.decodeInt text n = .ok v) : n < 2 ^ 31 ∧ v = .int n := by
  unfold Literal.decodeInt at h
  split at h
  · next hn => cases h; exact ⟨hn, rfl⟩
  · cases h

/-- The integer of a literal is never negative, and so small that its sign bit is not set. -/
theorem Literal.decode_ordinal {text : String} {v : Value} (h : Literal.decode text = .ok v)
    (hv : v.kind.isOrdinal = true) :
    ∃ n : Nat, v = .ordinal v.kind n ∧ n < 2 ^ 31 ∧ (v.kind = .char → n < 128) ∧
      (v.kind = .bool → n = 0 ∨ n = 1) := by
  unfold Literal.decode at h
  split at h
  · cases h
    exact ⟨1, rfl, by omega, fun _ => by omega, fun _ => .inr rfl⟩
  · split at h
    · cases h
      exact ⟨0, rfl, by omega, fun _ => by omega, fun _ => .inl rfl⟩
    · split at h
      · obtain ⟨n, hn, rfl⟩ := Literal.decodeChar_ok h
        refine ⟨n, ?_, by omega, fun _ => hn, fun hk => (nomatch hk)⟩
        show Value.ordinal .char (wrap 32 n) = .ordinal .char n
        rw [wrap_of_small (by omega)]
      · split at h
        · obtain ⟨hn, rfl⟩ := Literal.decodeInt_ok h
          exact ⟨_, rfl, hn, fun hk => (nomatch hk), fun hk => (nomatch hk)⟩
        · split at h
          · obtain ⟨hn, rfl⟩ := Literal.decodeInt_ok h
            exact ⟨_, rfl, hn, fun hk => (nomatch hk), fun hk => (nomatch hk)⟩
          · split at h
            · cases h
            · split at h
              · cases h; cases hv
              · cases h

/-! ## The meaning fits the kind -/

section

variable {bits : Nat} {env : String → BitVec 32} {r : Reach}

/-- Every variable within reach holds a value of its kind. -/
def Reach.Fits (bits : Nat) (env : String → BitVec 32) (r : Reach) : Prop :=
  ∀ (sym : Symbol) (k : Base), sym.Stored r → sym.type = .base k → k.Fits bits (env sym.name)

theorem Literal.fits {text : String} {v : Value} (hbits : 7 ≤ bits)
    (h : Literal.decode text = .ok v) (hv : v.kind.isOrdinal = true) :
    v.kind.Fits bits (BitVec.ofInt 32 v.code) := by
  obtain ⟨n, hn, hsmall, hchar, hbool⟩ := Literal.decode_ordinal h hv
  have hcode : v.code = n := by rw [hn]; rfl
  rw [hcode]
  cases hk : v.kind with
  | int => trivial
  | char =>
      have hlt := hchar hk
      have hpow : 2 ^ 7 ≤ 2 ^ bits := Nat.pow_le_pow_right (by omega) hbits
      show (BitVec.ofInt 32 n).toNat < 2 ^ bits
      rw [BitVec.ofInt_natCast, BitVec.toNat_ofNat]
      omega
  | bool =>
      show BitVec.ofInt 32 n = 0 ∨ BitVec.ofInt 32 n = 1
      rcases hbool hk with rfl | rfl
      · exact .inl rfl
      · exact .inr rfl
  | void => rw [hk] at hv; cases hv
  | float => rw [hk] at hv; cases hv
  | unnamed i => rw [hk] at hv; cases hv

theorem Expr.Ordinal.fits {e : Expr} {k : Base} (h : e.Ordinal r k) (hbits : 7 ≤ bits)
    (henv : r.Fits bits env) : ∀ v, e.meaning bits env = some v → k.Fits bits v := by
  induction h with
  | literal decoded ordinal _ =>
      intro v hv
      obtain rfl := Option.some.inj hv
      exact Literal.fits hbits decoded ordinal
  | ident symbol stored type _ _ =>
      intro v hv
      rw [Expr.meaning, symbol] at hv
      obtain rfl := Option.some.inj hv
      exact henv _ _ stored type
  | unary _ _ _ _ _ => exact fun _ _ => trivial
  | binary _ _ usesLeft usesRight ordinal result _ ihx ihy =>
      intro v hv
      rw [Expr.meaning] at hv
      obtain ⟨x, hx, hv⟩ := Option.bind_eq_some_iff.1 hv
      obtain ⟨y, hy, hv⟩ := Option.bind_eq_some_iff.1 hv
      exact Word.fits_binary result ordinal (Word.fits_used usesLeft ordinal (ihx x hx))
        (Word.fits_used usesRight ordinal (ihy y hy)) hv

theorem Expr.Ordinal.fits_used {e : Expr} {k m : Base} (h : e.Ordinal r k) (hu : e.note.Uses k m)
    (hm : m.isOrdinal = true) (hbits : 7 ≤ bits) (henv : r.Fits bits env) :
    ∀ v, e.meaningUsed bits env = some v → m.Fits bits v := by
  intro v hv
  obtain ⟨w, hw, rfl⟩ := Option.map_eq_some_iff.1 hv
  exact Word.fits_used hu hm (h.fits hbits henv w hw)

end

end SmallC
