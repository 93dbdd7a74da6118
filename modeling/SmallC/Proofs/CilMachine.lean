import SmallC.Proofs.CilTotal
import SmallC.Proofs.Exec
import SmallC.Proofs.FoldMeaning

/-!
# Running CIL

The stack machine that the code of expressions and of scalar programs needs. The
stack holds 32-bit words, a character and a truth value too: a conversion between
them is only there where the word may change. A static field of a smaller type
keeps the last bits of what is stored in it.

The machine covers integers and nothing else. It does not know what to do with a
`float`, an array, a local or a call of a method.
-/

namespace SmallC.Cil

/-- The evaluation stack, its top first, and the static fields with what has been printed. -/
structure State where
  stack : List (BitVec 32)
  store : Store

namespace State

/-- Pushes a word. -/
def push (s : State) (v : BitVec 32) : State := { s with stack := v :: s.stack }

/-- Pops a word and goes on with it. -/
def pop (s : State) (f : BitVec 32 → State → Effect Label State) : Effect Label State :=
  match s.stack with
  | v :: rest => f v { s with stack := rest }
  | [] => .stuck

/-- Replaces the word on top of the stack. -/
def unary (s : State) (f : BitVec 32 → BitVec 32) : Effect Label State :=
  s.pop fun v s => .fall (s.push (f v))

/-- Replaces the two words on top of the stack, or traps. -/
def binary (s : State) (f : BitVec 32 → BitVec 32 → Option (BitVec 32)) : Effect Label State :=
  s.pop fun y s => s.pop fun x s =>
    match f x y with
    | some v => .fall (s.push v)
    | none => .trap

/-- Replaces the two words on top of the stack by a truth value. -/
def compare (s : State) (f : BitVec 32 → BitVec 32 → Bool) : Effect Label State :=
  s.binary fun x y => some (Word.ofBool (f x y))

end State

/-- What a static field of a type keeps of a word. -/
def fieldWord? (type : Ty) (v : BitVec 32) : Option (BitVec 32) :=
  match type with
  | .base .int => some v
  | .base .char => some (Word.lowBits 16 v)
  | .base .bool => some (Word.lowBits 8 v)
  | _ => none

/-- What an instruction does. -/
def effect (i : Instr) (s : State) : Effect Label State :=
  match i with
  | .ldcHex n | .ldcDec n | .ldcShort n => .fall (s.push (BitVec.ofInt 32 n))
  | .ldcZero => .fall (s.push 0)
  | .ldcOne => .fall (s.push 1)
  | .add => s.binary fun x y => some (x + y)
  | .sub => s.binary fun x y => some (x - y)
  | .mul => s.binary fun x y => some (x * y)
  | .div => s.binary Word.divide
  | .neg => s.unary fun v => -v
  | .and => s.binary fun x y => some (x &&& y)
  | .or => s.binary fun x y => some (x ||| y)
  | .xor => s.binary fun x y => some (x ^^^ y)
  | .ceq => s.compare fun x y => x = y
  | .cgt => s.compare fun x y => y.slt x
  | .clt => s.compare fun x y => x.slt y
  | .convU2 => s.unary (Word.lowBits 16)
  | .ldsfld _ name => .fall (s.push (s.store.values name))
  | .stsfld type name => s.pop fun v s =>
    match fieldWord? type v with
    | some w => .fall { s with store := s.store.set name w }
    | none => .stuck
  | .library (.write .int) => s.pop fun v s =>
    .fall { s with store := s.store.print (.int v.toInt) }
  | .library (.write .bool) => s.pop fun v s =>
    .fall { s with store := s.store.print (.bool (v ≠ 0)) }
  | .pop => s.pop fun _ s => .fall s
  | .nop | .label _ => .fall s
  | .br l => .jump l s
  | .brtrue l => s.pop fun v s => if v ≠ 0 then .jump l s else .fall s
  | .brfalse l => s.pop fun v s => if v = 0 then .jump l s else .fall s
  | .ret => if s.stack.isEmpty then .halt else .stuck
  | _ => .stuck

/-- The label that an instruction puts at its place. -/
def Instr.label? : Instr → Option Label
  | .label l => some l
  | _ => none

/-- The stack machine. -/
def machine : Machine Instr Label State := ⟨Instr.label?, effect⟩

/-- The outcome of code that pushes a word, or traps. -/
def State.pushed (s : State) : Option (BitVec 32) → Outcome State
  | some v => .next (s.push v)
  | none => .trap

/-! ## Operators, conversions and constants -/

section

variable {a : Store} {stack : List (BitVec 32)}

/-- An instruction that replaces two words. -/
theorem run_binary {i : Instr} {f : BitVec 32 → BitVec 32 → Option (BitVec 32)}
    (h : ∀ s, effect i s = s.binary f) (x y : BitVec 32) :
    machine.run [i] ⟨y :: x :: stack, a⟩ = State.pushed ⟨stack, a⟩ (f x y) := by
  have heff : effect i ⟨y :: x :: stack, a⟩ = State.binary ⟨y :: x :: stack, a⟩ f := h _
  rw [Machine.run, show machine.effect = effect from rfl, heff]
  unfold State.binary State.pop
  dsimp only
  cases f x y <;> rfl

theorem ofBool_not (b : Bool) : Word.ofBool (decide (Word.ofBool b = 0)) = Word.ofBool (!b) := by
  cases b <;> rfl

/-- A comparison followed by a test for zero is the negated comparison. -/
theorem run_negated {i : Instr} {f : BitVec 32 → BitVec 32 → Bool}
    (h : ∀ s, effect i s = s.compare f) (x y : BitVec 32) :
    machine.run [i, .ldcZero, .ceq] ⟨y :: x :: stack, a⟩ =
      State.pushed ⟨stack, a⟩ (some (Word.ofBool (!f x y))) := by
  have heff : machine.effect i ⟨y :: x :: stack, a⟩ = .fall ⟨Word.ofBool (f x y) :: stack, a⟩ :=
    h _
  rw [Machine.run_cons_fall heff, ← ofBool_not]
  rfl

theorem sle_eq_not_slt (x y : BitVec 32) : x.sle y = !y.slt x := by
  rw [BitVec.sle_eq_decide, BitVec.slt_eq_decide, ← decide_not, decide_eq_decide]
  omega

/-- The instructions of an operator compute it. -/
theorem run_binaryCode {op : Op} {code : List Instr} (h : binaryCode? op false = some code)
    (x y : BitVec 32) :
    machine.run code ⟨y :: x :: stack, a⟩ = State.pushed ⟨stack, a⟩ (Word.binary op x y) := by
  cases op with
  | illegal | unnamed _ => cases h
  | add | sub | mul | div | and | or | xor | land | lor | eql | gtr | lss =>
      cases h
      exact run_binary (fun _ => rfl) x y
  | neq =>
      cases h
      rw [run_negated (fun _ => rfl) x y]
      unfold Word.binary Word.compare?
      simp only [Option.map_some, ne_eq, decide_not]
  | geq =>
      cases h
      rw [run_negated (fun _ => rfl) x y, ← sle_eq_not_slt]
      rfl
  | leq =>
      cases h
      rw [run_negated (fun _ => rfl) x y, ← sle_eq_not_slt]
      rfl

theorem lowBits_of_lt {bits : Nat} {v : BitVec 32} (h : v.toNat < 2 ^ bits) :
    Word.lowBits bits v = v := by
  unfold Word.lowBits
  rw [Nat.mod_eq_of_lt h, BitVec.ofNat_toNat]
  exact BitVec.setWidth_eq v

theorem lowBits_of_bool {bits n : Nat} {v : BitVec 32} (hbits : 0 < bits)
    (h : Base.bool.Fits n v) : Word.lowBits bits v = v := by
  refine lowBits_of_lt ?_
  have hone : 2 ^ 1 ≤ 2 ^ bits := Nat.pow_le_pow_right (by omega) hbits
  rcases h with rfl | rfl
  · exact Nat.two_pow_pos bits
  · exact hone

/-- The instructions of a conversion convert the word, or there are none because it stays the
same. -/
theorem run_convertCode {src dst : Base} {code : List Instr} {v : BitVec 32}
    (h : convertCode? src dst = some code) (hsrc : src.isOrdinal = true)
    (hdst : dst.isOrdinal = true) (hv : src.Fits 16 v) :
    machine.run code ⟨v :: stack, a⟩ = .next ⟨Word.convert 16 dst v :: stack, a⟩ := by
  have htest : machine.run [.ldcZero, .ceq, .ldcZero, .ceq] ⟨v :: stack, a⟩ =
      .next ⟨Word.ofBool (v ≠ 0) :: stack, a⟩ := by
    have hpush : machine.effect .ldcZero ⟨v :: stack, a⟩ = .fall ⟨0 :: v :: stack, a⟩ := rfl
    rw [Machine.run_cons_fall hpush, run_negated (fun _ => rfl) v 0, decide_not]
    rfl
  cases dst with
  | int =>
      cases src with
      | char | bool => cases h; rfl
      | float => cases hsrc
      | void | int | unnamed _ => cases h
  | char =>
      cases src with
      | int => cases h; rfl
      | bool =>
          cases h
          show _ = Outcome.next (State.mk (Word.lowBits 16 v :: stack) a)
          rw [lowBits_of_bool (by omega) hv]
          rfl
      | float => cases hsrc
      | void | char | unnamed _ => cases h
  | bool =>
      cases src with
      | int | char => cases h; exact htest
      | float => cases hsrc
      | void | bool | unnamed _ => cases h
  | void | float | unnamed _ => cases hdst

/-- A constant is pushed as the word that it stands for. -/
theorem run_immediate {k : Base} {v : BitVec 32} (hk : k.isOrdinal = true) (hv : k.Fits 16 v) :
    machine.run [immediate (.ofWord k v)] ⟨stack, a⟩ = .next ⟨v :: stack, a⟩ := by
  have hpush : Outcome.next (State.mk (BitVec.ofInt 32 v.toInt :: stack) a) =
      .next ⟨v :: stack, a⟩ := by rw [BitVec.ofInt_toInt]
  cases k with
  | int => exact hpush
  | char =>
      show machine.run [if v.toInt ≤ 127 then .ldcShort v.toInt else .ldcDec v.toInt] _ = _
      split
      · exact hpush
      · exact hpush
  | bool =>
      rcases hv with rfl | rfl
      · rfl
      · rfl
  | void => cases hk
  | float => cases hk
  | unnamed n => cases hk

end

/-! ## Expressions -/

/-- Lowering gives straight-line code, which pushes a value that depends on the fields, or traps.
The fields have to hold values of their kinds. -/
def Pushes (x : Except Fault (List Instr)) (r : Reach)
    (value : (String → BitVec 32) → Option (BitVec 32)) : Prop :=
  ∃ code, x = .ok code ∧ (∀ i ∈ code, i.label? = none) ∧
    ∀ a stack, r.Fits 16 a.values →
      machine.run code ⟨stack, a⟩ = State.pushed ⟨stack, a⟩ (value a.values)

section

variable {c : Context} {r : Reach}

theorem immediate_label? (v : Value) : (immediate v).label? = none := by
  unfold immediate
  split
  · rfl
  · split <;> rfl
  · split <;> rfl
  · rfl

/-- A folded expression pushes what the evaluator says, and that is what it means. -/
theorem Pushes.immediate {value : Value} {k : Base}
    {meaning : (String → BitVec 32) → Option (BitVec 32)} (hk : k.isOrdinal = true)
    (hfits : ∀ env v, r.Fits 16 env → meaning env = some v → k.Fits 16 v)
    (heval : ∀ env, r.Fits 16 env → (meaning env).map (.ofWord k) = some value) :
    Pushes (.ok [immediate value]) r meaning := by
  refine ⟨_, rfl, fun i hi => ?_, fun a stack ha => ?_⟩
  · obtain rfl := List.mem_singleton.1 hi
    exact immediate_label? value
  · obtain ⟨v, hv, rfl⟩ := Option.map_eq_some_iff.1 (heval a.values ha)
    rw [hv]
    exact run_immediate hk (hfits a.values v ha hv)

theorem precision_low : 7 ≤ precision.charBits := by decide

theorem precision_high : precision.charBits < 32 := by decide

theorem plain_pushes {e : Expr} {k : Base} (h : e.Ordinal r k) {raw : Except Fault (List Instr)}
    (hraw : Pushes raw r fun env => e.meaning 16 env) :
    Pushes (plain c e raw) r fun env => e.meaning 16 env := by
  unfold plain
  split
  · exact hraw
  · split
    · next value hvalue =>
        unfold Context.folded? at hvalue
        split at hvalue
        · next hc =>
            obtain ⟨-, hconst⟩ := Bool.and_eq_true_iff.1 hc
            refine Pushes.immediate h.isOrdinal (fun env v henv hv => ?_) fun env henv => ?_
            · exact h.fits precision_low henv v hv
            · rw [← hvalue]
              exact (h.eval precision_low precision_high henv hconst).symm
        · cases hvalue
    · exact hraw

theorem convertCode_ok {src dst : Base} (h : dst ∈ src.conversions) (pos : Pos) :
    ∃ code, convertCode pos (some (.base src)) dst = .ok code ∧
      convertCode? src dst = some code := by
  obtain ⟨code, hcode⟩ := Option.isSome_iff_exists.1 (convertCode?_isSome h)
  refine ⟨code, ?_, hcode⟩
  unfold convertCode
  dsimp only
  rw [show (Ty.base src).kind = src from rfl, hcode]

theorem convertCode?_label? {src dst : Base} {code : List Instr}
    (h : convertCode? src dst = some code) : ∀ i ∈ code, i.label? = none := by
  unfold convertCode? at h
  split at h <;> cases h <;> decide

theorem used_pushes {e : Expr} {k m : Base} (h : e.Ordinal r k) (hu : e.note.Uses k m)
    (hm : m.isOrdinal = true) {raw : Except Fault (List Instr)}
    (hraw : Pushes raw r fun env => e.meaning 16 env) :
    Pushes (used c e raw) r fun env => e.meaningUsed 16 env := by
  have hplain := plain_pushes (c := c) h hraw
  unfold used
  rcases hu with ⟨hc, rfl⟩ | ⟨hc, hmem⟩
  · rw [hc]
    have heq : (fun env => e.meaningUsed 16 env) = fun env => e.meaning 16 env := by
      funext env
      unfold Expr.meaningUsed
      rw [hc]
      exact Option.map_id'
    rw [heq]
    exact hplain
  · have hu : e.note.Uses k m := .inr ⟨hc, hmem⟩
    rw [hc]
    dsimp only
    split
    · next value hvalue =>
        unfold Context.folded? at hvalue
        split at hvalue
        · next hcond =>
            obtain ⟨-, hconst⟩ := Bool.and_eq_true_iff.1 hcond
            refine Pushes.immediate hm (fun env v henv hv => ?_) fun env henv => ?_
            · exact h.fits_used hu hm precision_low henv v hv
            · rw [← hvalue]
              exact (h.evalUsed precision_low precision_high henv hu hm hconst).symm
        · cases hvalue
    · obtain ⟨code, hcode, hlabels, hrun⟩ := hplain
      obtain ⟨more, hmore, hmore?⟩ := convertCode_ok hmem e.pos
      refine ⟨code ++ more, ?_, fun i hi => ?_, fun a stack ha => ?_⟩
      · rw [hcode, h.type, hmore]
        rfl
      · rcases List.mem_append.1 hi with hi | hi
        · exact hlabels i hi
        · exact convertCode?_label? hmore? i hi
      · have hfirst : _ = State.pushed ⟨stack, a⟩ (e.meaning 16 a.values) := hrun a stack ha
        show _ = State.pushed ⟨stack, a⟩ ((e.meaning 16 a.values).map (Word.used 16 e.note.conv))
        cases hv : e.meaning 16 a.values with
        | none =>
            rw [hv] at hfirst
            exact Machine.run_append_trap hfirst
        | some v =>
            rw [hv] at hfirst
            rw [Machine.run_append_next hfirst, hc]
            exact run_convertCode hmore? h.isOrdinal hm (h.fits precision_low ha v hv)

/-- Every variable within reach is a static field. -/
def LoadsFields (c : Context) (r : Reach) : Prop :=
  ∀ (sym : Symbol) (pos : Pos), sym.Stored r → sym.type.isData = true →
    load c pos sym = .ok (.ldsfld sym.type sym.name)

theorem binaryCode?_ok {op : Op} {m n : Base} (h : op.result? m m = some n)
    (hm : m.isOrdinal = true) : ∃ code, binaryCode? op false = some code := by
  unfold Op.result? at h
  split at h <;> first | exact ⟨_, rfl⟩ | cases h

theorem binaryCode?_label? {op : Op} {float : Bool} {code : List Instr}
    (h : binaryCode? op float = some code) : ∀ i ∈ code, i.label? = none := by
  unfold binaryCode? at h
  split at h <;> cases h <;> decide

/-- The code of an expression before conversion computes its meaning. -/
theorem lowerRaw_pushes (hload : LoadsFields c r) {e : Expr} {k : Base} (h : e.Ordinal r k) :
    Pushes (lowerRaw c e) r fun env => e.meaning 16 env := by
  induction h with
  | @literal pos text value note decoded ordinal type =>
      have hvalue : (precision.literal value).1 = .ofWord value.kind (BitVec.ofInt 32 value.code) := by
        rw [Precision.literal_ofWord precision_low decoded ordinal]
      have hraw : lowerRaw c (.literal pos text (some value) note) =
          .ok [immediate (.ofWord value.kind (BitVec.ofInt 32 value.code))] := by
        rw [lowerRaw, ← hvalue]
        rfl
      rw [hraw]
      refine Pushes.immediate ordinal (fun env v _ hv => ?_) fun env _ => rfl
      obtain rfl := Option.some.inj hv
      exact Literal.fits (by omega) decoded ordinal
  | @ident id sym k symbol stored type ordinal noted =>
      have hdata : sym.type.isData = true := by
        rw [type]
        cases k <;> first | rfl | cases ordinal
      have hraw : lowerRaw c (.ident id) = .ok [.ldsfld sym.type sym.name] := by
        rw [lowerRaw, Ident.resolved_ok symbol]
        show (load c id.pos sym >>= fun i => pure [i]) = _
        rw [hload sym id.pos stored hdata]
        rfl
      refine ⟨_, hraw, fun i hi => ?_, fun a stack _ => ?_⟩
      · obtain rfl := List.mem_singleton.1 hi
        rfl
      · show _ = State.pushed ⟨stack, a⟩ (id.symbol.map fun sym => a.values sym.name)
        rw [symbol]
        rfl
  | @unary pos op x note k operand uses sign type ih =>
      obtain ⟨code, hcode, hlabels, hrun⟩ := used_pushes (c := c) operand uses rfl ih
      refine ⟨code ++ (if op = .sub then [Instr.neg] else []), ?_, fun i hi => ?_,
        fun a stack ha => ?_⟩
      · rw [lowerRaw, hcode]
        rfl
      · rcases List.mem_append.1 hi with hi | hi
        · exact hlabels i hi
        · split at hi
          · obtain rfl := List.mem_singleton.1 hi
            rfl
          · cases hi
      · have hfirst : _ = State.pushed ⟨stack, a⟩ (x.meaningUsed 16 a.values) := hrun a stack ha
        unfold Expr.meaningUsed at hfirst
        show _ = State.pushed ⟨stack, a⟩ ((x.meaning 16 a.values).map _)
        cases hv : x.meaning 16 a.values with
        | none =>
            rw [hv] at hfirst
            exact Machine.run_append_trap hfirst
        | some v =>
            rw [hv] at hfirst
            rw [Machine.run_append_next hfirst]
            rcases sign with rfl | rfl <;> rfl
  | @binary pos op x y note j k m n left right usesLeft usesRight ordinal result type ihx ihy =>
      obtain ⟨codeX, hcodeX, hlabelsX, hrunX⟩ := used_pushes (c := c) left usesLeft ordinal ihx
      obtain ⟨codeY, hcodeY, hlabelsY, hrunY⟩ := used_pushes (c := c) right usesRight ordinal ihy
      obtain ⟨code, hcode⟩ := binaryCode?_ok result ordinal
      have htype : x.typeOf = .ok (.base m) := Expr.typeOf_ok (usesLeft.usedType left.type)
      have hfloat : (decide (Ty.base m = .base .float)) = false := by
        cases m <;> first | rfl | cases ordinal
      refine ⟨codeX ++ codeY ++ code, ?_, fun i hi => ?_, fun a stack ha => ?_⟩
      · rw [lowerRaw]
        refine Except.bind_eq_ok_iff.2 ⟨codeX, hcodeX, Except.bind_eq_ok_iff.2 ⟨codeY, hcodeY,
          Except.bind_eq_ok_iff.2 ⟨.base m, htype, ?_⟩⟩⟩
        rw [hfloat, hcode]
        rfl
      · rcases List.mem_append.1 hi with hi | hi
        · rcases List.mem_append.1 hi with hi | hi
          · exact hlabelsX i hi
          · exact hlabelsY i hi
        · exact binaryCode?_label? hcode i hi
      · have hfirst : _ = State.pushed ⟨stack, a⟩ (x.meaningUsed 16 a.values) := hrunX a stack ha
        unfold Expr.meaningUsed at hfirst
        show _ = State.pushed ⟨stack, a⟩ ((x.meaning 16 a.values).bind fun v =>
          (y.meaning 16 a.values).bind fun w => _)
        rw [List.append_assoc]
        cases hv : x.meaning 16 a.values with
        | none =>
            rw [hv] at hfirst
            exact Machine.run_append_trap hfirst
        | some v =>
            rw [hv] at hfirst
            rw [Machine.run_append_next hfirst]
            have hsecond : _ = State.pushed _ (y.meaningUsed 16 a.values) :=
              hrunY a (Word.used 16 x.note.conv v :: stack) ha
            unfold Expr.meaningUsed at hsecond
            cases hw : y.meaning 16 a.values with
            | none =>
                rw [hw] at hsecond
                exact Machine.run_append_trap hsecond
            | some w =>
                rw [hw] at hsecond
                refine (Machine.run_append_next hsecond).trans ?_
                exact run_binaryCode hcode _ _

/-- The code of an expression computes its meaning as used. -/
theorem lowerExpr_pushes (hload : LoadsFields c r) {e : Expr} {k m : Base} (h : e.Ordinal r k)
    (hu : e.note.Uses k m) (hm : m.isOrdinal = true) :
    Pushes (lowerExpr c e) r fun env => e.meaningUsed 16 env :=
  used_pushes h hu hm (lowerRaw_pushes hload h)

end

end SmallC.Cil
