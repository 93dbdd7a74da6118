import SmallC.Proofs.FreshNames
import SmallC.Proofs.LlvmMachine
import SmallC.Proofs.LlvmTotal

/-!
# LLVM code computes expressions

An expression yields an operand, and by the time its code has run the operand
has the value of the expression. Between the code of two operands the first one
has to keep its value. It does because a register is made of a root and a number
that was never given out for that root before, so code defines no register whose
number was given out when the code began.
-/

namespace SmallC

namespace Fresh

/-- More names have been made. -/
def Le (f f' : Fresh) : Prop := ∀ root, f.count root ≤ f'.count root

theorem Le.refl (f : Fresh) : f.Le f := fun _ => Nat.le_refl _

theorem Le.trans {f₁ f₂ f₃ : Fresh} (h : f₁.Le f₂) (h' : f₂.Le f₃) : f₁.Le f₃ :=
  fun root => Nat.le_trans (h root) (h' root)

theorem le_next (f : Fresh) (root : String) : f.Le (f.next root).2 := by
  intro r
  rw [count_next]
  omega

end Fresh

namespace Llvm

open Emit

/-! ## What code keeps -/

/-- The register has been given out. -/
def Reg.Given (f : Fresh) (q : Reg) : Prop := q.number ≤ f.count q.root

/-- The same memory and output, and the same values in the registers that have been given out. -/
structure Keeps (f : Fresh) (s s' : State) : Prop where
  memory : s'.memory = s.memory
  output : s'.output = s.output
  regs : ∀ q, q.Given f → s'.regs q = s.regs q

theorem Keeps.refl (f : Fresh) (s : State) : Keeps f s s := ⟨rfl, rfl, fun _ _ => rfl⟩

theorem Keeps.trans {f f' : Fresh} {s₁ s₂ s₃ : State} (h : Keeps f s₁ s₂) (hle : f.Le f')
    (h' : Keeps f' s₂ s₃) : Keeps f s₁ s₃ := by
  refine ⟨h'.memory.trans h.memory, h'.output.trans h.output, fun q hq => ?_⟩
  exact (h'.regs q (Nat.le_trans hq (hle _))).trans (h.regs q hq)

theorem Keeps.mono {f f' : Fresh} {s s' : State} (h : Keeps f' s s') (hle : f.Le f') :
    Keeps f s s' :=
  ⟨h.memory, h.output, fun q hq => h.regs q (Nat.le_trans hq (hle _))⟩

/-- To define a register that is new keeps all the others. -/
theorem Keeps.define (f : Fresh) (root : String) (s : State) (d : Datum) :
    Keeps f s (s.define ⟨root, f.count root + 1⟩ d) := by
  refine ⟨rfl, rfl, fun q hq => ?_⟩
  show (if q = _ then some d else s.regs q) = s.regs q
  rw [if_neg]
  rintro rfl
  have hq : f.count root + 1 ≤ f.count root := hq
  omega

/-! ## Steps where the block is open -/

theorem instr_open {c : Cursor} (hc : c.closed = false) (i : Instr) :
    instr i c = .ok ⟨(), { c with closed := i.isTerminator }, [i]⟩ := by
  have hlive : live c = .ok ⟨(), c, []⟩ := by
    unfold live
    rw [hc]
    rfl
  exact bind_eq_ok_iff.2 ⟨_, _, hlive, rfl, rfl⟩

theorem define_open {c : Cursor} (hc : c.closed = false) (root : String) (i : Reg → Instr)
    (hi : ∀ q, (i q).isTerminator = false) :
    define root i c = .ok ⟨.reg ⟨root, c.fresh.count root + 1⟩,
      { c with fresh := (c.fresh.next root).2, closed := false },
      [i ⟨root, c.fresh.count root + 1⟩]⟩ := by
  have hreg : register root c = .ok ⟨⟨root, c.fresh.count root + 1⟩,
    { c with fresh := (c.fresh.next root).2 }, []⟩ := rfl
  have hinstr := instr_open (c := { c with fresh := (c.fresh.next root).2 }) hc
    (i ⟨root, c.fresh.count root + 1⟩)
  rw [hi] at hinstr
  refine bind_eq_ok_iff.2 ⟨_, _, hreg, bind_eq_ok_iff.2 ⟨_, _, hinstr, rfl, rfl⟩, ?_⟩
  rfl

/-! ## Values -/

/-- Global variables hold the values of the program's variables, each at the type of its kind. -/
structure Stores (r : Reach) (a : Store) (s : State) : Prop where
  fits : r.Fits 8 a.values
  memory : ∀ (sym : Symbol) (k : Base), sym.Stored r → sym.type = .base k →
    s.memory sym.name = some (encode k (a.values sym.name))
  output : s.output = a.output

theorem Stores.keeps {r : Reach} {a : Store} {s s' : State} {f : Fresh} (h : Stores r a s)
    (hk : Keeps f s s') : Stores r a s' :=
  ⟨h.fits, fun sym k hs ht => by rw [hk.memory]; exact h.memory sym k hs ht,
    hk.output.trans h.output⟩

/-- The operand has a value of a kind. -/
def Operand.Holds (x : Operand) (kind : Base) (v : BitVec 32) (s : State) : Prop :=
  x.eval s.regs (.ofBase kind) = some (encode kind v)

theorem eval_define (s : State) (q : Reg) (d : Datum) :
    (Operand.reg q).eval (s.define q d).regs d.type = some d := by
  show (if q = q then some d else s.regs q).filter (·.type = d.type) = some d
  rw [if_pos rfl]
  simp [Option.filter]

/-- A register that was just defined holds its value. -/
theorem holds_define {m : Base} (hm : m.isOrdinal = true) (s : State) (q : Reg) (v : BitVec 32) :
    (Operand.reg q).Holds m v (s.define q (encode m v)) := by
  unfold Operand.Holds
  rw [← encode_type hm v]
  exact eval_define s q (encode m v)

/-- Code between two places computes what `holds` says of a value, which depends on the variables,
or traps. Whatever keeps the registers that are given out by then keeps what `holds` says. -/
structure Computes {α : Type} (r : Reach) (c c' : Cursor) (code : List Instr)
    (holds : α → State → Prop) (value : (String → BitVec 32) → Option α) : Prop where
  opened : c'.closed = false
  control : c'.control = c.control
  fresh : c.fresh.Le c'.fresh
  labels : ∀ i ∈ code, i.label? = none
  stable : ∀ v s s', Keeps c'.fresh s s' → holds v s → holds v s'
  next : ∀ a s v, Stores r a s → value a.values = some v →
    ∃ s', machine.run code s = .next s' ∧ Keeps c.fresh s s' ∧ holds v s'
  trap : ∀ a s, Stores r a s → value a.values = none → machine.run code s = .trap

/-- The effect of an instruction that defines a register, or traps. -/
def State.defined (s : State) (q : Reg) (kind : Base) : Option (BitVec 32) → Effect Label State
  | some v => .fall (s.define q (encode kind v))
  | none => .trap

section

variable {α β : Type} {r : Reach} {c c₁ c₂ : Cursor} {code more : List Instr}
  {holds : α → State → Prop} {value : (String → BitVec 32) → Option α}

/-- No code computes the values of the variables, which are there already. -/
theorem Computes.start (r : Reach) (hc : c.closed = false) :
    Computes r c c [] (fun _ _ => True) some :=
  ⟨hc, rfl, .refl _, fun _ hi => (nomatch hi), fun _ _ _ _ _ => trivial,
    fun _ s _ _ _ => ⟨s, rfl, .refl _ s, trivial⟩, fun _ _ _ h => (nomatch h)⟩

/-- Two computations one after the other. The second one keeps what the first one computed. -/
theorem Computes.seq {holds' : β → State → Prop} {value' : (String → BitVec 32) → Option β}
    (h : Computes r c c₁ code holds value) (h' : Computes r c₁ c₂ more holds' value') :
    Computes r c c₂ (code ++ more) (fun p s => holds p.1 s ∧ holds' p.2 s)
      (fun env => (value env).bind fun v => (value' env).map fun w => (v, w)) where
  opened := h'.opened
  control := h'.control.trans h.control
  fresh := h.fresh.trans h'.fresh
  labels := List.forall_mem_append.2 ⟨h.labels, h'.labels⟩
  stable := by
    rintro ⟨v, w⟩ s s' hk ⟨hv, hw⟩
    exact ⟨h.stable v s s' (hk.mono h'.fresh) hv, h'.stable w s s' hk hw⟩
  next := by
    rintro a s ⟨v, w⟩ hs hvw
    obtain ⟨v', hv, hvw⟩ := Option.bind_eq_some_iff.1 hvw
    obtain ⟨w', hw, hpair⟩ := Option.map_eq_some_iff.1 hvw
    cases hpair
    obtain ⟨s₁, hrun, hk, hv₁⟩ := h.next a s v hs hv
    obtain ⟨s₂, hrun', hk', hw₂⟩ := h'.next a s₁ w (hs.keeps hk) hw
    refine ⟨s₂, ?_, hk.trans h.fresh hk', h.stable v s₁ s₂ hk' hv₁, hw₂⟩
    rw [Machine.run_append_next hrun, hrun']
  trap := by
    intro a s hs hnone
    cases hv : value a.values with
    | none => exact Machine.run_append_trap (h.trap a s hs hv)
    | some v =>
        rw [hv] at hnone
        obtain ⟨s₁, hrun, hk, -⟩ := h.next a s v hs hv
        rw [Machine.run_append_next hrun]
        exact h'.trap a s₁ (hs.keeps hk) (Option.map_eq_none_iff.1 hnone)

/-- An instruction computes a value from what was computed before, and defines a register that holds
it. -/
theorem Computes.define {m : Base} {f : α → Option (BitVec 32)}
    (h : Computes r c c₁ code holds value) (hm : m.isOrdinal = true) (root : String) (i : Reg → Instr)
    (hplain : ∀ q, (i q).isTerminator = false ∧ (i q).label? = none)
    (hi : ∀ a s q v, Stores r a s → value a.values = some v → holds v s →
      effect (i q) s = s.defined q m (f v)) :
    ∃ out, Emit.define root i c₁ = .ok out ∧ Computes r c out.cursor (code ++ out.code)
      (out.value.Holds m) (fun env => (value env).bind f) := by
  refine ⟨_, define_open h.opened root i fun q => (hplain q).1, rfl, h.control,
    h.fresh.trans (c₁.fresh.le_next root), ?_, ?_, ?_, ?_⟩
  · refine List.forall_mem_append.2 ⟨h.labels, fun j hj => ?_⟩
    obtain rfl := List.mem_singleton.1 hj
    exact (hplain _).2
  · intro v s s' hk hv
    have hgiven : Reg.Given (c₁.fresh.next root).2 ⟨root, c₁.fresh.count root + 1⟩ := by
      have hcount := Fresh.count_next c₁.fresh root root
      rw [if_pos rfl] at hcount
      exact Nat.le_of_eq hcount.symm
    show (s'.regs _).filter _ = _
    rw [hk.regs _ hgiven]
    exact hv
  · intro a s w hs hw
    obtain ⟨v, hv, hw⟩ := Option.bind_eq_some_iff.1 hw
    obtain ⟨s₁, hrun, hk, hv₁⟩ := h.next a s v hs hv
    have heff := hi a s₁ ⟨root, c₁.fresh.count root + 1⟩ v (hs.keeps hk) hv hv₁
    rw [hw] at heff
    refine ⟨_, ?_, hk.trans h.fresh (.define c₁.fresh root s₁ _), holds_define hm s₁ _ w⟩
    rw [Machine.run_append_next hrun]
    exact Machine.run_cons_fall heff
  · intro a s hs hnone
    cases hv : value a.values with
    | none => exact Machine.run_append_trap (h.trap a s hs hv)
    | some v =>
        rw [hv] at hnone
        obtain ⟨s₁, hrun, hk, hv₁⟩ := h.next a s v hs hv
        have heff := hi a s₁ ⟨root, c₁.fresh.count root + 1⟩ v (hs.keeps hk) hv hv₁
        rw [show f v = none from hnone] at heff
        rw [Machine.run_append_next hrun, Machine.run, show machine.effect = effect from rfl, heff]
        rfl

end

/-- A step that computes a value of a kind wherever a block is open. -/
def Evaluates (r : Reach) (x : Emit Operand) (kind : Base)
    (value : (String → BitVec 32) → Option (BitVec 32)) : Prop :=
  ∀ c : Cursor, c.closed = false → ∃ out, x c = .ok out ∧
    Computes r c out.cursor out.code (out.value.Holds kind) value

section

variable {r : Reach} {x y : Emit Operand} {j k m : Base}
  {value valueX valueY : (String → BitVec 32) → Option (BitVec 32)}

theorem Evaluates.congr {value' : (String → BitVec 32) → Option (BitVec 32)}
    (h : Evaluates r x k value) (heq : ∀ env, value env = value' env) : Evaluates r x k value' := by
  rw [← funext heq]
  exact h

/-- A constant needs no code. -/
theorem Evaluates.immediate {v : Value} (hk : k.isOrdinal = true)
    (hfits : ∀ env w, r.Fits 8 env → value env = some w → k.Fits 8 w)
    (heval : ∀ env, r.Fits 8 env → (value env).map (.ofWord k) = some v) :
    Evaluates r (pure (immediate v)) k value := by
  intro c hc
  refine ⟨_, rfl, hc, rfl, .refl _, fun _ hi => (nomatch hi), ?_, fun a s w hs hw => ?_,
    fun a s hs hw => ?_⟩
  · intro w s s' _ hw
    unfold Operand.Holds Llvm.immediate at hw ⊢
    split at hw <;> exact hw
  · have hv := heval a.values hs.fits
    rw [hw] at hv
    cases hv
    exact ⟨s, rfl, .refl _ s, eval_immediate hk (hfits a.values w hs.fits hw) s.regs⟩
  · have hv := heval a.values hs.fits
    rw [hw] at hv
    cases hv

/-- An instruction whose only operands are the variables. -/
theorem Evaluates.define (hm : m.isOrdinal = true) (root : String) (i : Reg → Instr)
    (hplain : ∀ q, (i q).isTerminator = false ∧ (i q).label? = none)
    (hi : ∀ a s q, Stores r a s → effect (i q) s = s.defined q m (value a.values)) :
    Evaluates r (Emit.define root i) m value := by
  intro c hc
  refine (Computes.start r hc).define hm root i hplain fun a s q env hs henv _ => ?_
  obtain rfl := Option.some.inj henv
  exact hi a s q hs

/-- An instruction with one operand. -/
theorem Evaluates.unary {f : BitVec 32 → Option (BitVec 32)} (h : Evaluates r x k value)
    (hm : m.isOrdinal = true) (root : String) (i : Operand → Reg → Instr)
    (hplain : ∀ o q, (i o q).isTerminator = false ∧ (i o q).label? = none)
    (hi : ∀ a s o q v, Stores r a s → value a.values = some v → o.Holds k v s →
      effect (i o q) s = s.defined q m (f v)) :
    Evaluates r (x >>= fun o => Emit.define root (i o)) m (fun env => (value env).bind f) := by
  intro c hc
  obtain ⟨first, hx, hfirst⟩ := h c hc
  obtain ⟨second, hdef, hsecond⟩ := hfirst.define hm root (i first.value) (hplain _)
    fun a s q v hs hv hholds => hi a s _ q v hs hv hholds
  exact ⟨_, bind_eq_ok_iff.2 ⟨first, second, hx, hdef, rfl⟩, hsecond⟩

/-- An instruction with two operands. -/
theorem Evaluates.binary {f : BitVec 32 → BitVec 32 → Option (BitVec 32)}
    (h : Evaluates r x j valueX) (h' : Evaluates r y k valueY) (hm : m.isOrdinal = true)
    (root : String) (i : Operand → Operand → Reg → Instr)
    (hplain : ∀ o p q, (i o p q).isTerminator = false ∧ (i o p q).label? = none)
    (hi : ∀ a s o p q v w, Stores r a s → valueX a.values = some v → valueY a.values = some w →
      o.Holds j v s → p.Holds k w s → effect (i o p q) s = s.defined q m (f v w)) :
    Evaluates r (x >>= fun o => y >>= fun p => Emit.define root (i o p)) m
      (fun env => (valueX env).bind fun v => (valueY env).bind (f v)) := by
  intro c hc
  obtain ⟨first, hx, hfirst⟩ := h c hc
  obtain ⟨second, hy, hsecond⟩ := h' first.cursor hfirst.opened
  obtain ⟨third, hdef, hthird⟩ := (hfirst.seq hsecond).define (f := fun p => f p.1 p.2) hm root
    (i first.value second.value) (hplain _ _) (by
      rintro a s q ⟨v, w⟩ hs hvw ⟨hv, hw⟩
      obtain ⟨v', hv', hvw⟩ := Option.bind_eq_some_iff.1 hvw
      obtain ⟨w', hw', hpair⟩ := Option.map_eq_some_iff.1 hvw
      cases hpair
      exact hi a s _ _ q v w hs hv' hw' hv hw)
  refine ⟨_, bind_eq_ok_iff.2 ⟨first, _, hx, bind_eq_ok_iff.2 ⟨second, third, hy, hdef, rfl⟩,
    rfl⟩, ?_⟩
  rw [List.append_assoc] at hthird
  have heq : (fun env => ((valueX env).bind fun v => (valueY env).map fun w => (v, w)).bind
      fun p => f p.1 p.2) = fun env => (valueX env).bind fun v => (valueY env).bind (f v) := by
    funext env
    cases valueX env <;> cases valueY env <;> rfl
  rw [heq] at hthird
  exact hthird

end

/-! ## Expressions -/

theorem ofExcept_bind {α β : Type} {x : Except Fault α} {a : α} (h : x = .ok a)
    (f : α → Emit β) : (ofExcept x >>= f) = f a := by
  subst h
  exact pure_bind a f

theorem precision_low : 7 ≤ precision.charBits := by decide

theorem precision_high : precision.charBits < 32 := by decide

section

variable {c : Context} {r : Reach}

theorem effect_binary {s : State} {q : Reg} {op : BinOp} {type : IrType} {x y : Operand}
    {d e : Datum} {m : Base} {w : Option (BitVec 32)} (hx : x.eval s.regs type = some d)
    (hy : y.eval s.regs type = some e) (happly : op.apply d e = encoded m w) :
    effect (.binary q op ⟨type, x⟩ y) s = s.defined q m w := by
  unfold effect Typed.eval
  dsimp only
  rw [hx, hy]
  dsimp only
  rw [happly]
  cases w <;> rfl

/-- A conversion computes the converted value. -/
theorem convert_evaluates {src dst : Base} {x : Emit Operand}
    {value : (String → BitVec 32) → Option (BitVec 32)} (h : Evaluates r x src value)
    (hsrc : src.isOrdinal = true) (hdst : dst.isOrdinal = true) (hmem : dst ∈ src.conversions)
    (hfits : ∀ env v, r.Fits 8 env → value env = some v → src.Fits 8 v) (pos : Pos) :
    Evaluates r (x >>= convert pos (some (.base src)) dst) dst
      (fun env => (value env).map (Word.convert 8 dst)) := by
  have hne : src ≠ dst := by
    rintro rfl
    cases src <;> simp [Base.conversions] at hmem
  have hmap : ∀ env, (value env).bind (fun v => some (Word.convert 8 dst v)) =
      (value env).map (Word.convert 8 dst) := fun env => by cases value env <;> rfl
  refine Evaluates.congr ?_ hmap
  by_cases hbool : dst = .bool
  · subst hbool
    have hcode : convert pos (some (.base src)) .bool = fun o =>
        Emit.define "bool" (.binary · (.icmp .ne) ⟨.ofBase src, o⟩ (.int 0)) := by
      funext o
      show convertBase pos src .bool o = _
      unfold convertBase
      rw [if_neg hne, if_pos rfl, if_neg]
      rintro rfl
      cases hsrc
    rw [hcode]
    refine h.unary rfl "bool" _ (fun _ _ => ⟨rfl, rfl⟩) fun a s o q v hs hv ho => ?_
    obtain ⟨d, hd, happly⟩ := apply_test hsrc hne (hfits a.values v hs.fits hv) s.regs
    exact effect_binary ho hd happly
  · obtain ⟨op, hop⟩ := Option.isSome_iff_exists.1 (cast?_isSome hmem hbool)
    have hcode : convert pos (some (.base src)) dst = fun o =>
        Emit.define "conv" (.cast · op ⟨.ofBase src, o⟩ (.ofBase dst)) := by
      funext o
      show convertBase pos src dst o = _
      unfold convertBase
      rw [if_neg hne, if_neg hbool, hop]
    rw [hcode]
    refine h.unary hdst "conv" _ (fun _ _ => ⟨rfl, rfl⟩) fun a s o q v hs hv ho => ?_
    have happly := apply_cast hop hsrc hdst (hfits a.values v hs.fits hv)
    show fallWith ((o.eval s.regs (.ofBase src)).bind fun d =>
      (op.convert? d (.ofBase dst)).bind fun v => some (s.define q v)) = _
    rw [show o.eval s.regs (.ofBase src) = _ from ho, Option.bind_some, happly]
    rfl

theorem plain_evaluates {e : Expr} {k : Base} (h : e.Ordinal r k) {raw : Emit Operand}
    (hraw : Evaluates r raw k fun env => e.meaning 8 env) :
    Evaluates r (plain c e raw) k fun env => e.meaning 8 env := by
  unfold plain
  split
  · exact hraw
  · split
    · next value hvalue =>
        unfold Context.folded? at hvalue
        split at hvalue
        · next hc =>
            obtain ⟨-, hconst⟩ := Bool.and_eq_true_iff.1 hc
            refine Evaluates.immediate h.isOrdinal (fun env v henv hv => ?_) fun env henv => ?_
            · exact h.fits precision_low henv v hv
            · rw [← hvalue]
              exact (h.eval precision_low precision_high henv hconst).symm
        · cases hvalue
    · exact hraw

theorem used_evaluates {e : Expr} {k m : Base} (h : e.Ordinal r k) (hu : e.note.Uses k m)
    (hm : m.isOrdinal = true) {raw : Emit Operand}
    (hraw : Evaluates r raw k fun env => e.meaning 8 env) :
    Evaluates r (used c e raw) m fun env => e.meaningUsed 8 env := by
  have hplain := plain_evaluates (c := c) h hraw
  unfold used
  rcases hu with ⟨hc, rfl⟩ | ⟨hc, hmem⟩
  · rw [hc]
    refine hplain.congr fun env => ?_
    unfold Expr.meaningUsed
    rw [hc]
    exact Option.map_id'.symm
  · have hu : e.note.Uses k m := .inr ⟨hc, hmem⟩
    rw [hc]
    dsimp only
    split
    · next value hvalue =>
        unfold Context.folded? at hvalue
        split at hvalue
        · next hcond =>
            obtain ⟨-, hconst⟩ := Bool.and_eq_true_iff.1 hcond
            refine Evaluates.immediate hm (fun env v henv hv => ?_) fun env henv => ?_
            · exact h.fits_used hu hm precision_low henv v hv
            · rw [← hvalue]
              exact (h.evalUsed precision_low precision_high henv hu hm hconst).symm
        · cases hvalue
    · rw [h.type]
      refine (convert_evaluates hplain h.isOrdinal hm hmem (fun env v henv hv => ?_) e.pos).congr
        fun env => ?_
      · exact h.fits precision_low henv v hv
      · unfold Expr.meaningUsed
        rw [hc]
        rfl

/-- Every variable within reach is a global variable. -/
def AddressesGlobals (c : Context) (r : Reach) : Prop :=
  ∀ (sym : Symbol) (pos : Pos), sym.Stored r → sym.type.isData = true →
    address c pos sym = .ok (.global (.user sym.name))

theorem load_evaluates (haddr : AddressesGlobals c r) {sym : Symbol} {k : Base}
    (hs : sym.Stored r) (ht : sym.type = .base k) (hk : k.isOrdinal = true) (pos : Pos) :
    Evaluates r (load c pos sym) k fun env => some (env sym.name) := by
  have hdata : sym.type.isData = true := by
    rw [ht]
    cases k <;> first | rfl | cases hk
  unfold load
  rw [ofExcept_bind (Ty.require_ok (Ty.isResult_of_isData hdata)),
    ofExcept_bind (haddr sym pos hs hdata)]
  refine Evaluates.define hk _ _ (fun _ => ⟨rfl, rfl⟩) fun a s q hstores => ?_
  show fallWith (((s.memory sym.name).filter (·.type = .ofTy sym.type)).bind fun d =>
    some (s.define q d)) = _
  rw [hstores.memory sym k hs ht, ht]
  simp only [Option.filter, IrType.ofTy, encode_type hk, Ty.kind, Ty.kind?, Option.getD,
    decide_true, if_true, Option.bind_some]
  rfl

theorem binaryOp?_ok {op : Op} {m n : Base} (h : op.result? m m = some n) :
    ∃ b, binaryOp? op (.base m) = some b ∧ scalarOp? op m = some b := by
  have haccepts : op.Accepts (.base m) (.base m) n := h
  obtain ⟨b, hb⟩ := Option.isSome_iff_exists.1 (binaryOp?_isSome haccepts)
  exact ⟨b, hb, hb⟩

theorem lowerRaw_negative {x : Expr} {m : Base} (hx : x.typeOf = .ok (.base m))
    (hm : m.isOrdinal = true) (pos : Pos) (note : Note) :
    lowerRaw c (.unary pos .sub x note) = used c x (lowerRaw c x) >>= fun o =>
      Emit.define "neg" (.binary · .sub ⟨.i32, .int 0⟩ o) := by
  rw [lowerRaw]
  refine bind_congr fun o => ?_
  rw [if_neg (by simp), ofExcept_bind hx, if_neg]
  rintro hfloat
  cases hfloat
  cases hm

theorem lowerRaw_binary {op : Op} {b : BinOp} {x y : Expr} {m : Base}
    (hx : x.typeOf = .ok (.base m)) (hb : binaryOp? op (.base m) = some b) (pos : Pos)
    (note : Note) :
    lowerRaw c (.binary pos op x y note) = used c x (lowerRaw c x) >>= fun o =>
      used c y (lowerRaw c y) >>= fun p =>
        Emit.define b.mnemonic (.binary · b ⟨.ofBase m, o⟩ p) := by
  rw [lowerRaw]
  refine bind_congr fun o => bind_congr fun p => ?_
  rw [ofExcept_bind hx, hb]
  rfl

/-- The code of an expression before conversion computes its meaning. -/
theorem lowerRaw_evaluates (haddr : AddressesGlobals c r) {e : Expr} {k : Base}
    (h : e.Ordinal r k) : Evaluates r (lowerRaw c e) k fun env => e.meaning 8 env := by
  induction h with
  | @literal pos text value note decoded ordinal type =>
      have hvalue : literalValue pos text (some value) = .ok value := rfl
      rw [lowerRaw, ofExcept_bind hvalue, Precision.literal_ofWord precision_low decoded ordinal]
      refine Evaluates.immediate ordinal (fun env v _ hv => ?_) fun env _ => rfl
      obtain rfl := Option.some.inj hv
      exact Literal.fits (by omega) decoded ordinal
  | @ident id sym k symbol stored type ordinal noted =>
      rw [lowerRaw, ofExcept_bind (Ident.resolved_ok symbol)]
      refine (load_evaluates haddr stored type ordinal id.pos).congr fun env => ?_
      rw [Expr.meaning, symbol]
      rfl
  | @unary pos op x note k operand uses sign type ih =>
      have hx := used_evaluates (c := c) operand uses rfl ih
      rcases sign with rfl | rfl
      · rw [lowerRaw]
        show Evaluates r (used c x (lowerRaw c x) >>= pure) .int _
        rw [bind_pure]
        refine hx.congr fun env => ?_
        rw [Expr.meaning]
        rfl
      · rw [lowerRaw_negative (Expr.typeOf_ok (uses.usedType operand.type)) rfl]
        refine (hx.unary (f := fun v => some (-v)) rfl "neg" _ (fun _ _ => ⟨rfl, rfl⟩)
          fun a s o q v _ _ ho => ?_).congr fun env => ?_
        · refine effect_binary rfl ho ?_
          show Outcome.next (Datum.i32 (0#32 - v)) = .next (.i32 (-v))
          rw [BitVec.zero_sub]
        · rw [Expr.meaning]
          unfold Expr.meaningUsed
          cases x.meaning 8 env <;> rfl
  | @binary pos op x y note j k m n left right usesLeft usesRight ordinal result type ihx ihy =>
      have hx := used_evaluates (c := c) left usesLeft ordinal ihx
      have hy := used_evaluates (c := c) right usesRight ordinal ihy
      obtain ⟨b, hb, hop⟩ := binaryOp?_ok result
      rw [lowerRaw_binary (Expr.typeOf_ok (usesLeft.usedType left.type)) hb]
      refine (hx.binary (f := Word.binary op) hy (Op.result?_ordinal result ordinal)
        b.mnemonic _ (fun _ _ _ => ⟨rfl, rfl⟩) fun a s o p q v w hs hv hw ho hp => ?_).congr
          fun env => ?_
      · refine effect_binary ho hp (apply_scalarOp result ordinal hop ?_ ?_)
        · exact left.fits_used usesLeft ordinal precision_low hs.fits v hv
        · exact right.fits_used usesRight ordinal precision_low hs.fits w hw
      · rw [Expr.meaning]
        unfold Expr.meaningUsed
        cases x.meaning 8 env <;> cases y.meaning 8 env <;> rfl

/-- The code of an expression computes its meaning as used. -/
theorem lowerExpr_evaluates (haddr : AddressesGlobals c r) {e : Expr} {k m : Base}
    (h : e.Ordinal r k) (hu : e.note.Uses k m) (hm : m.isOrdinal = true) :
    Evaluates r (lowerExpr c e) m fun env => e.meaningUsed 8 env :=
  used_evaluates h hu hm (lowerRaw_evaluates haddr h)

end

end Llvm

end SmallC
