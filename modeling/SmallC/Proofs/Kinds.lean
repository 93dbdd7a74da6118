import SmallC.Proofs.Exec
import SmallC.Proofs.FoldMeaning

/-!
# The kinds of values

Lowering decides by the kind of a value which instruction to take, and it asks
for the kind in one place and has the value from another. That the two agree is
what this file is about. An operator applies to two operands of one type that
hold something, and so does a conversion. And the constant that the evaluator
finds, which looks at values and never at a type, is one of the type that the
check gave the expression: that is what makes it safe to put the constant where
the code of the expression would have been.
-/

namespace SmallC

/-! ## The tables -/

theorem Ty.isVoid_of_isData {ty : Ty} (h : ty.isData = true) : ty.isVoid = false := by
  cases ty with
  | base k => cases k <;> first | rfl | cases h
  | array _ => rfl
  | func _ _ | absent => cases h

theorem Ty.isFunc_of_isResult {ty : Ty} (h : ty.isResult = true) : ty.isFunc = false := by
  cases ty with
  | base _ | array _ | absent => rfl
  | func _ _ => cases h

/-- Of the types of results only one has no values. -/
theorem Ty.eq_void {ty : Ty} (hresult : ty.isResult = true) (hvoid : ty.isVoid = true) :
    ty = .base .void := by
  cases ty with
  | base k => cases k <;> first | rfl | cases hvoid
  | array _ | func _ _ => cases hvoid
  | absent => cases hresult

theorem Base.isData_of_mem_conversions {src dst : Base} (h : dst ∈ src.conversions) :
    src.isData = true ∧ dst.isData = true := by
  cases src <;> simp [Base.conversions] at h <;> rcases h with rfl | rfl | rfl <;> exact ⟨rfl, rfl⟩

/-- An operator applies to operands of one type. -/
theorem Op.Accepts.same {op : Op} {x y : Ty} {k : Base} (h : op.Accepts x y k) : x = y := by
  unfold Op.Accepts at h
  split at h
  · exact congrArg Ty.base (Op.result?_same h)
  · exact congrArg Ty.array h.1
  · exact h.elim

theorem Op.Accepts.isVoid {op : Op} {x y : Ty} {k : Base} (h : op.Accepts x y k) :
    x.isVoid = false := by
  unfold Op.Accepts at h
  split at h
  · unfold Op.result? at h
    split at h <;> first | rfl | cases h
  · rfl
  · exact h.elim

/-- What an operator makes of two operands of one kind. -/
theorem Op.result?_kind {op : Op} {m k : Base} (h : op.result? m m = some k) :
    (op.isComparison = true ∧ k = .bool) ∨ (op.isLogical = true ∧ k = .bool) ∨
      (op.isBitwise = true ∧ k = .int) ∨
      (op.isArithmetic = true ∧ k = m ∧ (m = .int ∨ m = .float)) := by
  unfold Op.result? at h
  split at h <;> cases h <;>
    simp [Op.isComparison, Op.isLogical, Op.isBitwise, Op.isArithmetic]

/-! ## The type of a value as used -/

theorem Note.usedType_of_kept {n : Note} (h : n.conv = none) : n.usedType = n.type := by
  simp only [Note.usedType, h]

theorem Note.Of.usedType_of_conv {n : Note} {ty : Ty} {conv : Conversion} (h : n.Of ty)
    (hc : n.conv = some conv) : n.usedType = some (.base conv.dst) := by
  simpa only [Note.usedType, hc] using (h.conv conv hc).1

/-! ## Constants -/

/-- The constants of a kind: a number for `float`, an integer for the others. -/
inductive Value.Of : Base → Value → Prop where
  | ordinal {kind : Base} (isOrdinal : kind.isOrdinal = true) (n : Int) : Of kind (.ordinal kind n)
  | real (bits : UInt64) : Of .float (.real bits)

theorem Value.Of.kind {k : Base} {v : Value} (h : v.Of k) : v.kind = k := by
  cases h <;> rfl

theorem Value.of_bool (b : Bool) : (Value.bool b).Of .bool := .ordinal rfl _

theorem Value.of_int (n : Int) : (Value.int n).Of .int := .ordinal rfl _

theorem Value.of_char (n : Int) : (Value.char n).Of .char := .ordinal rfl _

theorem Literal.decode_of {text : String} {v : Value} (h : Literal.decode text = .ok v) :
    v.Of v.kind := by
  unfold Literal.decode at h
  split at h
  · cases h; exact Value.of_bool true
  · split at h
    · cases h; exact Value.of_bool false
    · split at h
      · obtain ⟨n, -, rfl⟩ := Literal.decodeChar_ok h
        exact Value.of_char n
      · split at h
        · obtain ⟨-, rfl⟩ := Literal.decodeInt_ok h
          exact Value.of_int _
        · split at h
          · obtain ⟨-, rfl⟩ := Literal.decodeInt_ok h
            exact Value.of_int _
          · split at h
            · cases h
            · split at h
              · cases h; exact .real _
              · cases h

namespace Precision

variable {p : Precision} {v w : Value} {k m : Base}

theorem float?_of {bits : UInt64} (h : p.float? bits = some w) : w.Of .float := by
  simp only [float?] at h
  split at h
  · cases h; exact .real _
  · cases h

theorem literal_of (h : v.Of k) : (p.literal v).1.Of k := by
  cases h with
  | ordinal isOrdinal n =>
      cases k with
      | char => exact Value.of_char _
      | int | bool => exact .ordinal isOrdinal n
      | void | float | unnamed _ => cases isOrdinal
  | real bits => exact .real _

theorem literal?_of (h : v.Of k) (hw : p.literal? v = some w) : w.Of k := by
  have hof := literal_of (p := p) h
  simp only [literal?] at hw
  split at hw
  · cases hw; exact hof
  · cases hw

theorem convert_of (h : v.Of k) (hw : p.convert v m = some w) : w.Of m := by
  unfold convert at hw
  split at hw
  · next hkind =>
      cases hw
      rwa [← hkind, h.kind]
  · split at hw
    · cases hw; exact Value.of_bool _
    · exact float?_of hw
    · cases hw; exact Value.of_int _
    · obtain ⟨n, -, hn⟩ := Option.bind_eq_some_iff.1 hw
      split at hn
      · cases hn; exact Value.of_int _
      · cases hn
    · cases hw; exact Value.of_char _
    · obtain ⟨n, -, hn⟩ := Option.bind_eq_some_iff.1 hw
      split at hn
      · cases hn; exact Value.of_char _
      · cases hn
    · cases hw

theorem unary_of {op : Op} (h : v.Of k) (hk : k = .int ∨ k = .float)
    (hw : p.unary op v = some w) : w.Of k := by
  unfold unary at hw
  split at hw
  · cases hw; exact h
  · cases h with
    | ordinal isOrdinal n =>
        rcases hk with rfl | rfl
        · cases hw; exact Value.of_int _
        · cases isOrdinal
    | real bits => exact float?_of hw

theorem binary_of {op : Op} {x y : Value} (hres : op.result? m m = some k) (hx : x.Of m)
    (hy : y.Of m) (hw : p.binary op x y = some w) : w.Of k := by
  simp only [binary, hx.kind, hy.kind, ne_eq, not_true, if_false] at hw
  rcases Op.result?_kind hres with ⟨hop, rfl⟩ | ⟨hop, rfl⟩ | ⟨hop, rfl⟩ | ⟨hop, rfl, hm⟩
  · rw [if_pos hop] at hw
    obtain ⟨b, -, rfl⟩ := Option.map_eq_some_iff.1 hw
    exact Value.of_bool b
  · rw [if_neg (by simp [Op.kinds_of_isLogical hop]), if_pos hop] at hw
    cases hw
    exact Value.of_bool _
  · obtain ⟨hcomp, hlog⟩ := Op.kinds_of_isBitwise hop
    simp only [hcomp, hlog, hop, Bool.false_eq_true, if_false, if_true] at hw
    obtain ⟨n, -, rfl⟩ := Option.map_eq_some_iff.1 hw
    exact Value.of_int n
  · obtain ⟨hcomp, hlog, hbit⟩ := Op.kinds_of_isArithmetic hop
    simp only [hcomp, hlog, hbit, Bool.false_eq_true, if_false] at hw
    cases hx with
    | real x =>
        cases hy with
        | real y =>
            obtain ⟨f, -, hf⟩ := Option.bind_eq_some_iff.1 hw
            exact float?_of hf
        | ordinal isOrdinal n => cases isOrdinal
    | ordinal isOrdinal n =>
        obtain ⟨i, -, rfl⟩ := Option.map_eq_some_iff.1 hw
        rcases hm with rfl | rfl
        · exact Value.of_int i
        · cases isOrdinal

theorem used_of {n : Note} {ty : Ty} (hn : n.Of ty) {x : Option Value}
    (hx : ∀ v, x = some v → ∃ k, n.type = some (.base k) ∧ v.Of k)
    (hw : p.used n.conv x = some w) : ∃ k, n.usedType = some (.base k) ∧ w.Of k := by
  cases hc : n.conv with
  | none =>
      simp only [used, hc] at hw
      obtain ⟨k, hk, hof⟩ := hx w hw
      exact ⟨k, (Note.usedType_of_kept hc).trans hk, hof⟩
  | some conv =>
      simp only [used, hc] at hw
      obtain ⟨v, hv, hw⟩ := Option.bind_eq_some_iff.1 hw
      obtain ⟨k, -, hof⟩ := hx v hv
      exact ⟨conv.dst, hn.usedType_of_conv hc, convert_of hof hw⟩

/-- The constant of a typed expression has the type of the expression. -/
theorem eval_of {r : Reach} {e : Expr} (h : e.Typed r) :
    ∀ v, p.eval e = some v → ∃ k, e.note.type = some (.base k) ∧ v.Of k := by
  induction h with
  | @literal pos text value note decoded note_of =>
      intro v hv
      exact ⟨_, note_of.type, literal?_of (Literal.decode_of decoded) hv⟩
  | ident _ => exact fun _ hv => (nomatch hv)
  | @unary pos op x note ty operand used numeric note_of ih =>
      intro v hv
      obtain ⟨w, hw, hv⟩ := Option.bind_eq_some_iff.1 hv
      obtain ⟨ty', hof⟩ := operand.note_of
      obtain ⟨k, hk, hwk⟩ := used_of hof ih hw
      cases used.symm.trans hk
      refine ⟨k, note_of.type, unary_of hwk ?_ hv⟩
      rcases numeric with hint | ⟨hfloat, -⟩
      · exact .inl (Ty.base.inj hint)
      · exact .inr (Ty.base.inj hfloat)
  | @binary _ op x y _ xType yType result left right usedLeft usedRight accepts _ note_of ihx ihy =>
      intro v hv
      obtain ⟨xv, hxv, hv⟩ := Option.bind_eq_some_iff.1 hv
      obtain ⟨yv, hyv, hv⟩ := Option.bind_eq_some_iff.1 hv
      obtain ⟨_, hofx⟩ := left.note_of
      obtain ⟨_, hofy⟩ := right.note_of
      obtain ⟨i, hi, hxi⟩ := used_of hofx ihx hxv
      obtain ⟨j, hj, hyj⟩ := used_of hofy ihy hyv
      cases usedLeft.symm.trans hi
      cases usedRight.symm.trans hj
      have hres : op.result? i j = some result := accepts
      cases Op.result?_same hres
      exact ⟨result, note_of.type, binary_of hres hxi hyj hv⟩
  | index _ _ _ _ _ _ => exact fun _ hv => (nomatch hv)
  | call _ _ _ _ _ _ => exact fun _ hv => (nomatch hv)

/-- The same of an expression as used. -/
theorem evalUsed_of {r : Reach} {e : Expr} (h : e.Typed r) (hw : p.evalUsed e = some w) :
    ∃ k, e.usedType = some (.base k) ∧ w.Of k := by
  obtain ⟨ty, hof⟩ := h.note_of
  exact used_of hof (eval_of h) hw

end Precision

/-- Without folding nothing is folded. -/
theorem Context.folded?_false (f : Option Function) (eval : Expr → Option Value) (e : Expr) :
    Context.folded? ⟨false, f⟩ eval e = none := rfl

theorem Context.folded?_of_not_isConstant {c : Context} {e : Expr} (h : e.isConstant = false)
    (eval : Expr → Option Value) : c.folded? eval e = none := by
  unfold Context.folded?
  rw [h, Bool.and_false]
  rfl

theorem Context.eval_of_folded {c : Context} {e : Expr} {eval : Expr → Option Value} {v : Value}
    (h : c.folded? eval e = some v) : eval e = some v := by
  unfold Context.folded? at h
  split at h
  · exact h
  · cases h

theorem Context.isConstant_of_folded {c : Context} {e : Expr} {eval : Expr → Option Value}
    {v : Value} (h : c.folded? eval e = some v) : e.isConstant = true := by
  unfold Context.folded? at h
  split at h
  · next hfold => exact (Bool.and_eq_true_iff.1 hfold).2
  · cases h

end SmallC
