import SmallC.Check.Stmt

/-!
# What a successful check has done

Checking is written as chains in `Except`, one chain for each form of a tree.
The lemmas below open every chain once: a check that succeeded has gone through
all of its steps, and its result is put together from theirs. No later proof
unfolds a check again, so a change to one chain is a change to one lemma.

Two steps are common to many forms and are brought to one shape here. A value
that is used at some type went through `Expr.coerce`, whatever the purpose was
called, and a value that needed no conversion went through it as well. A name
that was referred to carries its symbol and the type of that symbol, which is
`Ident.referTo`.
-/

namespace SmallC

/-- A chain succeeds exactly if both of its parts do. -/
theorem Except.bind_eq_ok_iff {ε α β : Type} {x : Except ε α} {f : α → Except ε β} {b : β} :
    x >>= f = .ok b ↔ ∃ a, x = .ok a ∧ f a = .ok b := by
  cases x with
  | error e => simp [bind, Except.bind]
  | ok a => simp [bind, Except.bind]

/-- Changing the error leaves a success alone. -/
theorem Except.mapError_eq_ok_iff {ε ε' α : Type} {x : Except ε α} {f : ε → ε'} {a : α} :
    x.mapError f = .ok a ↔ x = .ok a := by
  cases x with
  | error e => constructor <;> intro h <;> cases h
  | ok b => constructor <;> intro h <;> cases h <;> rfl

/-- A success is found by a test that only a success passes. -/
theorem Except.any_toOption {ε α : Type} {x : Except ε α} {p : α → Bool}
    (h : x.toOption.any p = true) : ∃ a, x = .ok a ∧ p a = true := by
  cases x with
  | error e => cases h
  | ok a => exact ⟨a, rfl, h⟩

-- Naming the checks here makes their equations once and for all. The lemmas below ask for the same
-- equations all at the same time, and would wait for each other to make them.
section
attribute [local simp] Expr.check Expr.checkArgs checkVars checkParams Stmt.check Block.check
  Stmt.checkAll
end

/-! ## Names and conversions -/

/-- A name as it stands where it refers to a symbol. -/
def Ident.referTo (id : Ident) (sym : Symbol) : Ident :=
  { id with symbol := some sym, note := { type := some sym.type } }

theorem Ident.resolve_ok {t : Table} {s : Nat} {id id' : Ident} {ty : Ty}
    (h : id.resolve t s = .ok (ty, id')) :
    ∃ sym, t.lookup s id.name = some sym ∧ ty = sym.type ∧ id' = id.referTo sym := by
  unfold Ident.resolve at h
  split at h
  · next sym hsym =>
      cases h
      exact ⟨sym, hsym, rfl, rfl⟩
  · cases h

theorem Ident.present_ok {name : Option Ident} {id : Ident} (h : Ident.present name = .ok id) :
    name = some id := by
  cases name with
  | none => cases h
  | some id' => cases h; rfl

theorem checkArray_ok {t : Table} {s : Nat} {array : Option Ident} {elem : Base} {array' : Ident}
    (h : checkArray t s array = .ok (elem, array')) :
    ∃ id sym, array = some id ∧ t.lookup s id.name = some sym ∧ sym.type = .array elem ∧
      array' = id.referTo sym := by
  unfold checkArray at h
  simp only [Except.bind_eq_ok_iff] at h
  obtain ⟨id, hid, ⟨ty, id'⟩, hres, h⟩ := h
  obtain ⟨sym, hsym, hty, rfl⟩ := Ident.resolve_ok hres
  dsimp only at h
  split at h
  · cases h
    exact ⟨id, sym, Ident.present_ok hid, hsym, hty.symm, rfl⟩
  · cases h

theorem Expr.coerce_self (e : Expr) (t : Ty) : e.coerce t t = .ok e := by
  unfold Expr.coerce
  rw [if_pos rfl]

theorem Expr.coerce_ok {e e' : Expr} {src dst : Ty} (h : e.coerce src dst = .ok e') :
    (src = dst ∧ e' = e) ∨
      ∃ b ∈ src.conversions, src ≠ dst ∧ dst = .base b ∧
        e' = e.withNote { e.note with conv := some ⟨b, some (.base b)⟩ } := by
  unfold Expr.coerce at h
  split at h
  · next heq => cases h; exact .inl ⟨heq, rfl⟩
  · next hne =>
      split at h
      · next hconv =>
          cases h
          cases dst with
          | base b => exact .inr ⟨b, by simpa [Ty.convertible] using hconv, hne, rfl, rfl⟩
          | array b => simp [Ty.convertible] at hconv
          | func r ps => simp [Ty.convertible] at hconv
          | absent => simp [Ty.convertible] at hconv
      · cases h

theorem Expr.coerceFor_ok {context : String} {e e' : Expr} {src dst : Ty}
    (h : e.coerceFor context src dst = .ok e') : e.coerce src dst = .ok e' :=
  Except.mapError_eq_ok_iff.1 h

/-! ## Operators -/

/-- The operand types that an operator applies to as they are, with the kind of the result: an entry
of the table of scalar operations, or two arrays of one element kind tested for being the same. -/
def Op.Accepts (op : Op) : Ty → Ty → Base → Prop
  | .base x, .base y, r => op.result? x y = some r
  | .array x, .array y, r => x = y ∧ (op = .eql ∨ op = .neq) ∧ r = .bool
  | _, _, _ => False

/-- The type of an operand once it is converted as a resolution asks. -/
def Resolution.operand (t : Ty) (target : Option Base) : Ty := target.elim t .base

theorem Op.resolveRight_accepts {op : Op} {x : Base} {targets : List Base} {r : Resolution}
    (h : op.resolveRight x targets = some r) :
    ∃ b ∈ targets, r.x = none ∧ r.y = some b ∧ op.result? x b = some r.result := by
  unfold Op.resolveRight at h
  obtain ⟨b, hb, hr⟩ := List.exists_of_findSome?_eq_some h
  obtain ⟨k, hk, rfl⟩ := Option.map_eq_some_iff.1 hr
  exact ⟨b, hb, rfl, rfl, hk⟩

theorem Op.resolveLeft_accepts {op : Op} {y : Base} {targets : List Base} {r : Resolution}
    (h : op.resolveLeft y targets = some r) :
    ∃ b ∈ targets, r.x = some b ∧ r.y = none ∧ op.result? b y = some r.result := by
  unfold Op.resolveLeft at h
  obtain ⟨b, hb, hr⟩ := List.exists_of_findSome?_eq_some h
  obtain ⟨k, hk, rfl⟩ := Option.map_eq_some_iff.1 hr
  exact ⟨b, hb, rfl, rfl, hk⟩

/-- However an operator is resolved, it accepts its operands once they are converted. -/
theorem Op.resolve_accepts {op : Op} {x y : Ty} {r : Resolution} (h : op.resolve x y = some r) :
    op.Accepts (Resolution.operand x r.x) (Resolution.operand y r.y) r.result := by
  unfold Op.resolve at h
  split at h
  · next x y =>
      rcases Option.or_eq_some_iff.1 h with h | ⟨-, h⟩
      · rcases Option.or_eq_some_iff.1 h with h | ⟨-, h⟩
        · obtain ⟨k, hk, rfl⟩ := Option.map_eq_some_iff.1 h
          exact hk
        · obtain ⟨b, -, hx, hy, hres⟩ := Op.resolveRight_accepts h
          rw [hx, hy]
          exact hres
      · obtain ⟨b, -, hx, hy, hres⟩ := Op.resolveLeft_accepts h
        rw [hx, hy]
        exact hres
  · next x y =>
      split at h
      · next hxy => cases h; exact ⟨hxy.1, hxy.2, rfl⟩
      · cases h
  · cases h

/-- An operator is never resolved by converting both of its operands. -/
theorem Op.resolve_once {op : Op} {x y : Ty} {r : Resolution} (h : op.resolve x y = some r) :
    r.x = none ∨ r.y = none := by
  unfold Op.resolve at h
  split at h
  · next x y =>
      rcases Option.or_eq_some_iff.1 h with h | ⟨-, h⟩
      · rcases Option.or_eq_some_iff.1 h with h | ⟨-, h⟩
        · obtain ⟨k, -, rfl⟩ := Option.map_eq_some_iff.1 h
          exact .inl rfl
        · obtain ⟨b, -, hx, -⟩ := Op.resolveRight_accepts h
          exact .inl hx
      · obtain ⟨b, -, -, hy, -⟩ := Op.resolveLeft_accepts h
        exact .inr hy
  · split at h
    · cases h; exact .inl rfl
    · cases h
  · cases h

theorem coerceOperand_ok {e e' : Expr} {src : Ty} {target : Option Base}
    (h : coerceOperand e src target = .ok e') :
    e.coerce src (Resolution.operand src target) = .ok e' := by
  cases target with
  | none => cases h; exact Expr.coerce_self _ _
  | some b => exact Except.mapError_eq_ok_iff.1 h

theorem coerceOperand_keeps {e e' : Expr} {src : Ty} {target : Option Base}
    (h : coerceOperand e src target = .ok e') (htarget : target = none) : e' = e := by
  subst htarget
  cases h
  rfl

theorem checkUnary_ok {pos : Pos} {op : Op} {x e : Expr} {type ty : Ty}
    (h : checkUnary pos op x type = .ok (ty, e)) :
    ∃ x', x.coerce type ty = .ok x' ∧ (ty = .base .int ∨ ty = .base .float ∧ x' = x) ∧
      e = .unary pos op x' { type := some ty } := by
  unfold checkUnary at h
  split at h
  · next hty =>
      cases h
      exact ⟨x, Expr.coerce_self _ _, hty.imp_right fun hty => ⟨hty, rfl⟩, rfl⟩
  · split at h
    · next x' hx => cases h; exact ⟨x', hx, .inl rfl, rfl⟩
    · cases h

theorem checkBinary_ok {pos : Pos} {op : Op} {x y e : Expr} {xType yType ty : Ty}
    (h : checkBinary pos op x y xType yType = .ok (ty, e)) :
    ∃ xUsed yUsed r x' y', op.Accepts xUsed yUsed r ∧ x.coerce xType xUsed = .ok x' ∧
      y.coerce yType yUsed = .ok y' ∧ (x' = x ∨ y' = y) ∧ ty = .base r ∧
      e = .binary pos op x' y' { type := some (.base r) } := by
  unfold checkBinary at h
  split at h
  · cases h
  · next r hr =>
      simp only [Except.bind_eq_ok_iff] at h
      obtain ⟨x', hx, y', hy, h⟩ := h
      cases h
      have honce : x' = x ∨ y' = y :=
        (Op.resolve_once hr).imp (coerceOperand_keeps hx) (coerceOperand_keeps hy)
      exact ⟨_, _, _, x', y', Op.resolve_accepts hr, coerceOperand_ok hx, coerceOperand_ok hy,
        honce, rfl, rfl⟩

/-! ## Expressions -/

theorem Expr.check_literal_ok {t : Table} {s : Nat} {pos : Pos} {text : String}
    {value : Option Value} {note : Note} {ty : Ty} {e : Expr}
    (h : (Expr.literal pos text value note).check t s = .ok (ty, e)) :
    ∃ v, Literal.decode text = .ok v ∧ ty = .base v.kind ∧
      e = .literal pos text (some v) { type := some (.base v.kind) } := by
  rw [Expr.check] at h
  split at h
  · next v hv => cases h; exact ⟨v, hv, rfl, rfl⟩
  · cases h

theorem Expr.check_ident_ok {t : Table} {s : Nat} {id : Ident} {ty : Ty} {e : Expr}
    (h : (Expr.ident id).check t s = .ok (ty, e)) :
    ∃ sym, t.lookup s id.name = some sym ∧ ty = sym.type ∧ e = .ident (id.referTo sym) := by
  rw [Expr.check] at h
  simp only [Except.bind_eq_ok_iff] at h
  obtain ⟨⟨ty', id'⟩, hres, h⟩ := h
  obtain ⟨sym, hsym, rfl, rfl⟩ := Ident.resolve_ok hres
  cases h
  exact ⟨sym, hsym, rfl, rfl⟩

theorem Expr.check_unary_ok {t : Table} {s : Nat} {pos : Pos} {op : Op} {x e : Expr} {note : Note}
    {ty : Ty} (h : (Expr.unary pos op x note).check t s = .ok (ty, e)) :
    ∃ xType x₁ x', x.check t s = .ok (xType, x₁) ∧ x₁.coerce xType ty = .ok x' ∧
      (ty = .base .int ∨ ty = .base .float ∧ x' = x₁) ∧
      e = .unary pos op x' { type := some ty } := by
  rw [Expr.check] at h
  simp only [Except.bind_eq_ok_iff] at h
  obtain ⟨⟨xType, x₁⟩, hx, h⟩ := h
  obtain ⟨x', hx', hty, rfl⟩ := checkUnary_ok h
  exact ⟨xType, x₁, x', hx, hx', hty, rfl⟩

theorem Expr.check_binary_ok {t : Table} {s : Nat} {pos : Pos} {op : Op} {x y e : Expr}
    {note : Note} {ty : Ty} (h : (Expr.binary pos op x y note).check t s = .ok (ty, e)) :
    ∃ xType x₁ x' yType y₁ y' xUsed yUsed r, x.check t s = .ok (xType, x₁) ∧
      y.check t s = .ok (yType, y₁) ∧ x₁.coerce xType xUsed = .ok x' ∧
      y₁.coerce yType yUsed = .ok y' ∧ op.Accepts xUsed yUsed r ∧ (x' = x₁ ∨ y' = y₁) ∧
      ty = .base r ∧
      e = .binary pos op x' y' { type := some (.base r) } := by
  rw [Expr.check] at h
  simp only [Except.bind_eq_ok_iff] at h
  obtain ⟨⟨xType, x₁⟩, hx, ⟨yType, y₁⟩, hy, h⟩ := h
  obtain ⟨xUsed, yUsed, r, x', y', hop, hx', hy', honce, rfl, rfl⟩ := checkBinary_ok h
  exact ⟨xType, x₁, x', yType, y₁, y', xUsed, yUsed, r, hx, hy, hx', hy', hop, honce, rfl, rfl⟩

theorem Expr.check_index_ok {t : Table} {s : Nat} {pos : Pos} {array : Option Ident} {i e : Expr}
    {note : Note} {ty : Ty} (h : (Expr.index pos array i note).check t s = .ok (ty, e)) :
    ∃ id sym elem iType i₁ i', array = some id ∧ t.lookup s id.name = some sym ∧
      sym.type = .array elem ∧ i.check t s = .ok (iType, i₁) ∧
      i₁.coerce iType (.base .int) = .ok i' ∧ ty = .base elem ∧
      e = .index pos (some (id.referTo sym)) i' { type := some (.base elem) } := by
  rw [Expr.check] at h
  simp only [Except.bind_eq_ok_iff] at h
  obtain ⟨⟨elem, array'⟩, harr, ⟨iType, i₁⟩, hi, i', hi', h⟩ := h
  obtain ⟨id, sym, rfl, hsym, hty, rfl⟩ := checkArray_ok harr
  cases h
  exact ⟨id, sym, elem, iType, i₁, i', rfl, hsym, hty, hi, Expr.coerceFor_ok hi', rfl, rfl⟩

theorem checkCall_ok {t : Table} {s : Nat} {pos : Pos} {func : Option Ident} {count : Nat}
    {checkArgs : String → List Ty → Except Fault (List Expr × List Fault)} {result : Ty}
    {func' : Ident} {args' : List Expr}
    (h : checkCall t s pos func count checkArgs = .ok (result, func', args')) :
    ∃ id sym params, func = some id ∧ t.lookup s id.name = some sym ∧
      sym.type = .func result params ∧ params.length = count ∧
      checkArgs id.name params = .ok (args', []) ∧ func' = id.referTo sym := by
  unfold checkCall at h
  simp only [Except.bind_eq_ok_iff] at h
  obtain ⟨id, hid, ⟨ty, id'⟩, hres, h⟩ := h
  obtain ⟨sym, hsym, hty, rfl⟩ := Ident.resolve_ok hres
  dsimp only at h
  split at h
  · next result' params =>
      split at h
      · cases h
      · next hcount =>
          simp only [Except.bind_eq_ok_iff] at h
          obtain ⟨⟨args₁, mismatches⟩, hargs, h⟩ := h
          cases mismatches with
          | nil =>
              cases h
              exact ⟨id, sym, params, Ident.present_ok hid, hsym, hty.symm,
                Decidable.not_not.1 hcount, hargs, rfl⟩
          | cons f fs => cases h
  · cases h

theorem Expr.check_call_ok {t : Table} {s : Nat} {pos : Pos} {func : Option Ident}
    {args : List Expr} {note : Note} {ty : Ty} {e : Expr}
    (h : (Expr.call pos func args note).check t s = .ok (ty, e)) :
    ∃ id sym params args', func = some id ∧ t.lookup s id.name = some sym ∧
      sym.type = .func ty params ∧ params.length = args.length ∧
      Expr.checkArgs t s id.name 1 params args = .ok (args', []) ∧
      e = .call pos (some (id.referTo sym)) args' { type := some ty } := by
  rw [Expr.check] at h
  simp only [Except.bind_eq_ok_iff] at h
  obtain ⟨⟨result, func', args'⟩, hcall, h⟩ := h
  obtain ⟨id, sym, params, hid, hsym, hty, hcount, hargs, rfl⟩ := checkCall_ok hcall
  cases h
  exact ⟨id, sym, params, args', hid, hsym, hty, hcount, hargs, rfl⟩

theorem Expr.checkArgs_cons_ok {t : Table} {s : Nat} {name : String} {i : Nat} {param : Ty}
    {params : List Ty} {e : Expr} {rest args : List Expr}
    (h : Expr.checkArgs t s name i (param :: params) (e :: rest) = .ok (args, [])) :
    ∃ type e₁ e' args', e.check t s = .ok (type, e₁) ∧ e₁.coerce type param = .ok e' ∧
      Expr.checkArgs t s name (i + 1) params rest = .ok (args', []) ∧ args = e' :: args' := by
  rw [Expr.checkArgs] at h
  simp only [Except.bind_eq_ok_iff] at h
  obtain ⟨⟨type, e₁⟩, he, ⟨args', mismatches⟩, hargs, h⟩ := h
  cases hco : e₁.coerce type param with
  | error cause => rw [hco] at h; cases h
  | ok e' =>
      rw [hco] at h
      cases h
      exact ⟨type, e₁, e', args', he, hco, hargs, rfl⟩

theorem Expr.checkCond_ok {t : Table} {s : Nat} {e e' : Expr} (h : e.checkCond t s = .ok e') :
    ∃ type e₁, e.check t s = .ok (type, e₁) ∧ e₁.coerce type (.base .bool) = .ok e' := by
  unfold Expr.checkCond at h
  simp only [Except.bind_eq_ok_iff] at h
  obtain ⟨⟨type, e₁⟩, he, h⟩ := h
  exact ⟨type, e₁, he, Expr.coerceFor_ok h⟩

/-! ## Declarations and other simple statements -/

theorem checkTypeName_ok {name : Option Ident} {allowVoid : Bool} {kind : Base}
    (h : checkTypeName name allowVoid = .ok kind) :
    ∃ id, name = some id ∧ Base.ofText? id.name = some kind ∧
      (kind = .void → allowVoid = true) := by
  unfold checkTypeName at h
  simp only [Except.bind_eq_ok_iff] at h
  obtain ⟨id, hid, h⟩ := h
  split at h
  · next kind' hkind =>
      split at h
      · cases h
      · next hvoid =>
          cases h
          refine ⟨id, Ident.present_ok hid, hkind, fun hk => ?_⟩
          simpa [hk] using hvoid
  · cases h

theorem declare_ok {t t' : Table} {s : Nat} {id id' : Ident} {type : Ty} {size : Option Pos}
    (h : declare t s id type size = .ok (t', id')) :
    ∃ sym, t.addVar s { Symbol.fresh id.name type (some id.pos) with size := size } =
        .ok (t', sym) ∧
      id' = { id with symbol := some sym, note := {} } := by
  unfold declare at h
  simp only [Except.bind_eq_ok_iff] at h
  obtain ⟨⟨t₁, sym⟩, hadd, h⟩ := h
  cases h
  exact ⟨sym, hadd, rfl⟩

theorem checkTarget_ok {t : Table} {s : Nat} {pos : Pos} {target target' : Expr} {ty : Ty}
    (h : checkTarget t s pos target = .ok (ty, target')) :
    (∃ id sym, target = .ident id ∧ t.lookup s id.name = some sym ∧ sym.type.isFunc = false ∧
        ty = sym.type ∧ target' = .ident (id.referTo sym)) ∨
      (∃ ipos array i note, target = .index ipos array i note ∧
        target.check t s = .ok (ty, target')) := by
  unfold checkTarget at h
  split at h
  · next id =>
      simp only [Except.bind_eq_ok_iff] at h
      obtain ⟨⟨ty', id'⟩, hres, h⟩ := h
      obtain ⟨sym, hsym, rfl, rfl⟩ := Ident.resolve_ok hres
      dsimp only at h
      split at h
      · cases h
      · next hfunc =>
          cases h
          exact .inl ⟨id, sym, rfl, hsym, Bool.eq_false_iff.2 hfunc, rfl, rfl⟩
  · next ipos array i note => exact .inr ⟨ipos, array, i, note, rfl, h⟩
  · cases h

theorem checkAssign_ok {t : Table} {s : Nat} {pos : Pos} {target value : Expr} {stmt : Stmt}
    (h : checkAssign t s pos target value = .ok stmt) :
    ∃ ty target' valueType value₁ value', checkTarget t s pos target = .ok (ty, target') ∧
      value.check t s = .ok (valueType, value₁) ∧ value₁.coerce valueType ty = .ok value' ∧
      stmt = .assign pos target' value' (some ty) := by
  unfold checkAssign at h
  simp only [Except.bind_eq_ok_iff] at h
  obtain ⟨⟨ty, target'⟩, ht, ⟨valueType, value₁⟩, hv, value', hv', h⟩ := h
  cases h
  exact ⟨ty, target', valueType, value₁, value', ht, hv, Expr.coerceFor_ok hv', rfl⟩

theorem checkVar_ok {t t' : Table} {s : Nat} {type : Ty} {n n' : Node}
    (h : checkVar t s type n = .ok (t', n')) :
    (∃ id id', n = .expr (.ident id) ∧ declare t s id type none = .ok (t', id') ∧
        n' = .expr (.ident id')) ∨
      (∃ pos id value noted id' assign, n = .stmt (.assign pos (.ident id) value noted) ∧
        declare t s id type none = .ok (t', id') ∧
        checkAssign t' s pos (.ident id') value = .ok assign ∧ n' = .stmt assign) := by
  unfold checkVar at h
  split at h
  · next id =>
      simp only [Except.bind_eq_ok_iff] at h
      obtain ⟨⟨t₁, id'⟩, hd, h⟩ := h
      cases h
      exact .inl ⟨id, id', rfl, hd, rfl⟩
  · next pos target value noted =>
      split at h
      · next id =>
          simp only [Except.bind_eq_ok_iff] at h
          obtain ⟨⟨t₁, id'⟩, hd, assign, ha, h⟩ := h
          cases h
          exact .inr ⟨pos, id, value, noted, id', assign, rfl, hd, ha, rfl⟩
      · cases h
  · cases h

theorem checkVars_cons_ok {t t' : Table} {s : Nat} {type : Ty} {n : Node} {rest ns : List Node}
    (h : checkVars t s type (n :: rest) = .ok (t', ns)) :
    ∃ t₁ n' rest', checkVar t s type n = .ok (t₁, n') ∧
      checkVars t₁ s type rest = .ok (t', rest') ∧ ns = n' :: rest' := by
  rw [checkVars] at h
  simp only [Except.bind_eq_ok_iff] at h
  obtain ⟨⟨t₁, n'⟩, hn, ⟨t₂, rest'⟩, hrest, h⟩ := h
  cases h
  exact ⟨t₁, n', rest', hn, hrest, rfl⟩

/-- The type of a parameter or of the result of a function. -/
def Ty.ofKind (kind : Base) (isArray : Bool) : Ty := if isArray then .array kind else .base kind

theorem checkParam_ok {t t' : Table} {s : Nat} {p p' : Option Param}
    (h : checkParam t s p = .ok (t', p')) :
    ∃ q kind id sym, p = some q ∧ checkTypeName q.type false = .ok kind ∧ q.name = some id ∧
      t.addParam s (Symbol.fresh id.name (Ty.ofKind kind q.isArray) (some id.pos)) =
        .ok (t', sym) ∧
      p' = some { q with name := some { id with symbol := some sym } } := by
  cases p with
  | none => cases h
  | some q =>
      rw [checkParam] at h
      simp only [Except.bind_eq_ok_iff] at h
      obtain ⟨kind, hkind, id, hid, ⟨t₁, sym⟩, hadd, h⟩ := h
      cases h
      exact ⟨q, kind, id, sym, rfl, hkind, Ident.present_ok hid, hadd, rfl⟩

theorem checkParams_cons_ok {t t' : Table} {s : Nat} {p : Option Param}
    {rest ps : List (Option Param)} (h : checkParams t s (p :: rest) = .ok (t', ps)) :
    ∃ t₁ p' rest', checkParam t s p = .ok (t₁, p') ∧
      checkParams t₁ s rest = .ok (t', rest') ∧ ps = p' :: rest' := by
  rw [checkParams] at h
  simp only [Except.bind_eq_ok_iff] at h
  obtain ⟨⟨t₁, p'⟩, hp, ⟨t₂, rest'⟩, hrest, h⟩ := h
  cases h
  exact ⟨t₁, p', rest', hp, hrest, rfl⟩

theorem checkFuncHead_ok {t t' : Table} {s : Nat} {result : Option Ident} {isArray : Bool}
    {name : Option Ident} {params : Option Params} {head : FuncHead}
    (h : checkFuncHead t s result isArray name params = .ok (t', head)) :
    ∃ id kind t₁ list f t₂ sym, name = some id ∧ t.function? s = none ∧
      checkTypeName result (!isArray) = .ok kind ∧
      checkParams ((t.child s).1.setFunction (t.child s).2
          (some (Function.new id.name (Ty.ofKind kind isArray)))) (t.child s).2
        ((params.map (·.list)).getD []) = .ok (t₁, list) ∧
      f = (t₁.functionAt? (t.child s).2).getD (Function.new id.name (Ty.ofKind kind isArray)) ∧
      t₁.addFunc s (Symbol.fresh id.name f.type (some id.pos)) = .ok (t₂, sym) ∧
      t' = t₂.setFunction (t.child s).2 (some { f with symbol := some sym }) ∧
      head = ⟨{ id with symbol := some sym }, params.map ({ · with list := list }),
        (t.child s).2⟩ := by
  unfold checkFuncHead at h
  simp only [Except.bind_eq_ok_iff] at h
  obtain ⟨id, hid, h⟩ := h
  split at h
  · cases h
  · next hfn =>
      simp only [Except.bind_eq_ok_iff] at h
      obtain ⟨kind, hkind, ⟨t₁, list⟩, hparams, ⟨t₂, sym⟩, hadd, h⟩ := h
      cases h
      exact ⟨id, kind, t₁, list, _, t₂, sym, Ident.present_ok hid, hfn, hkind, hparams, rfl, hadd,
        rfl, rfl⟩

theorem checkReturn_ok {t : Table} {s : Nat} {pos : Pos} {value : Expr} {stmt : Stmt}
    (h : checkReturn t s pos value = .ok stmt) :
    ∃ f, t.function? s = some f ∧
      ((value.isMissing = true ∧ f.result.isVoid = true ∧ stmt = .ret pos .missing) ∨
        (∃ type value₁ value', value.isMissing = false ∧ f.result.isVoid = false ∧
          value.check t s = .ok (type, value₁) ∧ value₁.coerce type f.result = .ok value' ∧
          stmt = .ret pos value')) := by
  unfold checkReturn at h
  split at h
  · cases h
  · next f hf =>
      refine ⟨f, hf, ?_⟩
      split at h
      · next hm =>
          split at h
          · next hv => cases h; exact .inl ⟨hm, hv, rfl⟩
          · cases h
      · next hm =>
          simp only [Except.bind_eq_ok_iff] at h
          obtain ⟨⟨type, value₁⟩, hval, h⟩ := h
          dsimp only at h
          split at h
          · cases h
          · next hv =>
              simp only [Except.bind_eq_ok_iff] at h
              obtain ⟨value', hco, h⟩ := h
              cases h
              exact .inr ⟨type, value₁, value', Bool.eq_false_iff.2 hm, Bool.eq_false_iff.2 hv,
                hval, Expr.coerceFor_ok hco, rfl⟩

/-- A loop has its own condition or the inserted one, and only one of them. -/
theorem checkLoopCond_ok {t : Table} {s : Nat} {pos : Pos} {cond cond' inserted : Expr}
    (h : checkLoopCond t s pos cond = .ok (cond', inserted)) :
    (cond.isMissing = true ∧ cond' = .missing ∧
        Expr.checkCond t s (.literal pos "true" none {}) = .ok inserted) ∨
      (cond.isMissing = false ∧ cond.checkCond t s = .ok cond' ∧ inserted = .missing) := by
  unfold checkLoopCond at h
  split at h
  · next hm =>
      simp only [Except.bind_eq_ok_iff] at h
      obtain ⟨inserted', hc, h⟩ := h
      cases h
      exact .inl ⟨hm, rfl, hc⟩
  · next hm =>
      simp only [Except.bind_eq_ok_iff] at h
      obtain ⟨cond₁, hc, h⟩ := h
      cases h
      exact .inr ⟨Bool.eq_false_iff.2 hm, hc, rfl⟩

/-! ## Statements -/

theorem Stmt.check_call_ok {t t' : Table} {s : Nat} {pos : Pos} {func : Option Ident}
    {args : List Expr} {note : Note} {stmt : Stmt}
    (h : (Stmt.call pos func args note).check t s = .ok (t', stmt)) :
    ∃ id sym result params args', t' = t ∧ func = some id ∧ t.lookup s id.name = some sym ∧
      sym.type = .func result params ∧ params.length = args.length ∧
      Expr.checkArgs t s id.name 1 params args = .ok (args', []) ∧
      stmt = .call pos (some (id.referTo sym)) args' { type := some result } := by
  rw [Stmt.check] at h
  simp only [Except.bind_eq_ok_iff] at h
  obtain ⟨⟨result, func', args'⟩, hcall, h⟩ := h
  obtain ⟨id, sym, params, hid, hsym, hty, hcount, hargs, rfl⟩ := checkCall_ok hcall
  cases h
  exact ⟨id, sym, result, params, args', rfl, hid, hsym, hty, hcount, hargs, rfl⟩

theorem Stmt.check_assign_ok {t t' : Table} {s : Nat} {pos : Pos} {target value : Expr}
    {noted : Option Ty} {stmt : Stmt}
    (h : (Stmt.assign pos target value noted).check t s = .ok (t', stmt)) :
    t' = t ∧ checkAssign t s pos target value = .ok stmt := by
  rw [Stmt.check] at h
  simp only [Except.bind_eq_ok_iff] at h
  obtain ⟨assign, ha, h⟩ := h
  cases h
  exact ⟨rfl, ha⟩

theorem Stmt.check_varDecl_ok {t t' : Table} {s : Nat} {pos : Pos} {type : Option Ident}
    {vars : List Node} {stmt : Stmt}
    (h : (Stmt.varDecl pos type vars).check t s = .ok (t', stmt)) :
    ∃ kind vars', checkTypeName type false = .ok kind ∧
      checkVars t s (.base kind) vars = .ok (t', vars') ∧ stmt = .varDecl pos type vars' := by
  rw [Stmt.check] at h
  simp only [Except.bind_eq_ok_iff] at h
  obtain ⟨kind, hkind, ⟨t₁, vars'⟩, hvars, h⟩ := h
  cases h
  exact ⟨kind, vars', hkind, hvars, rfl⟩

theorem Stmt.check_arrayDecl_ok {t t' : Table} {s : Nat} {pos : Pos} {elem name : Option Ident}
    {size : Expr} {stmt : Stmt}
    (h : (Stmt.arrayDecl pos elem name size).check t s = .ok (t', stmt)) :
    ∃ kind type size₁ size' id id', checkTypeName elem false = .ok kind ∧
      size.check t s = .ok (type, size₁) ∧ size₁.coerce type (.base .int) = .ok size' ∧
      name = some id ∧ declare t s id (.array kind) (some size'.pos) = .ok (t', id') ∧
      stmt = .arrayDecl pos elem (some id') size' := by
  rw [Stmt.check] at h
  simp only [Except.bind_eq_ok_iff] at h
  obtain ⟨kind, hkind, ⟨type, size₁⟩, hsize, size', hco, id, hid, ⟨t₁, id'⟩, hd, h⟩ := h
  cases h
  exact ⟨kind, type, size₁, size', id, id', hkind, hsize, Expr.coerceFor_ok hco,
    Ident.present_ok hid, hd, rfl⟩

theorem Stmt.check_ifElse_ok {t t' : Table} {s : Nat} {pos : Pos} {cond : Expr} {yes no : Block}
    {stmt : Stmt} (h : (Stmt.ifElse pos cond yes no).check t s = .ok (t', stmt)) :
    ∃ cond' t₁ yes' no', cond.checkCond t s = .ok cond' ∧
      yes.check (t.child s).1 (t.child s).2 = .ok (t₁, yes') ∧
      no.check (t₁.child s).1 (t₁.child s).2 = .ok (t', no') ∧
      stmt = .ifElse pos cond' yes' no' := by
  rw [Stmt.check] at h
  simp only [Except.bind_eq_ok_iff] at h
  obtain ⟨cond', hc, ⟨t₁, yes'⟩, hyes, ⟨t₂, no'⟩, hno, h⟩ := h
  cases h
  exact ⟨cond', t₁, yes', no', hc, hyes, hno, rfl⟩

theorem Stmt.check_whileLoop_ok {t t' : Table} {s : Nat} {pos : Pos} {cond : Expr} {body : Block}
    {stmt : Stmt} (h : (Stmt.whileLoop pos cond body).check t s = .ok (t', stmt)) :
    ∃ cond' body', cond.checkCond t s = .ok cond' ∧
      body.check (t.child s).1 (t.child s).2 = .ok (t', body') ∧
      stmt = .whileLoop pos cond' body' := by
  rw [Stmt.check] at h
  simp only [Except.bind_eq_ok_iff] at h
  obtain ⟨cond', hc, ⟨t₁, body'⟩, hbody, h⟩ := h
  cases h
  exact ⟨cond', body', hc, hbody, rfl⟩

/-- Checks a part of a loop that may be absent. -/
def Stmt.checkPart (t : Table) (s : Nat) (part : Stmt) : Except Fault (Table × Stmt) :=
  if part.isMissing then .ok (t, part) else part.check t s

theorem Stmt.isMissing_iff {stmt : Stmt} : stmt.isMissing = true ↔ stmt = .missing := by
  cases stmt <;> simp [Stmt.isMissing]

theorem Expr.isMissing_iff {e : Expr} : e.isMissing = true ↔ e = .missing := by
  cases e <;> simp [Expr.isMissing]

theorem Stmt.checkPart_ok {t t' : Table} {s : Nat} {part part' : Stmt}
    (h : part.checkPart t s = .ok (t', part')) :
    (part = .missing ∧ t' = t ∧ part' = .missing) ∨
      (part.isMissing = false ∧ part.check t s = .ok (t', part')) := by
  unfold Stmt.checkPart at h
  split at h
  · next hm =>
      cases h
      exact .inl ⟨Stmt.isMissing_iff.1 hm, rfl, Stmt.isMissing_iff.1 hm⟩
  · next hm => exact .inr ⟨Bool.eq_false_iff.2 hm, h⟩

theorem Stmt.check_forLoop_ok {t t' : Table} {s : Nat} {pos : Pos} {init step : Stmt}
    {cond inserted : Expr} {body : Block} {stmt : Stmt}
    (h : (Stmt.forLoop pos init cond inserted step body).check t s = .ok (t', stmt)) :
    ∃ t₁ init' cond' inserted' t₂ step' body',
      init.checkPart (t.child s).1 (t.child s).2 = .ok (t₁, init') ∧
      checkLoopCond t₁ (t.child s).2 pos cond = .ok (cond', inserted') ∧
      step.checkPart t₁ (t.child s).2 = .ok (t₂, step') ∧
      body.check (t₂.child (t.child s).2).1 (t₂.child (t.child s).2).2 = .ok (t', body') ∧
      stmt = .forLoop pos init' cond' inserted' step' body' := by
  have hpart : ∀ (t : Table) (s : Nat) (part : Stmt),
      part.checkPart t s = (if part.isMissing then .ok (t, part) else part.check t s) :=
    fun _ _ _ => rfl
  rw [Stmt.check] at h
  cases hi : init.isMissing <;> cases hs : step.isMissing <;>
    simp only [hi, hs, Bool.false_eq_true, if_true, if_false, Except.bind_eq_ok_iff] at h <;>
    obtain ⟨⟨t₁, init'⟩, hinit, ⟨cond', inserted'⟩, hc, ⟨t₂, step'⟩, hstep, ⟨t₃, body'⟩, hbody,
      h⟩ := h <;>
    cases h <;>
    exact ⟨t₁, init', cond', inserted', t₂, step', body', by rw [hpart, hi]; exact hinit, hc,
      by rw [hpart, hs]; exact hstep, hbody, rfl⟩

theorem Stmt.check_block_ok {t t' : Table} {s : Nat} {b : Block} {stmt : Stmt}
    (h : (Stmt.block b).check t s = .ok (t', stmt)) :
    ∃ b', b.check (t.child s).1 (t.child s).2 = .ok (t', b') ∧ stmt = .block b' := by
  rw [Stmt.check] at h
  simp only [Except.bind_eq_ok_iff] at h
  obtain ⟨⟨t₁, b'⟩, hb, h⟩ := h
  cases h
  exact ⟨b', hb, rfl⟩

theorem Stmt.check_funcDecl_ok {t t' : Table} {s : Nat} {pos : Pos} {result : Option Ident}
    {isArray : Bool} {name : Option Ident} {params : Option Params} {body : Block}
    {function : Option Function} {stmt : Stmt}
    (h : (Stmt.funcDecl pos result isArray name params body function).check t s =
      .ok (t', stmt)) :
    ∃ t₁ head body', checkFuncHead t s result isArray name params = .ok (t₁, head) ∧
      body.check (t₁.child head.scope).1 (t₁.child head.scope).2 = .ok (t', body') ∧
      stmt = .funcDecl pos result isArray (some head.name) head.params body'
        (t'.functionAt? head.scope) := by
  rw [Stmt.check] at h
  simp only [Except.bind_eq_ok_iff] at h
  obtain ⟨⟨t₁, head⟩, hh, ⟨t₂, body'⟩, hb, h⟩ := h
  cases h
  exact ⟨t₁, head, body', hh, hb, rfl⟩

theorem Stmt.check_ret_ok {t t' : Table} {s : Nat} {pos : Pos} {value : Expr} {stmt : Stmt}
    (h : (Stmt.ret pos value).check t s = .ok (t', stmt)) :
    t' = t ∧ checkReturn t s pos value = .ok stmt := by
  rw [Stmt.check] at h
  simp only [Except.bind_eq_ok_iff] at h
  obtain ⟨ret, hr, h⟩ := h
  cases h
  exact ⟨rfl, hr⟩

theorem Block.check_of_ok {t t' : Table} {s : Nat} {pos : Pos} {stmts : List Stmt} {b : Block}
    (h : (Block.of pos stmts).check t s = .ok (t', b)) :
    ∃ stmts', Stmt.checkAll t s stmts = .ok (t', stmts') ∧ b = .of pos stmts' := by
  rw [Block.check] at h
  simp only [Except.bind_eq_ok_iff] at h
  obtain ⟨⟨t₁, stmts'⟩, hs, h⟩ := h
  cases h
  exact ⟨stmts', hs, rfl⟩

theorem Stmt.checkAll_cons_ok {t t' : Table} {s : Nat} {stmt : Stmt} {rest stmts : List Stmt}
    (h : Stmt.checkAll t s (stmt :: rest) = .ok (t', stmts)) :
    ∃ t₁ stmt' rest', stmt.check t s = .ok (t₁, stmt') ∧
      Stmt.checkAll t₁ s rest = .ok (t', rest') ∧ stmts = stmt' :: rest' := by
  rw [Stmt.checkAll] at h
  simp only [Except.bind_eq_ok_iff] at h
  obtain ⟨⟨t₁, stmt'⟩, hs, ⟨t₂, rest'⟩, hr, h⟩ := h
  cases h
  exact ⟨t₁, stmt', rest', hs, hr, rfl⟩

theorem Analysis.ofProgram_ok {b : Block} {a : Analysis} (h : Analysis.ofProgram b = .ok a) :
    ∃ pos stmts t stmts', b = .of pos stmts ∧
      Stmt.checkAll (Table.initial.child Table.rootScope).1
        (Table.initial.child Table.rootScope).2 stmts = .ok (t, stmts') ∧
      a = ⟨.of pos stmts', t.statics (Table.initial.child Table.rootScope).2⟩ := by
  unfold Analysis.ofProgram Block.analyse at h
  split at h
  · cases h
  · next pos stmts =>
      simp only [Except.bind_eq_ok_iff] at h
      obtain ⟨⟨t, stmts'⟩, hs, h⟩ := h
      cases h
      exact ⟨pos, stmts, t, stmts', rfl, hs, rfl⟩

end SmallC
