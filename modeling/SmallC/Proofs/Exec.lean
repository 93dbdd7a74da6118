import SmallC.Proofs.Machine
import SmallC.Proofs.Meaning
import SmallC.Proofs.TypedLowering
import SmallC.Proofs.Written

/-!
# What scalar programs do

A scalar program has variables of type `int` and `bool` and no functions: it
declares, assigns, branches, loops and prints. What a statement does is a
relation between the stores before and after it. Where it traps or never ends,
it is related to nothing.

The relation knows nothing of either target. Each target is shown to implement
it, so that neither has to be compared with the other.
-/

namespace SmallC

/-- A value that was printed. -/
inductive Printed where
  | int (n : Int)
  | bool (b : Bool)
deriving DecidableEq, Repr

/-- The values of the variables by name, and what has been printed. -/
structure Store where
  values : String → BitVec 32
  output : List Printed

namespace Store

/-- Nothing has happened yet. -/
def initial : Store := ⟨fun _ => 0, []⟩

/-- Gives a variable a value. -/
def set (a : Store) (name : String) (v : BitVec 32) : Store :=
  { a with values := fun x => if x = name then v else a.values x }

/-- Prints a value. -/
def print (a : Store) (p : Printed) : Store := { a with output := a.output ++ [p] }

end Store

/-- What can be seen of a run that has ended: the values that were printed, and the final value of
every global. -/
structure Observation where
  printed : List Printed
  finals : List (String × Int)
deriving DecidableEq, Repr

/-- What can be seen of a store. -/
def Store.observe (globals : List Symbol) (a : Store) : Observation :=
  ⟨a.output, globals.map fun sym => (sym.name, (a.values sym.name).toInt)⟩

/-! ## Statements -/

/-- The value of an expression as used. There are no characters in a scalar program, so it does not
matter how many bits they would have. -/
def Expr.value? (e : Expr) (a : Store) : Option (BitVec 32) := e.meaningUsed 8 a.values

/-- Whether a condition holds. -/
def Expr.holds? (e : Expr) (a : Store) : Option Bool := (e.value? a).map (· ≠ 0)

/-- Stores a value. -/
def assign? (target value : Expr) (a : Store) : Option Store :=
  match target with
  | .ident id => do
    let sym ← id.symbol
    let v ← value.value? a
    return a.set sym.name v
  | _ => none

theorem assign?_ident {id : Ident} {sym : Symbol} (h : id.symbol = some sym) (value : Expr)
    (a : Store) : assign? (.ident id) value a = (value.value? a).map (a.set sym.name) := by
  show (id.symbol.bind fun sym => (value.value? a).bind fun v => some (a.set sym.name v)) = _
  rw [h]
  cases value.value? a <;> rfl

/-- Calls a function that prints its argument. -/
def print? (func : Option Ident) (args : List Expr) (a : Store) : Option Store :=
  match func, args with
  | some id, [e] =>
    if id.name = "print_int" then (e.value? a).map fun v => a.print (.int v.toInt)
    else if id.name = "print_bool" then (e.value? a).map fun v => a.print (.bool (v ≠ 0))
    else none
  | _, _ => none

theorem print?_int {id : Ident} (h : id.name = "print_int") (e : Expr) (a : Store) :
    print? (some id) [e] a = (e.value? a).map fun v => a.print (.int v.toInt) :=
  if_pos h

theorem print?_bool {id : Ident} (h : id.name = "print_bool") (e : Expr) (a : Store) :
    print? (some id) [e] a = (e.value? a).map fun v => a.print (.bool (v ≠ 0)) := by
  unfold print?
  dsimp only
  rw [if_neg (by rw [h]; decide), if_pos h]

/-- Stores the initial values of a declaration. A variable that is given none keeps its value. -/
def initialize? : List Node → Store → Option Store
  | [], a => some a
  | .stmt (.assign _ target value _) :: rest, a => (assign? target value a).bind (initialize? rest)
  | _ :: rest, a => initialize? rest a

/-- The condition of a loop: its own, or else the inserted one. -/
def loopCond (cond inserted : Expr) : Expr := if cond.isMissing then inserted else cond

open Machine (andThen choose Loop)

mutual

/-- What a statement does. -/
def Stmt.exec : Stmt → Store → Store → Prop
  | .missing => Eq
  | .call _ func args _ => fun a b => print? func args a = some b
  | .assign _ target value _ => fun a b => assign? target value a = some b
  | .varDecl _ _ vars => fun a b => initialize? vars a = some b
  | .arrayDecl _ _ _ _ => fun _ _ => False
  | .ifElse _ cond yes no => choose cond.holds? yes.exec no.exec
  | .whileLoop _ cond body => Loop cond.holds? body.exec
  | .forLoop _ init cond inserted step body =>
    andThen init.exec (Loop (loopCond cond inserted).holds? (andThen body.exec step.exec))
  | .block b => b.exec
  | .funcDecl _ _ _ _ _ _ _ => Eq
  | .ret _ _ => fun _ _ => False

/-- What a block does. -/
def Block.exec : Block → Store → Store → Prop
  | .missing => Eq
  | .of _ stmts => Stmt.execAll stmts

/-- What statements do, one after the other. -/
def Stmt.execAll : List Stmt → Store → Store → Prop
  | [] => Eq
  | s :: rest => andThen s.exec (Stmt.execAll rest)

end

/-! ## Scalar programs -/

/-- The kinds of the values of a scalar program. -/
def Base.isScalar : Base → Bool
  | .int | .bool => true
  | .void | .char | .float | .unnamed _ => false

/-- The types of the variables of a scalar program. -/
def Ty.isScalar : Ty → Bool
  | .base k => k.isScalar
  | .array _ | .func _ _ | .absent => false

/-- The expressions of a scalar program: variables and literals, and operators on them. -/
def Expr.isScalar : Expr → Bool
  | .literal _ _ value _ => value.any (·.kind.isScalar)
  | .ident _ => true
  | .unary _ _ x _ => x.isScalar
  | .binary _ _ x y _ => x.isScalar && y.isScalar
  | .missing | .index _ _ _ _ | .call _ _ _ _ | .convert _ _ _ => false

/-- An assignment to a variable. -/
def isScalarAssign (target value : Expr) : Bool :=
  match target with
  | .ident _ => value.isScalar
  | _ => false

/-- An item of a declaration of scalar variables. -/
def Node.isScalarVar : Node → Bool
  | .expr (.ident _) => true
  | .stmt (.assign _ target value _) => isScalarAssign target value
  | _ => false

/-- A call that prints an `int` or a `bool`. -/
def isScalarPrint (func : Option Ident) (args : List Expr) : Bool :=
  match func, args with
  | some id, [e] => (id.name == "print_int" || id.name == "print_bool") && e.isScalar
  | _, _ => false

/-- A condition, if there is one. -/
def Expr.isScalarPart (e : Expr) : Bool := e.isMissing || e.isScalar

mutual

/-- The statements of a scalar program. -/
def Stmt.isScalar : Stmt → Bool
  | .call _ func args _ => isScalarPrint func args
  | .assign _ target value _ => isScalarAssign target value
  | .varDecl _ _ vars => vars.all Node.isScalarVar
  | .ifElse _ cond yes no => cond.isScalar && yes.isScalar && no.isScalar
  | .whileLoop _ cond body => cond.isScalar && body.isScalar
  | .forLoop _ init cond inserted step body =>
    (init.isMissing || init.isScalar) && cond.isScalarPart && inserted.isScalarPart &&
      (step.isMissing || step.isScalar) && body.isScalar
  | .block b => b.isScalar
  | .missing | .arrayDecl _ _ _ _ | .funcDecl _ _ _ _ _ _ _ | .ret _ _ => false

/-- The blocks of a scalar program. -/
def Block.isScalar : Block → Bool
  | .missing => true
  | .of _ stmts => Stmt.allScalar stmts

/-- Several statements of a scalar program. -/
def Stmt.allScalar : List Stmt → Bool
  | [] => true
  | s :: rest => s.isScalar && Stmt.allScalar rest

end

/-- A program that consists of top-level statements over `int` and `bool` variables. -/
def Analysis.isScalar (a : Analysis) : Bool :=
  a.globals.all (·.type.isScalar) && a.program.isScalar

/-- The storage that the statements of a scalar program reach. -/
structure Reach.Scalar (r : Reach) : Prop where
  function : r.function = none
  static : Symbol.Static r.globals
  types : ∀ sym ∈ r.globals, sym.type.isScalar = true

theorem Base.isOrdinal_of_isScalar {k : Base} (h : k.isScalar = true) : k.isOrdinal = true := by
  cases k <;> first | rfl | cases h

theorem Ty.isScalar_iff {t : Ty} : t.isScalar = true ↔ ∃ k, t = .base k ∧ k.isScalar = true := by
  cases t <;> simp [Ty.isScalar]

theorem Reach.Scalar.stored {r : Reach} (hr : r.Scalar) {sym : Symbol} (h : sym.Stored r) :
    sym ∈ r.globals := by
  unfold Symbol.Stored at h
  split at h
  · exact h
  · exact h
  · obtain ⟨f, hf, -⟩ := h
    rw [hr.function] at hf
    cases hf
  · obtain ⟨f, hf, -⟩ := h
    rw [hr.function] at hf
    cases hf
  · exact h.elim

theorem Reach.Scalar.storage {r : Reach} (hr : r.Scalar) {sym : Symbol} (h : sym ∈ r.globals) :
    sym.storage = .global ∨ sym.storage = .globalLocal := by
  obtain ⟨i, hi⟩ := List.getElem?_of_mem h
  exact (hr.static.row i sym hi).1

theorem Reach.Scalar.stored_of_mem {r : Reach} (hr : r.Scalar) {sym : Symbol}
    (h : sym ∈ r.globals) : sym.Stored r := by
  unfold Symbol.Stored
  rcases hr.storage h with hs | hs <;> rw [hs] <;> exact h

/-- Where a variable of a scalar program is stored. -/
theorem Reach.Scalar.place {r : Reach} (hr : r.Scalar) {c : Context} (hc : c.function = none)
    {sym : Symbol} (h : sym.Stored r) (hd : sym.type.isData = true) :
    c.isParam sym = false ∧ sym.storage ≠ .automatic ∧ sym.isStatic = true := by
  have hparam : c.isParam sym = false := by
    unfold Context.isParam
    rw [hc]
    rfl
  have hfunc : sym.isFunc = false := Ty.isFunc_of_isData hd
  rcases hr.storage (hr.stored h) with hs | hs <;> simp [Symbol.isStatic, hfunc, hs, hparam]

/-- What a name in a scalar program refers to, unless it is a function. -/
theorem Reach.Scalar.refers {r : Reach} (hr : r.Scalar) {id : Ident} {sym : Symbol}
    (h : id.Refers r sym) (hid : sym.type.isFunc = false) :
    sym.Stored r ∧ ∃ k, sym.type = .base k ∧ k.isScalar = true := by
  obtain ⟨-, hstored⟩ := h.known.stored hid
  exact ⟨hstored, Ty.isScalar_iff.1 (hr.types sym (hr.stored hstored))⟩

/-! ## Scalar expressions -/

/-- A value of a scalar kind is used as one of a scalar kind. -/
theorem Note.Of.usedType_base {n : Note} {k : Base} {ty : Ty} (h : n.Of (.base k))
    (hu : n.usedType = some ty) : ∃ m, ty = .base m ∧ n.Uses k m := by
  unfold Note.usedType at hu
  cases hc : n.conv with
  | none =>
      rw [hc] at hu
      cases h.type.symm.trans hu
      exact ⟨k, rfl, .inl ⟨hc, rfl⟩⟩
  | some c =>
      rw [hc] at hu
      obtain ⟨htype, hmem⟩ := h.conv c hc
      cases htype.symm.trans hu
      exact ⟨c.dst, rfl, .inr ⟨by rw [hc, ← htype], hmem⟩⟩

theorem Op.result?_same {op : Op} {x y r : Base} (h : op.result? x y = some r) : x = y := by
  unfold Op.result? at h
  split at h <;> first | rfl | cases h

theorem Word.used_bits {n : Note} {k m : Base} (h : n.Uses k m) (hm : m.isScalar = true)
    (bits bits' : Nat) (v : BitVec 32) : Word.used bits n.conv v = Word.used bits' n.conv v := by
  rcases h with ⟨hc, -⟩ | ⟨hc, -⟩
  · rw [hc]
    rfl
  · rw [hc]
    show Word.convert bits m v = Word.convert bits' m v
    cases m <;> first | rfl | cases hm

/-- An expression over `int` and `bool`. Its meaning does not depend on the bits of characters. -/
structure Expr.Scalar (r : Reach) (e : Expr) (k : Base) : Prop where
  ordinal : e.Ordinal r k
  kind : k.isScalar = true
  bits : ∀ bits bits' env, e.meaning bits env = e.meaning bits' env

theorem Expr.Scalar.meaningUsed_bits {r : Reach} {e : Expr} {k m : Base} (h : e.Scalar r k)
    (hu : e.note.Uses k m) (hm : m.isScalar = true) (bits bits' : Nat) (env : String → BitVec 32) :
    e.meaningUsed bits env = e.meaningUsed bits' env := by
  unfold Expr.meaningUsed
  rw [h.bits bits bits' env]
  cases e.meaning bits' env with
  | none => rfl
  | some v => exact congrArg some (Word.used_bits hu hm bits bits' v)

/-- The kinds that an operator takes and gives, if one of its operands is an `int` or a `bool`. -/
theorem Op.result?_scalar {op : Op} {m n : Base} (h : op.result? m m = some n)
    (hm : m.isScalar = true) : n.isScalar = true := by
  rcases Op.result?_cases h (Base.isOrdinal_of_isScalar hm) with ⟨-, -, rfl⟩ | ⟨-, -, rfl⟩ |
    ⟨-, -, rfl⟩ | ⟨-, -, rfl⟩ <;> rfl

theorem Expr.Typed.scalar {r : Reach} (hr : r.Scalar) {e : Expr} (h : e.Typed r) :
    e.IsValue → e.Written → e.isScalar = true → ∃ k, e.note.Of (.base k) ∧ e.Scalar r k := by
  induction h with
  | @literal pos text value note decoded note_of =>
      intro _ _ hs
      have hk : value.kind.isScalar = true := hs
      exact ⟨value.kind, note_of,
        .literal decoded (Base.isOrdinal_of_isScalar hk) note_of.type, hk, fun _ _ _ => rfl⟩
  | @ident id sym refers =>
      intro hv _ _
      obtain ⟨ty, hty, hfunc⟩ := hv
      obtain rfl := Option.some.inj (refers.note.type.symm.trans hty)
      obtain ⟨hstored, k, hk, hscalar⟩ := hr.refers refers hfunc
      have hof := refers.note
      rw [hk] at hof
      exact ⟨k, hof, .ident refers.symbol hstored hk (Base.isOrdinal_of_isScalar hscalar) hof.type,
        hscalar, fun _ _ _ => rfl⟩
  | @unary pos op x note ty operand used numeric note_of ih =>
      intro _ hw hs
      cases hw with
      | unary sign hw =>
          have hfunc : ty.isFunc = false := by rcases numeric with rfl | ⟨rfl, -⟩ <;> rfl
          obtain ⟨k, hof, hx⟩ := ih (operand.isValue used hfunc) hw hs
          obtain ⟨m, rfl, huses⟩ := hof.usedType_base used
          -- A `float` is never the result of a conversion here, and there is none to begin with.
          have hint : m = .int := by
            rcases numeric with hm | ⟨hm, hc⟩
            · cases hm; rfl
            · cases hm
              cases huses.eq_of_none hc
              cases hx.kind
          subst hint
          refine ⟨.int, note_of, .unary hx.ordinal huses sign note_of.type, rfl, fun b b' env => ?_⟩
          rw [Expr.meaning, Expr.meaning, hx.bits b b' env]
          simp only [Word.used_bits huses rfl b b']
  | @binary pos op x y note xType yType result left right usedLeft usedRight accepts once note_of
      ihx ihy =>
      intro _ hw hs
      cases hw with
      | binary hwx hwy =>
          obtain ⟨hsx, hsy⟩ := Bool.and_eq_true_iff.1 hs
          obtain ⟨hfx, hfy⟩ := accepts.isData
          obtain ⟨j, hofx, hx⟩ := ihx (left.isValue usedLeft hfx) hwx hsx
          obtain ⟨k, hofy, hy⟩ := ihy (right.isValue usedRight hfy) hwy hsy
          obtain ⟨m, rfl, hux⟩ := hofx.usedType_base usedLeft
          obtain ⟨m', rfl, huy⟩ := hofy.usedType_base usedRight
          have hres : op.result? m m' = some result := accepts
          cases Op.result?_same hres
          -- One operand is used as it is, and the other one is made the same kind.
          have hm : m.isScalar = true := by
            rcases once with hc | hc
            · rw [← hux.eq_of_none hc]; exact hx.kind
            · rw [← huy.eq_of_none hc]; exact hy.kind
          refine ⟨result, note_of, .binary hx.ordinal hy.ordinal hux huy
            (Base.isOrdinal_of_isScalar hm) hres note_of.type, Op.result?_scalar hres hm,
            fun b b' env => ?_⟩
          rw [Expr.meaning, Expr.meaning, hx.bits b b' env, hy.bits b b' env]
          simp only [Word.used_bits hux hm b b', Word.used_bits huy hm b b']
  | index _ _ _ _ _ _ | call _ _ _ _ _ _ =>
      intro _ _ hs
      cases hs

/-- A scalar expression that is used as a value of kind `m`. -/
theorem Expr.UsedAs.scalar {r : Reach} (hr : r.Scalar) {e : Expr} {m : Base}
    (h : e.UsedAs r (.base m)) (hw : e.Written) (hs : e.isScalar = true) :
    ∃ k, e.Scalar r k ∧ e.note.Uses k m := by
  obtain ⟨k, hof, hscalar⟩ := h.typed.scalar hr (h.typed.isValue h.used rfl) hw hs
  obtain ⟨m', hm, huses⟩ := hof.usedType_base h.used
  cases hm
  exact ⟨k, hscalar, huses⟩

/-! ## Values that fit -/

theorem Base.Fits.mono {bits bits' : Nat} (hle : bits ≤ bits') {k : Base} {v : BitVec 32}
    (h : k.Fits bits v) : k.Fits bits' v := by
  cases k with
  | char => exact Nat.lt_of_lt_of_le h (Nat.pow_le_pow_right (by omega) hle)
  | _ => exact h

theorem Reach.Fits.mono {bits bits' : Nat} (hle : bits ≤ bits') {env : String → BitVec 32}
    {r : Reach} (h : r.Fits bits env) : r.Fits bits' env :=
  fun sym k hs hk => (h sym k hs hk).mono hle

theorem Reach.Fits.initial {bits : Nat} {r : Reach} (hr : r.Scalar) :
    r.Fits bits Store.initial.values := by
  intro sym k hs hk
  have hscalar := hr.types sym (hr.stored hs)
  rw [hk] at hscalar
  cases k with
  | int => trivial
  | bool => exact .inl rfl
  | void | char | float | unnamed _ => cases hscalar

/-- Two static symbols of one name are the same. -/
theorem Symbol.Static.eq_of_name {ids : List Symbol} (h : Symbol.Static ids) {x y : Symbol}
    (hx : x ∈ ids) (hy : y ∈ ids) (hname : x.name = y.name) : x = y := by
  have hfind := Symbol.find?_of_mem h.names hx
  rw [hname, Symbol.find?_of_mem h.names hy] at hfind
  exact (Option.some.inj hfind).symm

theorem Reach.Fits.set {bits : Nat} {r : Reach} (hr : r.Scalar) {a : Store} {sym : Symbol}
    {m : Base} {v : BitVec 32} (h : r.Fits bits a.values) (hs : sym.Stored r)
    (ht : sym.type = .base m) (hv : m.Fits bits v) : r.Fits bits (a.set sym.name v).values := by
  intro sym' k hs' hk
  show k.Fits bits (if sym'.name = sym.name then v else a.values sym'.name)
  split
  · next hname =>
      obtain rfl := hr.static.eq_of_name (hr.stored hs') (hr.stored hs) hname
      rw [ht] at hk
      cases hk
      exact hv
  · exact h sym' k hs' hk

/-- The value of a scalar expression is of the kind it is used as. -/
theorem Expr.Scalar.fits {r : Reach} {e : Expr} {k m : Base} (h : e.Scalar r k)
    (hu : e.note.Uses k m) (hm : m.isScalar = true) {a : Store} (ha : r.Fits 8 a.values)
    {v : BitVec 32} (hv : e.value? a = some v) : m.Fits 8 v :=
  h.ordinal.fits_used hu (Base.isOrdinal_of_isScalar hm) (by omega) ha v hv

/-! ## Typed scalar statements -/

/-- An assignment in a scalar program. -/
theorem AssignTyped.scalar {r : Reach} (hr : r.Scalar) {target value : Expr} {noted : Option Ty}
    (h : AssignTyped r target value noted) (hs : isScalarAssign target value = true) :
    ∃ id sym m, target = .ident id ∧ id.symbol = some sym ∧ sym.Stored r ∧
      sym.type = .base m ∧ m.isScalar = true ∧ value.UsedAs r (.base m) ∧
      value.isScalar = true := by
  obtain ⟨-, hkept, ty, hdata, ⟨htyped, hused⟩, hvalue, -⟩ := h
  unfold isScalarAssign at hs
  split at hs
  · next id =>
      cases htyped with
      | @ident _ sym refers =>
          have htype : sym.type = ty := by
            unfold Expr.usedType Note.usedType at hused
            rw [hkept] at hused
            exact Option.some.inj (refers.note.type.symm.trans hused)
          obtain ⟨hstored, m, hm, hscalar⟩ :=
            hr.refers refers (by rw [htype]; exact Ty.isFunc_of_isData hdata)
          rw [← htype, hm] at hvalue
          exact ⟨id, sym, m, rfl, refers.symbol, hstored, hm, hscalar, hvalue, hs⟩
  · cases hs

theorem Symbol.Known.builtin {r : Reach} {sym : Symbol} (h : sym.Known r) {result : Ty}
    {params : List Ty} (hty : sym.type = .func result params)
    (hname : sym.name ∈ Symbol.builtins.map (·.name)) : sym.builtin = true ∧ sym ∈ Symbol.builtins := by
  cases h with
  | storage type _ => rw [hty] at type; cases type
  | function _ _ _ builtin user =>
      cases hb : sym.builtin with
      | true => exact ⟨rfl, builtin hb⟩
      | false => exact absurd hname (user hb)

/-- The functions that print a scalar have one parameter and no result. -/
theorem Symbol.builtins_print {sym : Symbol} (h : sym ∈ Symbol.builtins) :
    (sym.name = "print_int" → sym.type = .func (.base .void) [.base .int]) ∧
      (sym.name = "print_bool" → sym.type = .func (.base .void) [.base .bool]) := by
  have hall : ∀ sym ∈ Symbol.builtins,
      (sym.name = "print_int" → sym.type = .func (.base .void) [.base .int]) ∧
        (sym.name = "print_bool" → sym.type = .func (.base .void) [.base .bool]) := by decide
  exact hall sym h

/-- A call in a scalar program. -/
theorem Expr.Typed.scalarPrint {r : Reach} {pos : Pos} {func : Option Ident} {args : List Expr}
    {note : Note} (h : (Expr.call pos func args note).Typed r)
    (hs : isScalarPrint func args = true) :
    ∃ id sym m e, func = some id ∧ args = [e] ∧ id.symbol = some sym ∧ sym.builtin = true ∧
      sym.name = id.name ∧ sym.type = .func (.base .void) [.base m] ∧
      note.type = some (.base .void) ∧ e.UsedAs r (.base m) ∧ e.isScalar = true ∧
      ((id.name = "print_int" ∧ m = .int) ∨ (id.name = "print_bool" ∧ m = .bool)) := by
  unfold isScalarPrint at hs
  split at hs
  · next id e =>
      rw [Bool.and_eq_true_iff, Bool.or_eq_true, beq_iff_eq, beq_iff_eq] at hs
      obtain ⟨hname, hscalar⟩ := hs
      cases h with
      | @call _ _ sym result params _ _ refers type operands used note_of =>
          have hmem : sym.name ∈ Symbol.builtins.map (·.name) := by
            rw [refers.name]
            rcases hname with h | h <;> rw [h] <;> decide
          obtain ⟨hbuiltin, hsym⟩ := refers.known.builtin type hmem
          obtain ⟨hint, hbool⟩ := Symbol.builtins_print hsym
          rw [refers.name] at hint hbool
          rcases hname with h | h
          · cases type.symm.trans (hint h)
            exact ⟨id, sym, .int, e, rfl, rfl, refers.symbol, hbuiltin, refers.name, type,
              note_of.type, ⟨operands e List.mem_cons_self, (List.cons.inj used).1⟩, hscalar,
              .inl ⟨h, rfl⟩⟩
          · cases type.symm.trans (hbool h)
            exact ⟨id, sym, .bool, e, rfl, rfl, refers.symbol, hbuiltin, refers.name, type,
              note_of.type, ⟨operands e List.mem_cons_self, (List.cons.inj used).1⟩, hscalar,
              .inr ⟨h, rfl⟩⟩
  · cases hs

/-! ## Scalar programs declare no functions -/

theorem Node.functionsIn_scalar {vars : List Node} (h : vars.all Node.isScalarVar = true) :
    Node.functionsIn vars = .ok [] := by
  induction vars with
  | nil => rfl
  | cons n rest ih =>
      rw [List.all_cons, Bool.and_eq_true_iff] at h
      have hn : n.functions = .ok [] := by
        unfold Node.isScalarVar at h
        split at h
        · rfl
        · rfl
        · cases h.1
      rw [Node.functionsIn, hn, ih h.2]
      rfl

mutual

theorem Stmt.functions_scalar :
    ∀ {stmt : Stmt}, stmt.isMissing = true ∨ stmt.isScalar = true → stmt.functions = .ok []
  | .missing, _ | .call _ _ _ _, _ | .assign _ _ _ _, _ | .arrayDecl _ _ _ _, _
  | .ret _ _, _ => rfl
  | .funcDecl _ _ _ _ _ _ _, h => by simp [Stmt.isMissing, Stmt.isScalar] at h
  | .varDecl _ _ _, h => Node.functionsIn_scalar (h.resolve_left Bool.false_ne_true)
  | .ifElse _ _ _ _, h => by
      have h := h.resolve_left Bool.false_ne_true
      simp only [Stmt.isScalar, Bool.and_eq_true_iff] at h
      rw [Stmt.functions, Block.functions_scalar h.1.2, Block.functions_scalar h.2]
      rfl
  | .whileLoop _ _ _, h => by
      have h := h.resolve_left Bool.false_ne_true
      simp only [Stmt.isScalar, Bool.and_eq_true_iff] at h
      exact Block.functions_scalar h.2
  | .forLoop _ _ _ _ _ _, h => by
      have h := h.resolve_left Bool.false_ne_true
      simp only [Stmt.isScalar, Bool.and_eq_true_iff, Bool.or_eq_true_iff] at h
      obtain ⟨⟨⟨⟨hinit, -⟩, -⟩, hstep⟩, hbody⟩ := h
      rw [Stmt.functions, Stmt.functions_scalar hinit, Stmt.functions_scalar hstep,
        Block.functions_scalar hbody]
      rfl
  | .block _, h => Block.functions_scalar (h.resolve_left Bool.false_ne_true)

theorem Block.functions_scalar : ∀ {b : Block}, b.isScalar = true → b.functions = .ok []
  | .missing, _ => rfl
  | .of _ _, h => Stmt.functionsIn_scalar h

theorem Stmt.functionsIn_scalar :
    ∀ {stmts : List Stmt}, Stmt.allScalar stmts = true → Stmt.functionsIn stmts = .ok []
  | [], _ => rfl
  | _ :: _, h => by
      obtain ⟨hs, hrest⟩ := Bool.and_eq_true_iff.1 h
      rw [Stmt.functionsIn, Stmt.functions_scalar (.inr hs), Stmt.functionsIn_scalar hrest]
      rfl

end

theorem Analysis.stmts_of_not_needsInitializer {pos : Pos} {stmts : List Stmt}
    {globals : List Symbol} (hs : Stmt.allScalar stmts = true)
    (h : Analysis.needsInitializer globals (.of pos stmts) = .ok false) : stmts = [] := by
  have h : (!globals.isEmpty || stmts.any (!·.isFuncDecl)) = false := Except.ok.inj h
  rw [Bool.or_eq_false_iff] at h
  cases stmts with
  | nil => rfl
  | cons s rest =>
      obtain ⟨hs, -⟩ := Bool.and_eq_true_iff.1 hs
      obtain ⟨-, h⟩ := h
      rw [List.any_cons, Bool.or_eq_false_iff] at h
      cases s with
      | funcDecl _ _ _ _ _ _ _ => cases hs
      | _ => cases h.1

/-- What both targets need to know about a scalar program. -/
structure Analysis.Scalar (a : Analysis) : Prop where
  reach : Reach.Scalar ⟨a.globals, none⟩
  typed : a.program.Typed ⟨a.globals, none⟩
  scalar : a.program.isScalar = true
  written : Expr.AllWritten a.program.exprs
  isOf : ∃ pos stmts, a.program = .of pos stmts

theorem Analysis.scalar_of_parse {text : String} {b : Block} {a : Analysis}
    (hb : Block.parse text = .ok b) (ha : Analysis.ofProgram b = .ok a)
    (hs : a.isScalar = true) : a.Scalar := by
  obtain ⟨htypes, hprogram⟩ := Bool.and_eq_true_iff.1 hs
  obtain ⟨htyped, -, hstatic⟩ := Analysis.ofProgram_checked ha
  refine ⟨⟨rfl, hstatic, List.all_eq_true.1 htypes⟩, htyped, hprogram, Analysis.written hb ha, ?_⟩
  obtain ⟨pos, stmts, t, stmts', rfl, -, rfl⟩ := Analysis.ofProgram_ok ha
  exact ⟨pos, stmts', rfl⟩

/-- A scalar program needs an initializer, or does nothing. -/
theorem Analysis.Scalar.needsInitializer {a : Analysis} (h : a.Scalar) :
    Analysis.needsInitializer a.globals a.program = .ok true ∨
      (Analysis.needsInitializer a.globals a.program = .ok false ∧ a.program.exec = Eq) := by
  obtain ⟨pos, stmts, hof⟩ := h.isOf
  have hscalar := h.scalar
  rw [hof] at hscalar ⊢
  cases hneeds : (!a.globals.isEmpty || stmts.any (!·.isFuncDecl)) with
  | true => exact .inl (congrArg Except.ok hneeds)
  | false =>
      have hfalse : Analysis.needsInitializer a.globals (.of pos stmts) = .ok false :=
        congrArg Except.ok hneeds
      obtain rfl := Analysis.stmts_of_not_needsInitializer hscalar hfalse
      exact .inr ⟨hfalse, rfl⟩

end SmallC
