import SmallC.Literal
import SmallC.Symbol.Table
import SmallC.Tree.Walk
import SmallC.Ty.Conversion

/-!
# Checking expressions

Checking an expression gives its type and the same expression with notes: every
name resolved, every part with its type, and a conversion noted wherever the
value is not of the type that its user needs. Expressions declare nothing, so
the symbol table is only read.

The first fault ends the analysis, with one exception: all arguments of a call
that cannot be converted are reported together.
-/

namespace SmallC

namespace Expr

/-- Notes the conversion of an expression of type `src` to `dst`, if one is needed. -/
def coerce (e : Expr) (src dst : Ty) : Except Cause Expr :=
  if src = dst then .ok e
  else if src.convertible dst then
    .ok (e.withNote { e.note with conv := some ⟨dst.kind, some dst⟩ })
  else .error (.inconvertible src dst)

/-- Notes a conversion that is needed for the purpose that `context` names. -/
def coerceFor (context : String) (e : Expr) (src dst : Ty) : Except Fault Expr :=
  (e.coerce src dst).mapError fun cause =>
    .located .incompatibleTypes e.pos [.within context [.traced cause]]

end Expr

namespace Ident

/-- A name that has to be there. -/
def present : Option Ident → Except Fault Ident
  | some id => .ok id
  | none => .error (.crash .absentNode)

/-- Finds out what a name stands for in scope `s`. -/
def resolve (t : Table) (s : Nat) (id : Ident) : Except Fault (Ty × Ident) :=
  match t.lookup s id.name with
  | some symbol =>
    .ok (symbol.type, { id with symbol := some symbol, note := { type := some symbol.type } })
  | none => .error (.broken .unknownIdentifier id.pos (.undefined id.name))

end Ident

/-- Resolves the array of an element, and gives the kind of its elements. -/
def checkArray (t : Table) (s : Nat) (array : Option Ident) : Except Fault (Base × Ident) := do
  let array ← Ident.present array
  let (type, array) ← array.resolve t s
  match type with
  | .array elem => return (elem, array)
  | _ => .error (.broken .notAnArray array.pos (.notArray array.name type))

/-- Checks a call whose arguments are checked by `checkArgs`, given the name of the function and the
types of its parameters. -/
def checkCall (t : Table) (s : Nat) (pos : Pos) (func : Option Ident) (count : Nat)
    (checkArgs : String → List Ty → Except Fault (List Expr × List Fault)) :
    Except Fault (Ty × Ident × List Expr) := do
  let func ← Ident.present func
  let (type, func) ← func.resolve t s
  match type with
  | .func result params =>
    if params.length ≠ count then
      .error (.broken .argumentCountMismatch pos (.argumentCount func.name params.length count))
    else
      let (args, mismatches) ← checkArgs func.name params
      match Fault.aggregate? .argumentTypeMismatch pos mismatches with
      | some fault => .error fault
      | none => return (result, func, args)
  | _ => .error (.broken .notAFunction func.pos (.notFunction func.name type))

/-- Checks the operand of a unary operator of type `type`: what is neither `int` nor `float` becomes
an `int`. -/
def checkUnary (pos : Pos) (op : Op) (x : Expr) (type : Ty) : Except Fault (Ty × Expr) :=
  if type = .base .int ∨ type = .base .float then
    .ok (type, .unary pos op x { type := some type })
  else match x.coerce type (.base .int) with
    | .ok x => .ok (.base .int, .unary pos op x { type := some (.base .int) })
    | .error _ => .error (.broken .incompatibleOperator pos (.unaryOperator op type))

/-- Notes the conversion of an operand, if its operator asks for one. -/
def coerceOperand (e : Expr) (src : Ty) : Option Base → Except Fault Expr
  | none => .ok e
  | some dst => (e.coerce src (.base dst)).mapError fun cause =>
    .broken .incompatibleOperator e.pos cause

/-- Checks the operands of a binary operator. -/
def checkBinary (pos : Pos) (op : Op) (x y : Expr) (xType yType : Ty) :
    Except Fault (Ty × Expr) := do
  match op.resolve xType yType with
  | none => .error (.broken .incompatibleOperator pos (.binaryOperator op xType yType))
  | some r =>
    let x ← coerceOperand x xType r.x
    let y ← coerceOperand y yType r.y
    return (.base r.result, .binary pos op x y { type := some (.base r.result) })

mutual

/-- Checks an expression in scope `s`. -/
def Expr.check (t : Table) (s : Nat) : Expr → Except Fault (Ty × Expr)
  | .literal pos text _ _ =>
    match Literal.decode text with
    | .ok value =>
      .ok (.base value.kind, .literal pos text (some value) { type := some (.base value.kind) })
    | .error cause => .error (.broken .invalidLiteral pos cause)
  | .ident id => do
    let (type, id) ← id.resolve t s
    return (type, .ident id)
  | .unary pos op x _ => do
    let (type, x) ← x.check t s
    checkUnary pos op x type
  | .binary pos op x y _ => do
    let (xType, x) ← x.check t s
    let (yType, y) ← y.check t s
    checkBinary pos op x y xType yType
  | .index pos array i _ => do
    let (elem, array) ← checkArray t s array
    let (type, i) ← i.check t s
    let i ← i.coerceFor "array index" type (.base .int)
    return (.base elem, .index pos (some array) i { type := some (.base elem) })
  | .call pos func args _ => do
    let (result, func, args) ←
      checkCall t s pos func args.length fun name params => Expr.checkArgs t s name 1 params args
    return (result, .call pos (some func) args { type := some result })
  | e => .error (.bug e.pos (.unsupportedExpr e.typeText))

/-- Checks the arguments of a call against the types of the parameters. `i` counts the arguments;
the second result holds those that cannot be converted. -/
def Expr.checkArgs (t : Table) (s : Nat) (name : String) (i : Nat) :
    List Ty → List Expr → Except Fault (List Expr × List Fault)
  | param :: params, e :: rest => do
    let (type, e) ← e.check t s
    let (e, mismatch) := match e.coerce type param with
      | .ok e => (e, [])
      | .error cause =>
        (e, [Fault.within ("argument " ++ toString i ++ " of " ++ name) [.traced cause]])
    let (args, mismatches) ← Expr.checkArgs t s name (i + 1) params rest
    return (e :: args, mismatch ++ mismatches)
  | _, _ => .ok ([], [])

end

/-- Checks a condition, which is used as a `bool`. -/
def Expr.checkCond (t : Table) (s : Nat) (e : Expr) : Except Fault Expr := do
  let (type, e) ← e.check t s
  e.coerceFor "condition" type (.base .bool)

end SmallC
