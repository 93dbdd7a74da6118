import SmallC.Check.Expr

/-!
# Checking statements and programs

Checking a statement may declare names, so it takes a symbol table and gives one
back. A block opens a scope; a loop opens one for its own parts and a second one
for its body; a function opens one for its parameters and a second one inside it
for its body.

The order of the steps is part of the language, because the first fault is the
one reported and because it decides what a name refers to: a variable is
declared before its initial value is checked, an array after its size, and the
step of a loop is checked before its body.
-/

namespace SmallC

/-- The scalar kind that a type name stands for. -/
def checkTypeName (name : Option Ident) (allowVoid : Bool) : Except Fault Base := do
  let name ← Ident.present name
  match Base.ofText? name.name with
  | some kind =>
    if kind = .void ∧ !allowVoid then .error (.broken .unknownType name.pos (.notAType name.name))
    else return kind
  | none => .error (.broken .unknownType name.pos (.notAType name.name))

/-- Declares a variable or an array. -/
def declare (t : Table) (s : Nat) (id : Ident) (type : Ty) (size : Option Pos) :
    Except Fault (Table × Ident) := do
  let symbol := { Symbol.fresh id.name type (some id.pos) with size := size }
  let (t, symbol) ← t.addVar s symbol
  return (t, { id with symbol := some symbol, note := {} })

/-- Checks the target of an assignment, and gives the type of what is stored there. -/
def checkTarget (t : Table) (s : Nat) (pos : Pos) : Expr → Except Fault (Ty × Expr)
  | .ident id => do
    let (type, id) ← id.resolve t s
    if type.isFunc then .error (.broken .incompatibleTypes id.pos (.assignedFunction id.name))
    else return (type, .ident id)
  | e@(.index _ _ _ _) => e.check t s
  | e => .error (.bug pos (.unassignable e.typeText))

/-- Checks an assignment. -/
def checkAssign (t : Table) (s : Nat) (pos : Pos) (target value : Expr) : Except Fault Stmt := do
  let (type, target) ← checkTarget t s pos target
  let (valueType, value) ← value.check t s
  let value ← value.coerceFor "assignment" valueType type
  return .assign pos target value (some type)

/-- Checks one item of a declaration of variables of type `type`. -/
def checkVar (t : Table) (s : Nat) (type : Ty) : Node → Except Fault (Table × Node)
  | .expr (.ident id) => do
    let (t, id) ← declare t s id type none
    return (t, .expr (.ident id))
  | .stmt (.assign pos target value _) =>
    match target with
    | .ident id => do
      let (t, id) ← declare t s id type none
      let assign ← checkAssign t s pos (.ident id) value
      return (t, .stmt assign)
    | target => .error (.bug pos (.undeclarable target.typeText))
  | n => .error (.bug n.pos (.undeclarable n.typeText))

/-- Checks the items of a declaration in order. -/
def checkVars (t : Table) (s : Nat) (type : Ty) : List Node → Except Fault (Table × List Node)
  | [] => .ok (t, [])
  | n :: rest => do
    let (t, n) ← checkVar t s type n
    let (t, rest) ← checkVars t s type rest
    return (t, n :: rest)

/-- Checks a parameter of the function whose scope is `s`. -/
def checkParam (t : Table) (s : Nat) : Option Param → Except Fault (Table × Option Param)
  | none => .error (.crash .absentNode)
  | some p => do
    let kind ← checkTypeName p.type false
    let name ← Ident.present p.name
    let type : Ty := if p.isArray then .array kind else .base kind
    let (t, symbol) ← t.addParam s (Symbol.fresh name.name type (some name.pos))
    return (t, some { p with name := some { name with symbol := some symbol } })

/-- Checks parameters in order. -/
def checkParams (t : Table) (s : Nat) :
    List (Option Param) → Except Fault (Table × List (Option Param))
  | [] => .ok (t, [])
  | p :: rest => do
    let (t, p) ← checkParam t s p
    let (t, rest) ← checkParams t s rest
    return (t, p :: rest)

/-- A function declared in scope `s`, up to its body. -/
structure FuncHead where
  /-- The name, with the symbol of the function. -/
  name : Ident
  params : Option Params
  /-- The scope of the parameters. -/
  scope : Nat

/-- Checks all of a function but its body. -/
def checkFuncHead (t : Table) (s : Nat) (result : Option Ident) (isArray : Bool)
    (name : Option Ident) (params : Option Params) : Except Fault (Table × FuncHead) := do
  let name ← Ident.present name
  match t.function? s with
  | some outer =>
    .error (.broken .nestedFunctionNotSupported name.pos (.nestedFunction name.name outer.name))
  | none =>
    let kind ← checkTypeName result (!isArray)
    let f := Function.new name.name (if isArray then .array kind else .base kind)
    let (t, scope) := t.child s
    let t := t.setFunction scope (some f)
    let (t, list) ← checkParams t scope ((params.map (·.list)).getD [])
    let f := (t.functionAt? scope).getD f
    let (t, symbol) ← t.addFunc s (Symbol.fresh name.name f.type (some name.pos))
    let t := t.setFunction scope (some { f with symbol := some symbol })
    return (t, ⟨{ name with symbol := some symbol }, params.map ({ · with list := list }), scope⟩)

/-- Checks a return statement. -/
def checkReturn (t : Table) (s : Nat) (pos : Pos) (value : Expr) : Except Fault Stmt := do
  match t.function? s with
  | none => .error (.broken .returnOutsideFunction pos .strayReturn)
  | some f =>
    if value.isMissing then
      if f.result.isVoid then return .ret pos .missing
      else .error (.broken .incompatibleTypes pos (.missingResult f.name f.result))
    else
      let (type, value) ← value.check t s
      if f.result.isVoid then
        .error (.broken .incompatibleTypes value.pos (.unwantedResult f.name))
      else
        let value ← value.coerceFor "return value" type f.result
        return .ret pos value

/-- Checks the condition of a loop. A loop without one goes on for ever, and gets the condition
`true`: the result is the condition and the inserted one. -/
def checkLoopCond (t : Table) (s : Nat) (pos : Pos) (cond : Expr) :
    Except Fault (Expr × Expr) := do
  if cond.isMissing then
    let inserted ← Expr.checkCond t s (.literal pos "true" none {})
    return (.missing, inserted)
  else
    let cond ← cond.checkCond t s
    return (cond, .missing)

mutual

/-- Checks a statement in scope `s`. -/
def Stmt.check (t : Table) (s : Nat) : Stmt → Except Fault (Table × Stmt)
  | .missing => .error (.bug .nowhere (.unsupportedStmt Stmt.missing.typeText))
  | .call pos func args _ => do
    let (result, func, args) ←
      checkCall t s pos func args.length fun name params => Expr.checkArgs t s name 1 params args
    return (t, .call pos (some func) args { type := some result })
  | .assign pos target value _ => do
    let assign ← checkAssign t s pos target value
    return (t, assign)
  | .varDecl pos type vars => do
    let kind ← checkTypeName type false
    let (t, vars) ← checkVars t s (.base kind) vars
    return (t, .varDecl pos type vars)
  | .arrayDecl pos elem name size => do
    let kind ← checkTypeName elem false
    let (type, size) ← size.check t s
    let size ← size.coerceFor "array size" type (.base .int)
    let name ← Ident.present name
    let (t, name) ← declare t s name (.array kind) (some size.pos)
    return (t, .arrayDecl pos elem (some name) size)
  | .ifElse pos cond yes no => do
    let cond ← cond.checkCond t s
    let (t, inner) := t.child s
    let (t, yes) ← yes.check t inner
    let (t, inner) := t.child s
    let (t, no) ← no.check t inner
    return (t, .ifElse pos cond yes no)
  | .whileLoop pos cond body => do
    let cond ← cond.checkCond t s
    let (t, inner) := t.child s
    let (t, body) ← body.check t inner
    return (t, .whileLoop pos cond body)
  | .forLoop pos init cond _ step body => do
    let (t, s) := t.child s
    let (t, init) ← if init.isMissing then .ok (t, init) else init.check t s
    let (cond, inserted) ← checkLoopCond t s pos cond
    let (t, step) ← if step.isMissing then .ok (t, step) else step.check t s
    let (t, inner) := t.child s
    let (t, body) ← body.check t inner
    return (t, .forLoop pos init cond inserted step body)
  | .block b => do
    let (t, inner) := t.child s
    let (t, b) ← b.check t inner
    return (t, .block b)
  | .funcDecl pos result isArray name params body _ => do
    let (t, head) ← checkFuncHead t s result isArray name params
    let (t, inner) := t.child head.scope
    let (t, body) ← body.check t inner
    return (t, .funcDecl pos result isArray (some head.name) head.params body
      (t.functionAt? head.scope))
  | .ret pos value => do
    let ret ← checkReturn t s pos value
    return (t, ret)

/-- Checks the statements of a block in scope `s`, which is the scope of the block itself. -/
def Block.check (t : Table) (s : Nat) : Block → Except Fault (Table × Block)
  | .missing => .ok (t, .missing)
  | .of pos stmts => do
    let (t, stmts) ← Stmt.checkAll t s stmts
    return (t, .of pos stmts)

/-- Checks statements in order. -/
def Stmt.checkAll (t : Table) (s : Nat) : List Stmt → Except Fault (Table × List Stmt)
  | [] => .ok (t, [])
  | stmt :: rest => do
    let (t, stmt) ← stmt.check t s
    let (t, rest) ← Stmt.checkAll t s rest
    return (t, stmt :: rest)

end

/-- A program with all that analysis finds out about it. -/
structure Analysis where
  program : Block
  /-- The symbols stored for as long as the program runs, in slot order. -/
  globals : List Symbol

/-- Analyses a program, in a global scope right inside scope `s`. -/
def Block.analyse (t : Table) (s : Nat) (b : Block) : Except Fault Analysis :=
  match b with
  | .missing => .error (.internal .nowhere [.traced .noProgram])
  | .of pos stmts => do
    let (t, global) := t.child s
    let (t, stmts) ← Stmt.checkAll t global stmts
    return ⟨.of pos stmts, t.statics global⟩

namespace Analysis

/-- Analyses a program that knows nothing but the builtin functions. -/
def ofProgram (b : Block) : Except Fault Analysis := b.analyse .initial Table.rootScope

/-- A program about which nothing is known. -/
def unchecked (b : Block) : Analysis := ⟨b, []⟩

/-- How much an analysis found out, counted by sort. -/
structure Counts where
  types : Nat
  idents : Nat
  conversions : Nat
  values : Nat
  inserted : Nat
  functions : Nat
deriving DecidableEq, Repr

/-- Whether the name at a node is resolved. -/
def resolvedAt : Node → Bool
  | .expr (.ident id) => id.symbol.isSome
  | _ => false

/-- Whether the literal at a node is decoded. -/
def decodedAt : Node → Bool
  | .expr (.literal _ _ value _) => value.isSome
  | _ => false

/-- Whether the function at a node is described. -/
def describedAt : Node → Bool
  | .stmt (.funcDecl _ _ _ _ _ _ function) => function.isSome
  | _ => false

/-- Counts what an analysis found out. A conversion has a type of its own. -/
def counts (a : Analysis) : Counts :=
  let nodes := a.program.nodes
  let conversions := nodes.filterMap (·.note.conv)
  { types := nodes.countP (·.note.type.isSome) + conversions.countP (·.type.isSome)
    idents := nodes.countP resolvedAt
    conversions := conversions.length
    values := nodes.countP decodedAt
    inserted := nodes.countP (!·.inserted.isEmpty)
    functions := nodes.countP describedAt }

end Analysis

end SmallC
