import SmallC.Cil.Instr
import SmallC.Lowering

/-!
# Lowering to CIL

The code of an expression leaves its value, as used, on the stack. It depends on
nothing but the expression and the function it stands in, so it is a list of
instructions and no state is threaded through.

Statements need labels, which are numbered through the whole program. The number
given last goes in and out of every step. A loop tests its condition at the
bottom, after its body and its step.
-/

namespace SmallC.Cil

/-- The arithmetic of the machine: a character is a 16-bit code unit and a `float` a number of
single precision. -/
def precision : Precision := ⟨16, true⟩

/-- The instruction that pushes a constant. -/
def immediate : Value → Instr
  | .real bits => .ldcReal bits
  | .ordinal .bool n => if n = 0 then .ldcZero else .ldcOne
  | .ordinal .char n => if n ≤ 127 then .ldcShort n else .ldcDec n
  | .ordinal _ n => .ldcHex n

/-- The instructions of an operator on two values on the stack, where `float` says what they are. A
comparison that the machine lacks is the negation of the opposite one; for numbers it is the
unordered form, so that it is false when one of them is not a number. -/
def binaryCode? (op : Op) (float : Bool) : Option (List Instr) :=
  match op, float with
  | .add, _ => some [.add]
  | .sub, _ => some [.sub]
  | .mul, _ => some [.mul]
  | .div, _ => some [.div]
  | .eql, _ => some [.ceq]
  | .neq, _ => some [.ceq, .ldcZero, .ceq]
  | .gtr, _ => some [.cgt]
  | .lss, _ => some [.clt]
  | .geq, false => some [.clt, .ldcZero, .ceq]
  | .geq, true => some [.cltUn, .ldcZero, .ceq]
  | .leq, false => some [.cgt, .ldcZero, .ceq]
  | .leq, true => some [.cgtUn, .ldcZero, .ceq]
  | .and, false => some [.and]
  | .or, false => some [.or]
  | .xor, false => some [.xor]
  | .land, false => some [.and]
  | .lor, false => some [.or]
  | _, _ => none

/-- The instructions that convert a value on the stack. There are none where both kinds look the
same there. -/
def convertCode? (src dst : Base) : Option (List Instr) :=
  match src, dst with
  | .int, .float | .char, .float | .bool, .float => some [.convR4]
  | .float, .int => some [.convI4]
  | .float, .char | .int, .char => some [.convU2]
  | .bool, .char | .char, .int | .bool, .int => some []
  | .int, .bool | .char, .bool => some [.ldcZero, .ceq, .ldcZero, .ceq]
  | .float, .bool => some [.ldcReal 0, .ceq, .ldcZero, .ceq]
  | _, _ => none

/-- The instructions of a builtin function once its arguments are on the stack. -/
def builtinCode? (name : String) : Option (List Instr) :=
  match name with
  | "print_int" => some [.library (.write .int)]
  | "print_float" => some [.library (.write .float)]
  | "print_char" => some [.library (.write .char)]
  | "print_bool" => some [.library (.write .bool)]
  | "print_string" => some [.library .newString, .library .writeString]
  | "read_int" => some [.library .readLine, .library (.parse .int)]
  | "read_float" => some [.library .readLine, .library (.parse .float)]
  | "read_bool" => some [.library .readLine, .library (.parse .bool)]
  | "read_char" => some [.library .readLine, .ldcZero, .library .charAt]
  | "read_string" => some [.library .readLine, .library .toChars]
  | _ => none

/-- Pushes what a symbol stands for, where it is mentioned at `pos`. -/
def load (c : Context) (pos : Pos) (id : Symbol) : Except Fault Instr :=
  if c.isParam id then .ok (.ldarg id.name)
  else if id.storage = .automatic then .ok (.ldloc id.name)
  else if id.isStatic then do
    id.type.require
    return .ldsfld id.type id.name
  else .error (.bug pos (.unloadable id))

/-- Stores the value on the stack in a symbol. -/
def store (c : Context) (id : Symbol) : Except Fault Instr :=
  if c.isParam id then .ok (.starg id.name)
  else if id.storage = .automatic then .ok (.stloc id.name)
  else if id.isStatic then do
    id.type.require
    return .stsfld id.type id.name
  else .error (.bug id.pos (.unstorable id))

/-- The code of a conversion at `pos` of a value of type `src`. -/
def convertCode (pos : Pos) (src : Option Ty) (dst : Base) : Except Fault (List Instr) :=
  match src with
  | none => .error (.bug pos .untypedConversion)
  | some src =>
    match src, convertCode? src.kind dst with
    | .base _, some code => .ok code
    | _, _ => .error (.bug pos (.unsupportedConversion (some src) dst))

/-- The code of an expression before conversion: `raw`, unless the expression is folded. It is
inlined so that `raw` is only computed where it is needed. -/
@[macro_inline]
def plain (c : Context) (e : Expr) (raw : Except Fault (List Instr)) :
    Except Fault (List Instr) :=
  if e.isLiteral then raw
  else match c.folded? precision.eval e with
    | some value => .ok [immediate value]
    | none => raw

/-- The code of an expression as used, where `raw` is its code without folding and conversion. -/
@[macro_inline]
def used (c : Context) (e : Expr) (raw : Except Fault (List Instr)) :
    Except Fault (List Instr) :=
  match e.note.conv with
  | none => plain c e raw
  | some conv =>
    match c.folded? precision.evalUsed e with
    | some value => .ok [immediate value]
    | none => do
      let code ← plain c e raw
      let more ← convertCode e.pos e.note.type conv.dst
      return code ++ more

/-- The code of a call at `pos`, where `args` is the code of its arguments. -/
def callCode (pos : Pos) (func : Option Ident) (args : Except Fault (List Instr)) :
    Except Fault (List Instr) := do
  let callee ← Ident.callee pos func
  if callee.symbol.builtin then
    match builtinCode? callee.symbol.name with
    | none => .error (.bug pos (.unsupportedBuiltin callee.symbol.name))
    | some code => return (← args) ++ code
  else
    let args ← args
    Ty.requireAll (callee.result :: callee.params)
    return args ++ [.call callee.result callee.symbol.name callee.params]

mutual

/-- The code of an expression without folding and conversion. -/
def lowerRaw (c : Context) : Expr → Except Fault (List Instr)
  | .missing => .error (.bug .nowhere (.unsupportedExpr Expr.missing.typeText))
  | .literal pos text value _ => do
    let value ← literalValue pos text value
    return [immediate (precision.literal value).1]
  | .ident id => do
    let (id, symbol) ← Ident.resolved (some id)
    return [← load c id.pos symbol]
  | .convert pos x dst => do
    let code ← plain c x (lowerRaw c x)
    let more ← convertCode pos x.note.type dst
    return code ++ more
  | .unary _ op x _ => do
    let code ← used c x (lowerRaw c x)
    return code ++ (if op = .sub then [.neg] else [])
  | .binary pos op x y _ => do
    let left ← used c x (lowerRaw c x)
    let right ← used c y (lowerRaw c y)
    let type ← x.typeOf
    match binaryCode? op (type = .base .float) with
    | some code => return left ++ right ++ code
    | none => .error (.bug pos (.unsupportedOperator op type))
  | .index _ array i _ => do
    let (array, symbol) ← Ident.resolved array
    let array ← load c array.pos symbol
    let code ← used c i (lowerRaw c i)
    symbol.type.require
    return array :: code ++ [.ldelem symbol.type.kind]
  | .call pos func args _ => callCode pos func (lowerArgs c args)

/-- The code of arguments, one after the other. -/
def lowerArgs (c : Context) : List Expr → Except Fault (List Instr)
  | [] => .ok []
  | e :: rest => do
    let code ← used c e (lowerRaw c e)
    return code ++ (← lowerArgs c rest)

end

/-- The code of an expression as used. -/
def lowerExpr (c : Context) (e : Expr) : Except Fault (List Instr) := used c e (lowerRaw c e)

/-- The code of an assignment. -/
def lowerAssign (c : Context) (pos : Pos) (target value : Expr) : Except Fault (List Instr) := do
  match target with
  | .ident id =>
    let code ← lowerExpr c value
    let (_, symbol) ← Ident.resolved (some id)
    return code ++ [← store c symbol]
  | .index _ array i _ =>
    let (array, symbol) ← Ident.resolved array
    let array ← load c array.pos symbol
    let index ← lowerExpr c i
    let code ← lowerExpr c value
    symbol.type.require
    return array :: index ++ code ++ [.stelem symbol.type.kind]
  | target => .error (.bug pos (.unassignable target.typeText))

/-- The code of the initial values in a declaration. -/
def lowerVars (c : Context) : List Node → Except Fault (List Instr)
  | [] => .ok []
  | .stmt (.assign pos target value _) :: rest => do
    let code ← lowerAssign c pos target value
    return code ++ (← lowerVars c rest)
  | _ :: rest => lowerVars c rest

/-- The code of the condition of a loop, the inserted one if it has none of its own. -/
def lowerLoopCond (c : Context) (cond inserted : Expr) : Except Fault (List Instr) :=
  if !cond.isMissing then lowerExpr c cond
  else if inserted.isMissing then .error (.crash .absentNode)
  else lowerExpr c inserted

/-- A conditional, from the code of its parts. -/
def ifCode (n : Nat) (cond yes no : List Instr) : List Instr :=
  cond ++ [.brfalse (.ifFalse n)] ++ yes ++ [.br (.ifEnd n), .label (.ifFalse n), .nop] ++ no ++
    [.label (.ifEnd n), .nop]

/-- A loop, from the code of its parts. -/
def loopCode (n : Nat) (body step cond : List Instr) : List Instr :=
  [.br (.loopCtrl n), .label (.loopBody n), .nop] ++ body ++ step ++
    [.label (.loopCtrl n), .nop] ++ cond ++ [.brtrue (.loopBody n)]

mutual

/-- The code of a statement, where `n` is the number of labels given so far. -/
def lowerStmt (c : Context) (n : Nat) : Stmt → Except Fault (Nat × List Instr)
  | .missing => .error (.bug .nowhere (.unsupportedStmt Stmt.missing.typeText))
  | .call pos func args note => do
    let code ← callCode pos func (lowerArgs c args)
    return (n, code ++ (if note.type.any (!·.isVoid) then [.pop] else []))
  | .assign pos target value _ => do
    let code ← lowerAssign c pos target value
    return (n, code)
  | .varDecl _ _ vars => do
    let code ← lowerVars c vars
    return (n, code)
  | .arrayDecl _ _ name size => do
    let (_, symbol) ← Ident.resolved name
    let code ← lowerExpr c size
    symbol.type.require
    return (n, code ++ [.newarr symbol.type.kind, ← store c symbol])
  | .ifElse _ cond yes no => do
    let number := n + 1
    let cond ← lowerExpr c cond
    let (n, yes) ← lowerBlock c number yes
    let (n, no) ← lowerBlock c n no
    return (n, ifCode number cond yes no)
  | .whileLoop _ cond body => do
    let number := n + 1
    let (n, body) ← lowerBlock c number body
    let cond ← lowerExpr c cond
    return (n, loopCode number body [] cond)
  | .forLoop _ init cond inserted step body => do
    let (n, init) ← if init.isMissing then .ok (n, []) else lowerStmt c n init
    let number := n + 1
    let (n, body) ← lowerBlock c number body
    let (n, step) ← if step.isMissing then .ok (n, []) else lowerStmt c n step
    let cond ← lowerLoopCond c cond inserted
    return (n, init ++ loopCode number body step cond)
  | .block b => lowerBlock c n b
  | .funcDecl _ _ _ _ _ _ _ => .ok (n, [])
  | .ret _ value => do
    let code ← if value.isMissing then .ok [] else lowerExpr c value
    return (n, code ++ [.ret])

/-- The code of a block. -/
def lowerBlock (c : Context) (n : Nat) : Block → Except Fault (Nat × List Instr)
  | .missing => .ok (n, [])
  | .of _ stmts => lowerStmts c n stmts

/-- The code of statements, one after the other. -/
def lowerStmts (c : Context) (n : Nat) : List Stmt → Except Fault (Nat × List Instr)
  | [] => .ok (n, [])
  | s :: rest => do
    let (n, code) ← lowerStmt c n s
    let (n, more) ← lowerStmts c n rest
    return (n, code ++ more)

end

end SmallC.Cil
