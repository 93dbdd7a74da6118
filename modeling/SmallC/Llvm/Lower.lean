import SmallC.Llvm.Emit
import SmallC.Lowering

/-!
# Lowering to LLVM

The code of an expression yields the operand that holds its value, as used. An
operand is a constant or a register that was defined since the last label: no
expression opens a block of its own, except where it follows an instruction that
has left the block.

A loop tests its condition at the bottom, after its body and its step, and is
entered by a branch to the test.
-/

namespace SmallC.Llvm

/-- The arithmetic of the machine: a character is an unsigned byte and a `float` a number of double
precision. -/
def precision : Precision := ⟨8, false⟩

/-- A constant as an operand. A character is written as a signed byte. -/
def immediate : Value → Operand
  | .real bits => .float bits
  | .ordinal .bool n => .bool (n ≠ 0)
  | .ordinal .char n => .int (wrap 8 n)
  | .ordinal _ n => .int (wrap 32 n)

/-- The instruction of an operator on operands of a scalar kind. Characters are unsigned. Numbers
are compared in order, so that a comparison with what is not a number is false, except that such a
thing is unequal to everything. -/
def scalarOp? (op : Op) (kind : Base) : Option BinOp :=
  match kind, op with
  | .int, .add => some .add
  | .int, .sub => some .sub
  | .int, .mul => some .mul
  | .int, .div => some .sdiv
  | .int, .eql => some (.icmp .eq)
  | .int, .neq => some (.icmp .ne)
  | .int, .lss => some (.icmp .slt)
  | .int, .leq => some (.icmp .sle)
  | .int, .gtr => some (.icmp .sgt)
  | .int, .geq => some (.icmp .sge)
  | .int, .and => some .and
  | .int, .or => some .or
  | .int, .xor => some .xor
  | .char, .eql => some (.icmp .eq)
  | .char, .neq => some (.icmp .ne)
  | .char, .lss => some (.icmp .ult)
  | .char, .leq => some (.icmp .ule)
  | .char, .gtr => some (.icmp .ugt)
  | .char, .geq => some (.icmp .uge)
  | .float, .add => some .fadd
  | .float, .sub => some .fsub
  | .float, .mul => some .fmul
  | .float, .div => some .fdiv
  | .float, .eql => some (.fcmp .oeq)
  | .float, .neq => some (.fcmp .une)
  | .float, .lss => some (.fcmp .olt)
  | .float, .leq => some (.fcmp .ole)
  | .float, .gtr => some (.fcmp .ogt)
  | .float, .geq => some (.fcmp .oge)
  | .bool, .eql => some (.icmp .eq)
  | .bool, .neq => some (.icmp .ne)
  | .bool, .land => some .and
  | .bool, .lor => some .or
  | .void, .eql => some (.icmp .eq)
  | .void, .neq => some (.icmp .ne)
  | _, _ => none

/-- The instruction of an operator on operands of a type. Arrays are compared as pointers. -/
def binaryOp? (op : Op) : Ty → Option BinOp
  | .array _ => scalarOp? op .void
  | t => scalarOp? op t.kind

/-- The cast of a conversion that is not to `bool`. -/
def cast? (src dst : Base) : Option Cast :=
  match src, dst with
  | .int, .float => some .sitofp
  | .char, .float | .bool, .float => some .uitofp
  | .float, .int => some .fptosi
  | .float, .char => some .fptoui
  | .int, .char => some .trunc
  | .char, .int | .bool, .int | .bool, .char => some .zext
  | _, _ => none

open Emit

/-- The address of a symbol that is mentioned at `pos`. -/
def address (c : Context) (pos : Pos) (id : Symbol) : Except Fault Operand :=
  if c.isParam id || id.storage == .automatic then .ok (.slot id.name)
  else if id.isStatic then .ok (.global (.user id.name))
  else .error (.bug pos (.unaddressable id))

/-- Loads what a symbol stands for. -/
def load (c : Context) (pos : Pos) (id : Symbol) : Emit Operand := do
  ofExcept id.type.require
  let addr ← ofExcept (address c pos id)
  define id.name (.load · (.ofTy id.type) addr)

/-- Stores a value in a symbol. -/
def store (c : Context) (pos : Pos) (id : Symbol) (value : Operand) : Emit Unit := do
  ofExcept id.type.require
  let addr ← ofExcept (address c pos id)
  instr (.store ⟨.ofTy id.type, value⟩ addr)

/-- Converts an operand of a scalar kind at `pos`. A conversion to `bool` is a comparison with
zero. -/
def convertBase (pos : Pos) (src dst : Base) (x : Operand) : Emit Operand :=
  if src = dst then return x
  else if dst = .bool then
    if src = .float then define "bool" (.binary · (.fcmp .une) ⟨.double, x⟩ (.zero .double))
    else define "bool" (.binary · (.icmp .ne) ⟨.ofBase src, x⟩ (.int 0))
  else match cast? src dst with
    | some op => define "conv" (.cast · op ⟨.ofBase src, x⟩ (.ofBase dst))
    | none => fail (.bug pos (.unsupportedConversion (some (.base src)) dst))

/-- Converts an operand of type `src` at `pos`. -/
def convert (pos : Pos) (src : Option Ty) (dst : Base) (x : Operand) : Emit Operand :=
  match src with
  | some (.base src) => convertBase pos src dst x
  | src => fail (.bug pos (.unsupportedConversion src dst))

/-- Calls a function of the C library that takes any number of arguments. -/
def callVariadic (f : Global) (args : List Typed) : Emit Unit :=
  instr (.call none .i32 true f args)

/-- Prints an operand. -/
def print (format : Support) (x : Typed) : Emit Unit := do
  let printf ← use .printf
  let format ← use format
  callVariadic printf [.ptr (.global format), x]

/-- Reads a value into a place and loads it from there. -/
def scan (format place : Support) (type : IrType) : Emit Operand := do
  let scanf ← use .scanf
  let place ← use place
  let format ← use format
  callVariadic scanf [.ptr (.global format), .ptr (.global place)]
  define "read" (.load · type (.global place))

/-- Allocates zeroed memory. -/
def allocate (root : String) (count : Operand) (size : Nat) : Emit Operand := do
  let calloc ← use .calloc
  define root fun r => .call (some r) .ptr false calloc [⟨.i64, count⟩, ⟨.i64, .int size⟩]

/-- The first of several arguments. -/
def firstArg (args : List Operand) : Emit Operand :=
  match args with
  | x :: _ => return x
  | [] => fail (.crash (.noArgument 0 0))

/-- The code of a builtin function once its arguments are known. -/
def builtin? (name : String) (args : List Operand) : Option (Emit Operand) :=
  match name with
  | "print_int" => some do
    let x ← firstArg args
    print .fmtInt ⟨.i32, x⟩
    return .nothing
  | "print_float" => some do
    let x ← firstArg args
    print .fmtFloat ⟨.double, x⟩
    return .nothing
  | "print_char" => some do
    let x ← firstArg args
    let c ← define "char" (.cast · .zext ⟨.i8, x⟩ .i32)
    print .fmtChar ⟨.i32, c⟩
    return .nothing
  | "print_bool" => some do
    let x ← firstArg args
    let yes ← use .strTrue
    let no ← use .strFalse
    let s ← define "bool" (.select · x (.global yes) (.global no))
    print .fmtStr (.ptr s)
    return .nothing
  | "print_string" => some do
    let x ← firstArg args
    print .fmtStr (.ptr x)
    return .nothing
  | "read_int" => some (scan .scanInt .readInt .i32)
  | "read_float" => some (scan .scanFloat .readFloat .double)
  | "read_char" => some (scan .scanChar .readChar .i8)
  | "read_bool" => some do
    let x ← scan .scanInt .readInt .i32
    define "bool" (.binary · (.icmp .ne) ⟨.i32, x⟩ (.int 0))
  | "read_string" => some do
    let buffer ← allocate "buf" (.int readBufferSize) 1
    let scanf ← use .scanf
    let format ← use .scanStr
    callVariadic scanf [.ptr (.global format), .ptr buffer]
    return buffer
  | _ => none

/-- Arguments with the types of the parameters, where `place` counts those before them. -/
def typedArgs (place : Nat) : List Ty → List Operand → Except Fault (List Typed)
  | _, [] => .ok []
  | [], _ :: _ => .error (.crash (.noArgument place place))
  | t :: types, x :: args => do
    t.require
    let rest ← typedArgs (place + 1) types args
    return ⟨.ofTy t, x⟩ :: rest

/-- The code of an expression before conversion: `raw`, unless the expression is folded. -/
def plain (c : Context) (e : Expr) (raw : Emit Operand) : Emit Operand :=
  if e.isLiteral then raw
  else match c.folded? precision.eval e with
    | some value => return immediate value
    | none => raw

/-- The code of an expression as used, where `raw` is its code without folding and conversion. -/
def used (c : Context) (e : Expr) (raw : Emit Operand) : Emit Operand :=
  match e.note.conv with
  | none => plain c e raw
  | some conv =>
    match c.folded? precision.evalUsed e with
    | some value => return immediate value
    | none => do
      let x ← plain c e raw
      convert e.pos e.note.type conv.dst x

/-- The code of a call at `pos`, where `args` is the code of its arguments. -/
def lowerCall (pos : Pos) (func : Option Ident) (args : Emit (List Operand)) : Emit Operand := do
  let callee ← ofExcept (Ident.callee pos func)
  let args ← args
  if callee.symbol.builtin then
    match builtin? callee.symbol.name args with
    | some code => code
    | none => fail (.bug pos (.unsupportedBuiltin callee.symbol.name))
  else
    let args ← ofExcept (typedArgs 0 callee.params args)
    ofExcept callee.result.require
    let call := fun dest =>
      Instr.call dest (.ofTy callee.result) false (.user callee.symbol.name) args
    if callee.result.isVoid then
      instr (call none)
      return .nothing
    else define "call" fun r => call (some r)

/-- The address of an element of an array, where `index` is the code of its index. -/
def lowerElement (c : Context) (array : Option Ident) (index : Emit Operand) :
    Emit (Symbol × Operand) := do
  let (array, symbol) ← ofExcept (Ident.resolved array)
  let base ← load c array.pos symbol
  let i ← index
  let addr ← define "idx" (.element · (.ofBase symbol.type.kind) base i)
  return (symbol, addr)

mutual

/-- The code of an expression without folding and conversion. -/
def lowerRaw (c : Context) : Expr → Emit Operand
  | .missing => fail (.bug .nowhere (.unsupportedExpr Expr.missing.typeText))
  | .literal pos text value _ => do
    let value ← ofExcept (literalValue pos text value)
    return immediate (precision.literal value).1
  | .ident id => do
    let (id, symbol) ← ofExcept (Ident.resolved (some id))
    load c id.pos symbol
  | .convert pos x dst => do
    let operand ← plain c x (lowerRaw c x)
    convert pos x.note.type dst operand
  | .unary _ op x _ => do
    let operand ← used c x (lowerRaw c x)
    if op ≠ .sub then return operand
    else
      let type ← ofExcept x.typeOf
      if type = .base .float then define "neg" (.fneg · operand)
      else define "neg" (.binary · .sub ⟨.i32, .int 0⟩ operand)
  | .binary pos op x y _ => do
    let left ← used c x (lowerRaw c x)
    let right ← used c y (lowerRaw c y)
    let type ← ofExcept x.typeOf
    match binaryOp? op type with
    | some op => define op.mnemonic (.binary · op ⟨.ofTy type, left⟩ right)
    | none => fail (.bug pos (.unsupportedOperator op type))
  | .index _ array i _ => do
    let (symbol, addr) ← lowerElement c array (used c i (lowerRaw c i))
    define symbol.name (.load · (.ofBase symbol.type.kind) addr)
  | .call pos func args _ => lowerCall pos func (lowerArgs c args)

/-- The code of arguments, one after the other. -/
def lowerArgs (c : Context) : List Expr → Emit (List Operand)
  | [] => return []
  | e :: rest => do
    let x ← used c e (lowerRaw c e)
    let xs ← lowerArgs c rest
    return x :: xs

end

/-- The code of an expression as used. -/
def lowerExpr (c : Context) (e : Expr) : Emit Operand := used c e (lowerRaw c e)

/-- The code of an assignment. -/
def lowerAssign (c : Context) (pos : Pos) (target value : Expr) : Emit Unit := do
  match target with
  | .ident id =>
    let x ← lowerExpr c value
    let (id, symbol) ← ofExcept (Ident.resolved (some id))
    store c id.pos symbol x
  | .index _ array i _ =>
    let (symbol, addr) ← lowerElement c array (lowerExpr c i)
    let x ← lowerExpr c value
    instr (.store ⟨.ofBase symbol.type.kind, x⟩ addr)
  | target => fail (.bug pos (.unassignable target.typeText))

/-- The code of the initial values in a declaration. -/
def lowerVars (c : Context) : List Node → Emit Unit
  | [] => return ()
  | .stmt (.assign pos target value _) :: rest => do
    lowerAssign c pos target value
    lowerVars c rest
  | _ :: rest => lowerVars c rest

/-- The code that allocates the elements of an array. An array of characters has one more, so that
it can be printed as a string. -/
def lowerArray (c : Context) (name : Option Ident) (size : Expr) : Emit Unit := do
  let (id, symbol) ← ofExcept (Ident.resolved name)
  ofExcept symbol.type.require
  let elem := symbol.type.kind
  let size ← lowerExpr c size
  let count ← define "size" (.cast · .sext ⟨.i32, size⟩ .i64)
  let count ←
    if elem = .char then define "size" (.binary · .add ⟨.i64, count⟩ (.int 1)) else pure count
  let array ← allocate id.name count (elementSize elem)
  store c id.pos symbol array

/-- The code of the condition of a loop, the inserted one if it has none of its own. -/
def lowerLoopCond (c : Context) (cond inserted : Expr) : Emit Operand :=
  if !cond.isMissing then lowerExpr c cond
  else if inserted.isMissing then fail (.crash .absentNode)
  else lowerExpr c inserted

/-- A conditional, from the code of its parts. -/
def lowerIf (cond : Emit Operand) (yes no : Emit Unit) : Emit Unit := do
  let n ← nextControl
  let x ← cond
  instr (.condBr x (.ifThen n) (.ifElse n))
  label (.ifThen n)
  yes
  jump (.ifEnd n)
  label (.ifElse n)
  no
  jump (.ifEnd n)
  label (.ifEnd n)

/-- A loop, from the code of its parts. -/
def lowerLoop (body step : Emit Unit) (cond : Emit Operand) : Emit Unit := do
  let n ← nextControl
  jump (.loopCond n)
  label (.loopBody n)
  body
  step
  jump (.loopCond n)
  label (.loopCond n)
  let x ← cond
  instr (.condBr x (.loopBody n) (.loopEnd n))
  label (.loopEnd n)

mutual

/-- The code of a statement. -/
def lowerStmt (c : Context) : Stmt → Emit Unit
  | .missing => fail (.bug .nowhere (.unsupportedStmt Stmt.missing.typeText))
  | .call pos func args _ => do
    let _ ← lowerCall pos func (lowerArgs c args)
  | .assign pos target value _ => lowerAssign c pos target value
  | .varDecl _ _ vars => lowerVars c vars
  | .arrayDecl _ _ name size => lowerArray c name size
  | .ifElse _ cond yes no => lowerIf (lowerExpr c cond) (lowerBlock c yes) (lowerBlock c no)
  | .whileLoop _ cond body => lowerLoop (lowerBlock c body) (return ()) (lowerExpr c cond)
  | .forLoop _ init cond inserted step body => do
    if !init.isMissing then lowerStmt c init
    lowerLoop (lowerBlock c body) (if step.isMissing then return () else lowerStmt c step)
      (lowerLoopCond c cond inserted)
  | .block b => lowerBlock c b
  | .funcDecl _ _ _ _ _ _ _ => return ()
  | .ret _ value =>
    if value.isMissing then instr (.ret none)
    else do
      let x ← lowerExpr c value
      let type ← ofExcept value.typeOf
      instr (.ret (some ⟨.ofTy type, x⟩))

/-- The code of a block. -/
def lowerBlock (c : Context) : Block → Emit Unit
  | .missing => return ()
  | .of _ stmts => lowerStmts c stmts

/-- The code of statements, one after the other. -/
def lowerStmts (c : Context) : List Stmt → Emit Unit
  | [] => return ()
  | s :: rest => do
    lowerStmt c s
    lowerStmts c rest

end

end SmallC.Llvm
