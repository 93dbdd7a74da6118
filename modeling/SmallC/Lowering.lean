import SmallC.Fault
import SmallC.Fold
import SmallC.Tree.Walk

/-!
# What lowering asks of an analysis

Both targets lower an analysed tree and read the same notes: the type of a value
as used, the symbol of a name, the function behind a call. A note that is not
there is a bug of the compiler, never of the program, and is reported as such.
So is a symbol without a type, once its storage has to be laid out.

Whether to fold is asked here too. A value as used is folded when folding is on
and the expression is made of literals alone; a literal by itself is not, since
loading it is what folding would produce.
-/

namespace SmallC

/-- How to lower a program. -/
structure Options where
  fold : Bool
  /-- The name of the assembly or module. -/
  name : String
deriving DecidableEq, Repr

/-- The name of an assembly or module that is given none. -/
def defaultName : String := "program"

/-- Options, where an empty name stands for the default one. -/
def Options.of (fold : Bool) (name : String) : Options :=
  ⟨fold, if name.isEmpty then defaultName else name⟩

/-- The function being lowered, if any, and how to lower it. -/
structure Context where
  fold : Bool
  function : Option Function
deriving DecidableEq, Repr

namespace Context

/-- Whether a symbol is a parameter of the function being lowered. -/
def isParam (c : Context) (id : Symbol) : Bool := c.function.any (·.owns id)

/-- The value that replaces an expression, if it is folded: what `eval` makes of it. -/
def folded? (c : Context) (eval : Expr → Option Value) (e : Expr) : Option Value :=
  if c.fold && e.isConstant then eval e else none

end Context

/-- The type of an expression as used. -/
def Expr.typeOf (e : Expr) : Except Fault Ty :=
  match e.note.usedType with
  | some type => .ok type
  | none => .error (.bug e.pos (.untyped e.typeText))

/-- The symbol that a name was resolved to. -/
def Ident.resolved : Option Ident → Except Fault (Ident × Symbol)
  | none => .error (.crash .absentNode)
  | some id =>
    match id.symbol with
    | some symbol => .ok (id, symbol)
    | none => .error (.bug id.pos (.unresolved id.name))

/-- Asks for the kind of a type that is about to be laid out. An absent type has none. -/
def Ty.require (t : Ty) : Except Fault Unit :=
  if t.kind?.isSome then .ok () else .error (.crash .absentNode)

/-- Asks for the kinds of types, one after the other. -/
def Ty.requireAll : List Ty → Except Fault Unit
  | [] => .ok ()
  | t :: rest => do
    t.require
    requireAll rest

/-- Asks for the kinds of the result and of the parameters of a function. -/
def Function.requireTypes (f : Function) : Except Fault Unit :=
  Ty.requireAll (f.result :: f.params.map (·.type))

/-- A function that is called: its symbol, result and parameters. -/
structure Callee where
  symbol : Symbol
  result : Ty
  params : List Ty

/-- The function called by a call at `pos`. -/
def Ident.callee (pos : Pos) (func : Option Ident) : Except Fault Callee := do
  let (id, symbol) ← Ident.resolved func
  match symbol.type with
  | .func result params => return ⟨symbol, result, params⟩
  | _ => .error (.bug pos (.uncallable id.name))

/-- The value of a literal at `pos`. -/
def literalValue (pos : Pos) (text : String) : Option Value → Except Fault Value
  | some value => .ok value
  | none => .error (.bug pos (.undecoded text))

/-- What a body of code comes from: a function, or what the program does outside of its
functions. -/
inductive Origin where
  | function (f : Function)
  | initializer
deriving DecidableEq, Repr

/-- Whether the program starts here. -/
def Origin.isEntryPoint : Origin → Bool
  | function f => f.name == "main"
  | initializer => false

/-- What analysis found out about a declared function. -/
def FuncDecl.described (d : FuncDecl) : Except Fault Function :=
  match d.function with
  | some f => .ok f
  | none =>
    match d.name with
    | some name => .error (.bug d.pos (.uncheckedFunction name.name))
    | none => .error (.crash .absentNode)

/-- Whether there is anything to do before the main function starts: a program that stores or does
something outside of its functions needs an initializer. -/
def Analysis.needsInitializer (globals : List Symbol) : Block → Except Fault Bool
  | .missing => if globals.isEmpty then .error (.crash .absentNode) else .ok true
  | .of _ stmts => .ok (!globals.isEmpty || stmts.any (!·.isFuncDecl))

end SmallC
