import SmallC.Check.Stmt
import SmallC.Cil.Lower
import SmallC.Text.Template

/-!
# CIL assemblies

An assembly has one class with a field for each global and a method for each
function, wherever in the program it is declared. What happens outside of the
functions is the type initializer of the class, which runs before anything else.
-/

namespace SmallC.Cil

/-- A method. -/
structure Method where
  origin : Origin
  locals : List Symbol
  body : List Instr
deriving DecidableEq, Repr

/-- A class with its fields and methods, in an assembly of its own. -/
structure Assembly where
  name : String
  fields : List Symbol
  methods : List Method
deriving DecidableEq, Repr

/-- Pushes the zero of a type, nothing for `void`. -/
def zeroCode : Ty → List Instr
  | .base .void => []
  | .array _ => [.ldnull]
  | .base .float => [.ldcReal 0]
  | _ => [.ldcZero]

/-- A local has to have a type and to be stored where its slot says. -/
def checkSlots (pos : Pos) (place : Nat) : List Symbol → Except Fault Unit
  | [] => .ok ()
  | id :: rest =>
    if id.slot = place then do
      id.type.require
      checkSlots pos (place + 1) rest
    else .error (.bug pos (.misplacedLocal id.name place id.slot))

/-- The method of a function. At the end of a body that does not end with a return it returns the
zero of its result. -/
def lowerFunction (fold : Bool) (n : Nat) (d : FuncDecl) : Except Fault (Nat × Method) := do
  let f ← d.described
  f.requireTypes
  let locals := d.body.declared
  checkSlots d.pos 0 locals
  let (n, body) ← lowerBlock ⟨fold, some f⟩ n d.body
  let tail := if d.body.returns then [] else zeroCode f.result ++ [.ret]
  return (n, ⟨.function f, locals, body ++ tail⟩)

/-- The methods of functions, one after the other. -/
def lowerFunctions (fold : Bool) (n : Nat) : List FuncDecl → Except Fault (Nat × List Method)
  | [] => .ok (n, [])
  | d :: rest => do
    let (n, method) ← lowerFunction fold n d
    let (n, methods) ← lowerFunctions fold n rest
    return (n, method :: methods)

/-- The type initializer. -/
def lowerInitializer (fold : Bool) (n : Nat) (program : Block) : Except Fault Method := do
  let (_, body) ← lowerBlock ⟨fold, none⟩ n program
  return ⟨.initializer, [], body ++ [.ret]⟩

/-- Lowers an analysed program. -/
def Assembly.ofAnalysis (a : Analysis) (opts : Options) : Except Fault Assembly := do
  Ty.requireAll (a.globals.map (·.type))
  let decls ← a.program.functions
  let (n, methods) ← lowerFunctions opts.fold 0 decls
  if ← Analysis.needsInitializer a.globals a.program then
    let initializer ← lowerInitializer opts.fold n a.program
    return ⟨opts.name, a.globals, methods ++ [initializer]⟩
  else return ⟨opts.name, a.globals, methods⟩

/-- The lines at the top of an assembly. -/
def header : Text.Template :=
  [.words ".assembly extern mscorlib\n\x7b\n\t.publickeytoken = (B7 7A 5C 56 19 34 E0 89)\n\t.ver 4:0:0:0\n\x7d\n.assembly ",
   .field ["Name"],
   .words "\n\x7b\n\t.ver 1:0:0:0\n\x7d\n.module ",
   .field ["Name"],
   .words ".exe\n\n.class private auto ansi ",
   .field ["Class"],
   .words " extends [mscorlib]System.Object\n\x7b"]

/-- The lines at the top of an assembly with a given name. -/
def headerLines (name : String) : List String :=
  match header.render [("Name", name), ("Class", className)] with
  | .ok text => Text.split text
  | .error _ => []

/-- A parameter or a local as it is declared. -/
def declText (id : Symbol) : String := typeName id.type ++ " " ++ id.name

/-- The declaration of the local stored at place `i`. -/
def localText (i : Nat) (id : Symbol) : String := "[" ++ toString i ++ "] " ++ declText id

/-- The line that a method starts with. -/
def signature : Origin → String
  | .function f =>
    ".method private hidebysig static " ++ typeName f.result ++ " " ++ f.name ++ "(" ++
      Text.join ", " (f.params.map declText) ++ ") cil managed"
  | .initializer =>
    ".method private hidebysig specialname rtspecialname static void .cctor() cil managed"

/-- The lines of a method that come before its instructions. -/
def Method.directives (m : Method) : List String :=
  (if m.origin.isEntryPoint then [".entrypoint"] else []) ++ [".maxstack 8"] ++
    (if m.locals.isEmpty then []
     else [".locals init (" ++ Text.join ", " (m.locals.mapIdx localText) ++ ")"])

/-- Adds a method to a listing. -/
def Method.list (l : Listing) (m : Method) : Listing :=
  let l := (l.directive (signature m.origin)).directive "\x7b" |>.indent
  let l := (l.directives m.directives).instrs (m.body.map Instr.render)
  l.dedent.directive "\x7d"

/-- The declaration of a field. -/
def fieldDecl (id : Symbol) : String :=
  ".field private static " ++ typeName id.type ++ " " ++ id.name

/-- The listing of an assembly. -/
def Assembly.listing (a : Assembly) : Listing :=
  let l := (Listing.empty.directives (headerLines a.name)).indent
  let l := l.directives (a.fields.map fieldDecl)
  let l := a.methods.foldl Method.list l
  l.dedent.directive "\x7d"

end SmallC.Cil
