import SmallC.Check.Stmt
import SmallC.Llvm.Lower
import SmallC.Text.Template

/-!
# LLVM modules

A module has a variable for each global and a definition for each function,
wherever in the program it is declared. What happens outside of the functions is
a definition of its own, which the main function calls first.

What the builtin functions are made of is declared as far as it has been marked
as used, by the time all code is there.
-/

namespace SmallC.Llvm

/-- The definition of a function. -/
structure Definition where
  origin : Origin
  code : List Instr
deriving DecidableEq, Repr

/-- A module. -/
structure Module where
  name : String
  globals : List Symbol
  /-- What has been marked as used, in no order. -/
  used : List Support
  definitions : List Definition
deriving DecidableEq, Repr

open Emit

/-- Gives each parameter a place and stores what was passed there. -/
def lowerParams : List Symbol → Emit Unit
  | [] => return ()
  | id :: rest => do
    instr (.alloca id.name (.ofTy id.type))
    instr (.store ⟨.ofTy id.type, .arg id.name⟩ (.slot id.name))
    lowerParams rest

/-- Gives each local a place and stores a zero there. -/
def lowerLocals : List Symbol → Emit Unit
  | [] => return ()
  | id :: rest => do
    ofExcept id.type.require
    instr (.alloca id.name (.ofTy id.type))
    instr (.store ⟨.ofTy id.type, .zero (.ofTy id.type)⟩ (.slot id.name))
    lowerLocals rest

/-- The code of a function. At its end nothing is returned; a function with a result is taken to
have returned it before. -/
def lowerFunction (fold initialized : Bool) (d : FuncDecl) (f : Function) : Emit Unit := do
  label .entry
  lowerParams f.params
  lowerLocals d.body.declared
  if f.name == "main" && initialized then instr (.call none .void false .initializer [])
  lowerBlock ⟨fold, some f⟩ d.body
  close (if f.result.isVoid then .ret none else .unreachable)

/-- The code of the initializer. -/
def lowerInitializer (fold : Bool) (program : Block) : Emit Unit := do
  label .entry
  lowerBlock ⟨fold, none⟩ program
  close (.ret none)

/-- The definitions of functions, one after the other. Registers and labels are numbered through
the whole module. -/
def lowerFunctions (fold initialized : Bool) (c : Cursor) :
    List FuncDecl → Except Fault (Cursor × List Definition)
  | [] => .ok (c, [])
  | d :: rest => do
    let f ← d.described
    f.requireTypes
    let out ← lowerFunction fold initialized d f c
    let (c, definitions) ← lowerFunctions fold initialized out.cursor rest
    return (c, ⟨.function f, out.code⟩ :: definitions)

/-- Lowers an analysed program. -/
def Module.ofAnalysis (a : Analysis) (opts : Options) : Except Fault Module := do
  let initialized ← Analysis.needsInitializer a.globals a.program
  let decls ← a.program.functions
  let (c, definitions) ← lowerFunctions opts.fold initialized .start decls
  let (c, initializer) ←
    if initialized then do
      let out ← lowerInitializer opts.fold a.program c
      pure (out.cursor, [⟨.initializer, out.code⟩])
    else pure (c, [])
  Ty.requireAll (a.globals.map (·.type))
  return ⟨opts.name, a.globals, c.used, definitions ++ initializer⟩

/-- What is declared for the builtin functions. -/
def Module.support (m : Module) : List Support := Support.all.filter (m.used.contains ·)

/-- The lines at the top of a module. -/
def header : Text.Template :=
  [.words "; ModuleID = '", .field ["Name"], .words "'\nsource_filename = \"", .field ["Name"],
   .words "\""]

/-- The lines at the top of a module with a given name. -/
def headerLines (name : String) : List String :=
  match header.render [("Name", name)] with
  | .ok text => Text.split text
  | .error _ => []

/-- The declaration of a global variable. -/
def globalDecl (id : Symbol) : String :=
  let type := IrType.ofTy id.type
  (Global.user id.name).text ++ " = global " ++ type.text ++ " " ++ type.zeroText

/-- The declarations of a module. -/
def Module.decls (m : Module) : List String :=
  m.support.map Support.decl ++ m.globals.map globalDecl

/-- A parameter in the signature of a function. -/
def paramText (id : Symbol) : String := (Typed.mk (.ofTy id.type) (.arg id.name)).text

/-- The line that a definition starts with. -/
def signature : Origin → String
  | .function f =>
    "define " ++ (IrType.ofTy f.result).text ++ " " ++ (Global.user f.name).text ++ "(" ++
      Text.join ", " (f.params.map paramText) ++ ") \x7b"
  | .initializer => "define internal void " ++ Global.initializer.text ++ "() \x7b"

/-- Adds a definition to a listing. -/
def Definition.list (l : Listing) (d : Definition) : Listing :=
  let l := ((l.directive "").directive (signature d.origin)).indent
  (l.instrs (d.code.map Instr.render)).dedent.directive "\x7d"

/-- The listing of a module. -/
def Module.listing (m : Module) : Listing :=
  let l := Listing.empty.directives (headerLines m.name)
  let l := if m.decls.isEmpty then l else l.directive ""
  let l := l.directives m.decls
  m.definitions.foldl Definition.list l

end SmallC.Llvm
