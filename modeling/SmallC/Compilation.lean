import SmallC.Cil.Assembly
import SmallC.Llvm.Module

/-!
# Compiling a program

A compilation holds a program and the settings it is compiled with. The program
is checked once, and what checking found, be it an analysis or a fault, stays
with the compilation: every listing is made from it.

Settings are read in order, so of two that set the same thing the last one
counts, and the first one that is refused ends the reading.
-/

namespace SmallC

/-- The instruction set that a program is lowered to. -/
inductive Target where
  | cil | llvm
  | unnamed (n : Int)
deriving DecidableEq, Repr

namespace Target

/-- The target with a given number. -/
def ofNumber (n : Int) : Target :=
  match n with
  | 0 => cil
  | 1 => llvm
  | n => unnamed n

/-- The number of a target. -/
def number : Target → Int
  | cil => 0
  | llvm => 1
  | unnamed n => n

/-- The name of a target. -/
def text : Target → String
  | cil => "cil"
  | llvm => "llvm"
  | unnamed n => "Target(" ++ toString n ++ ")"

/-- Whether there is such a target. -/
def isSupported : Target → Bool
  | cil | llvm => true
  | unnamed _ => false

/-- The listing of an analysed program. -/
def lower (t : Target) (a : Analysis) (opts : Options) : Except Fault Listing :=
  match t with
  | llvm => (Llvm.Module.ofAnalysis a opts).map Llvm.Module.listing
  | cil | unnamed _ => (Cil.Assembly.ofAnalysis a opts).map Cil.Assembly.listing

end Target

/-- A setting of a compilation. -/
inductive Setting where
  | target (t : Target)
  | fold (on : Bool)
  | name (name : String)
  /-- Something that is no setting, described by its type. -/
  | unknown (type : String)
deriving DecidableEq, Repr

/-- All that settings decide. -/
structure Config where
  target : Target := .cil
  options : Options := ⟨true, defaultName⟩
deriving DecidableEq, Repr

/-- Why a compilation cannot start or go on. -/
inductive Compilation.Error where
  | noProgram
  | unsupportedTarget (t : Target)
  | emptyName
  | unknownSetting (type : String)
  | alreadyChecked
  | notChecked
  | fault (f : Fault)
deriving Repr

/-- The message of an error. -/
def Compilation.Error.message : Compilation.Error → String
  | noProgram => "no program to compile"
  | unsupportedTarget t => "target " ++ t.text ++ " not supported"
  | emptyName => "empty assembly name"
  | unknownSetting type => "option of type " ++ type ++ " not supported"
  | alreadyChecked => "program already checked"
  | notChecked => "program not checked"
  | fault f => f.message

namespace Config

/-- Changes what a setting decides. -/
def apply (c : Config) : Setting → Except Compilation.Error Config
  | .target t =>
    if t.isSupported then .ok { c with target := t } else .error (.unsupportedTarget t)
  | .fold on => .ok { c with options := { c.options with fold := on } }
  | .name name =>
    if name.isEmpty then .error .emptyName
    else .ok { c with options := { c.options with name } }
  | .unknown type => .error (.unknownSetting type)

/-- Reads settings in order. -/
def ofSettings (settings : List Setting) : Except Compilation.Error Config :=
  settings.foldlM apply {}

end Config

/-- A program being compiled. -/
structure Compilation where
  program : Block
  config : Config
  /-- What checking the program found, once it has been checked. -/
  outcome : Option (Except Fault Analysis)

namespace Compilation

/-- Starts to compile a program. -/
def start (program : Block) (settings : List Setting) : Except Error Compilation :=
  match program with
  | .missing => .error .noProgram
  | .of _ _ => do
    let config ← Config.ofSettings settings
    return ⟨program, config, none⟩

/-- The target that a program is lowered to. -/
def target (c : Compilation) : Target := c.config.target

/-- What checking found out, if the program has been checked and is right. -/
def analysis? (c : Compilation) : Option Analysis :=
  c.outcome.bind Except.toOption

/-- Checks a program that has not been checked yet. -/
def check (c : Compilation) : Compilation × Except Error Analysis :=
  match c.outcome with
  | some _ => (c, .error .alreadyChecked)
  | none =>
    let outcome := Analysis.ofProgram c.program
    ({ c with outcome := some outcome }, outcome.mapError .fault)

/-- The listing of a program that has been checked. -/
def listing (c : Compilation) : Except Error Listing :=
  match c.outcome with
  | none => .error .notChecked
  | some (.error f) => .error (.fault f)
  | some (.ok a) => (c.target.lower a c.config.options).mapError .fault

end Compilation

/-- Checks a program and lowers it. -/
def compile (program : Block) (settings : List Setting) : Except Compilation.Error Listing := do
  let c ← Compilation.start program settings
  let (c, checked) := c.check
  let _ ← checked
  c.listing

end SmallC
