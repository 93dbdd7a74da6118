import SmallC.Source.Pos
import SmallC.Ty.Basic

/-!
# Declared names

A symbol describes what a name stands for: its type, the class of storage it
lives in, and its slot there. Slots are counted per function for parameters and
for locals, and per program for everything that lives as long as the program
does; a function has no storage and hence no slot.
-/

namespace SmallC

/-- The class of storage of a symbol. -/
inductive Storage where
  /-- Declared at the top level. Functions, the builtin ones included, are global. -/
  | global
  /-- Declared in a block at the top level, outside of any function; stored like a global. -/
  | globalLocal
  /-- A parameter of a function. -/
  | param
  /-- Declared in the body of a function. -/
  | automatic
  | unnamed (n : Int)
deriving DecidableEq, Repr, Inhabited

namespace Storage

/-- The class with a given number. -/
def ofNumber (n : Int) : Storage :=
  match n with
  | 0 => global
  | 1 => globalLocal
  | 2 => param
  | 3 => automatic
  | n => unnamed n

/-- How a class is named in messages. -/
def text : Storage → String
  | global => "global"
  | globalLocal => "global-local"
  | param => "param"
  | automatic => "local"
  | unnamed n => "Kind(" ++ toString n ++ ")"

end Storage

/-- What a declared name stands for. -/
structure Symbol where
  name : String
  type : Ty
  storage : Storage
  slot : Int
  builtin : Bool
  /-- The place of the size expression of a declared array. -/
  size : Option Pos
  /-- The place of the declaration; a builtin has none. -/
  decl : Option Pos
deriving DecidableEq, Repr, Inhabited

namespace Symbol

/-- The slot of a symbol without storage. -/
def noSlot : Int := -1

/-- A symbol that has not been given storage yet. -/
def fresh (name : String) (type : Ty) (decl : Option Pos) : Symbol :=
  ⟨name, type, .global, 0, false, none, decl⟩

/-- The symbol of a builtin function. -/
def ofBuiltin (name : String) (result : Ty) (params : List Ty) : Symbol :=
  ⟨name, .func result params, .global, noSlot, true, none, none⟩

/-- Whether a symbol names a function. -/
def isFunc (id : Symbol) : Bool := id.type.isFunc

/-- Whether a symbol names an array. -/
def isArray (id : Symbol) : Bool := id.type.isArray

/-- Whether a symbol is stored for as long as the program runs. -/
def isStatic (id : Symbol) : Bool :=
  !id.isFunc && (id.storage == .global || id.storage == .globalLocal)

/-- The place of the declaration, or nowhere. -/
def pos (id : Symbol) : Pos := id.decl.getD .nowhere

/-- The name, the type and the storage of a symbol: `x: int (local 0)`. -/
def text (id : Symbol) : String :=
  let slot := if id.isFunc then "" else " " ++ toString id.slot
  id.name ++ ": " ++ id.type.text ++ " (" ++ id.storage.text ++ slot ++ ")"

/-- The first symbol of a list with a given name. -/
def find? (name : String) (ids : List Symbol) : Option Symbol := ids.find? (·.name == name)

/-- The type of a string, which is an array of characters. -/
def string : Ty := .array .char

/-- The functions known to every program. -/
def builtins : List Symbol :=
  let void : Ty := .base .void
  [ofBuiltin "print_int" void [.base .int],
   ofBuiltin "print_float" void [.base .float],
   ofBuiltin "print_char" void [.base .char],
   ofBuiltin "print_bool" void [.base .bool],
   ofBuiltin "print_string" void [string],
   ofBuiltin "read_int" (.base .int) [],
   ofBuiltin "read_float" (.base .float) [],
   ofBuiltin "read_char" (.base .char) [],
   ofBuiltin "read_bool" (.base .bool) [],
   ofBuiltin "read_string" string []]

end Symbol

/-- A function with the storage it needs. Locals are listed in slot order, whatever block declares
them. -/
structure Function where
  name : String
  result : Ty
  /-- The symbol of the function, once its parameters are known. -/
  symbol : Option Symbol
  params : List Symbol
  locals : List Symbol
deriving DecidableEq, Repr, Inhabited

namespace Function

/-- A function whose parameters are still to come. -/
def new (name : String) (result : Ty) : Function := ⟨name, result, none, [], []⟩

/-- The parameter with a given name. -/
def param? (f : Function) (name : String) : Option Symbol := Symbol.find? name f.params

/-- The parameter or local with a given name. -/
def find? (f : Function) (name : String) : Option Symbol :=
  (f.param? name).or (Symbol.find? name f.locals)

/-- The type of a function, from its parameters and its result. -/
def type (f : Function) : Ty := .func f.result (f.params.map (·.type))

/-- Whether a symbol is one of the parameters of a function. -/
def owns (f : Function) (id : Symbol) : Bool :=
  id.storage == .param && f.param? id.name == some id

end Function

end SmallC
