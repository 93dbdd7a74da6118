import SmallC.Fault
import SmallC.Scope

/-!
# The symbol table

Scopes form a tree. Its root holds the builtin functions, each scope right below
the root is the global scope of a program, and all others are blocks. A scope
can be marked as the scope of a function being declared; it and the scopes
inside it then belong to that function.

Slots are given out per function for parameters and locals, and per program for
everything else, never per block. So the function record stands at the scope
that was marked, and the list of static symbols at the global scope, and a
declaration in a block finds them by looking outward.

A declaration is a step that can fail, and there is a table after it in any case.
That it is then the table from before is not a matter of what a step can return.
It is so because everything is checked before the first change.
-/

namespace SmallC

/-- Where a scope stands in the tree. -/
inductive Table.Level where
  | root | global | block
deriving DecidableEq, Repr

/-- What a scope knows besides its names. -/
structure Table.Frame where
  level : Table.Level
  /-- The global scope of the program the scope belongs to. -/
  global : Option Nat
  /-- The function being declared at this very scope. -/
  function : Option Function
  /-- At a global scope, the symbols stored for as long as the program runs, in slot order. -/
  statics : List Symbol
deriving DecidableEq, Repr

/-- A tree of scopes. -/
structure Table where
  names : Scope Symbol
  frames : Array Table.Frame

namespace Table

/-- The root scope with the builtin functions. -/
def initial : Table :=
  ⟨Symbol.builtins.foldl (fun sc id => sc.bind 0 id.name id) .root, #[⟨.root, none, none, []⟩]⟩

/-- The number of the root scope. -/
def rootScope : Nat := 0

/-- Opens a scope inside `s` and gives its number. A scope inside the root starts a program. -/
def child (t : Table) (s : Nat) : Table × Nat :=
  let (names, new) := t.names.child s
  let frame : Frame := match t.frames[s]? with
    | some ⟨.root, _, _, _⟩ => ⟨.global, some new, none, []⟩
    | some outer => ⟨.block, outer.global, none, []⟩
    | none => ⟨.block, none, none, []⟩
  (⟨names, t.frames.push frame⟩, new)

/-- The scope around `s`. -/
def parent? (t : Table) (s : Nat) : Option Nat := (t.names.chain s)[1]?

/-- The global scope of the program that `s` belongs to. -/
def global? (t : Table) (s : Nat) : Option Nat := (t.frames[s]?).bind (·.global)

/-- The static symbols of the program that `s` belongs to, in slot order. -/
def statics (t : Table) (s : Nat) : List Symbol :=
  (((t.global? s).bind (t.frames[·]?)).map (·.statics)).getD []

/-- Marks `s` as the scope of a function being declared. -/
def setFunction (t : Table) (s : Nat) (f : Option Function) : Table :=
  { t with frames := t.frames.modify s fun frame => { frame with function := f } }

/-- The function marked at `s` itself. -/
def functionAt? (t : Table) (s : Nat) : Option Function := (t.frames[s]?).bind (·.function)

/-- The scope, `s` or one around it, of the function that `s` belongs to. -/
def owner? (t : Table) (s : Nat) : Option Nat :=
  (t.names.chain s).find? fun level => (t.functionAt? level).isSome

/-- The function that `s` belongs to. -/
def function? (t : Table) (s : Nat) : Option Function :=
  (t.names.chain s).findSome? t.functionAt?

/-- What a name stands for in `s`. -/
def lookup (t : Table) (s : Nat) (name : String) : Option Symbol := t.names.find? s name

/-- What a name stands for by a declaration in `s` itself. -/
def lookupLocal (t : Table) (s : Nat) (name : String) : Option Symbol :=
  t.names.findLocal? s name

/-- Changes the function that `s` belongs to. -/
def modifyFunction (t : Table) (s : Nat) (change : Function → Function) : Table :=
  match t.owner? s with
  | none => t
  | some level => t.setFunction level ((t.functionAt? level).map change)

/-- Adds a static symbol to the program whose global scope is `g`. -/
def pushStatic (t : Table) (g : Nat) (id : Symbol) : Table :=
  { t with frames := t.frames.modify g fun frame => { frame with statics := frame.statics ++ [id] } }

/-- A name declared twice. The earlier declaration is shown if it has a place. -/
def duplicate (id previous : Symbol) : Fault :=
  .broken .duplicateIdentifier id.pos
    (.redeclared id.name (if previous.pos.isValid then some previous.pos else none))

/-- No declaration may use a reserved word. -/
def checkName (id : Symbol) : Except Fault Unit :=
  if isKeyword id.name then .error (.broken .reservedName id.pos (.reserved id.name)) else .ok ()

/-- Fails if there is an earlier declaration. -/
def checkFree (id : Symbol) : Option Symbol → Except Fault Unit
  | some previous => .error (duplicate id previous)
  | none => .ok ()

/-- An earlier declaration of a name in the program whose global scope is `g`: a builtin, a function,
a global, or a symbol of a block outside of any function. -/
def globalConflict (t : Table) (g : Nat) (name : String) : Option Symbol :=
  (t.lookup g name).or (Symbol.find? name (t.statics g))

/-! ## Declarations -/

/-- A step on a table. It leaves a table behind whether it fails or not. -/
abbrev Change := EStateM Fault Table

namespace Change

/-- What neither reads nor changes the table. -/
def ofExcept {α : Type} : Except Fault α → Change α
  | .ok a => pure a
  | .error f => throw f

/-- Binds a symbol to its name in `s`, where the name must be free. -/
def define (s : Nat) (id : Symbol) : Change Unit := do
  ofExcept (checkFree id ((← get).lookupLocal s id.name))
  modify fun t => { t with names := t.names.bind s id.name id }

/-- Declares a parameter of the function that `s` belongs to. It clashes with the other parameters
only. -/
def addParam (s : Nat) (id : Symbol) : Change Symbol := do
  let some f := (← get).function? s | throw (.bug id.pos (.strayParameter id.name))
  ofExcept (checkName id)
  ofExcept (checkFree id (f.param? id.name))
  let id := { id with storage := .param, slot := f.params.length }
  define s id
  modify (·.modifyFunction s fun f => { f with params := f.params ++ [id] })
  return id

/-- Declares a variable of the function `f` that `s` belongs to. It clashes with every parameter and
local of the function, in whatever block, and hides what is declared outside. -/
def addLocal (s : Nat) (f : Function) (id : Symbol) : Change Symbol := do
  ofExcept (checkFree id (f.find? id.name))
  let id := { id with storage := .automatic, slot := f.locals.length }
  define s id
  modify (·.modifyFunction s fun f => { f with locals := f.locals ++ [id] })
  return id

/-- Declares a variable outside of any function. At the top level it clashes with the names of the
program, in a block also with every name in sight. -/
def addStatic (s g : Nat) (id : Symbol) : Change Symbol := do
  let t ← get
  let inBlock := (t.frames[s]?).any (·.level == .block)
  if inBlock then ofExcept (checkFree id (t.lookup s id.name))
  ofExcept (checkFree id (t.globalConflict g id.name))
  let storage : Storage := if inBlock then .globalLocal else .global
  let id := { id with storage := storage, slot := (t.statics g).length }
  define s id
  modify (·.pushStatic g id)
  return id

/-- Declares a variable or an array in `s`. -/
def addVar (s : Nat) (id : Symbol) : Change Symbol := do
  let t ← get
  let some g := t.global? s | throw (.bug id.pos (.strayVariable id.name))
  ofExcept (checkName id)
  match t.function? s with
  | some f => addLocal s f id
  | none => addStatic s g id

/-- Declares a function. Functions belong to the global scope, wherever they are declared. -/
def addFunc (s : Nat) (id : Symbol) : Change Symbol := do
  let t ← get
  let some g := t.global? s | throw (.bug id.pos (.strayFunction id.name))
  ofExcept (checkName id)
  ofExcept (checkFree id (t.globalConflict g id.name))
  let id := { id with storage := .global, slot := Symbol.noSlot }
  define g id
  return id

/-- What a step comes to if a failure ends everything, so that the table it leaves then does not
matter. -/
def outcome {α : Type} (x : Change α) (t : Table) : Except Fault (Table × α) :=
  match x.run t with
  | .ok a t => .ok (t, a)
  | .error f _ => .error f

end Change

@[inherit_doc Change.define]
def define (t : Table) (s : Nat) (id : Symbol) : Except Fault Table :=
  (·.1) <$> (Change.define s id).outcome t

@[inherit_doc Change.addParam]
def addParam (t : Table) (s : Nat) (id : Symbol) : Except Fault (Table × Symbol) :=
  (Change.addParam s id).outcome t

@[inherit_doc Change.addLocal]
def addLocal (t : Table) (s : Nat) (f : Function) (id : Symbol) : Except Fault (Table × Symbol) :=
  (Change.addLocal s f id).outcome t

@[inherit_doc Change.addStatic]
def addStatic (t : Table) (s g : Nat) (id : Symbol) : Except Fault (Table × Symbol) :=
  (Change.addStatic s g id).outcome t

@[inherit_doc Change.addVar]
def addVar (t : Table) (s : Nat) (id : Symbol) : Except Fault (Table × Symbol) :=
  (Change.addVar s id).outcome t

@[inherit_doc Change.addFunc]
def addFunc (t : Table) (s : Nat) (id : Symbol) : Except Fault (Table × Symbol) :=
  (Change.addFunc s id).outcome t

end Table

end SmallC
