/-!
# Nested namespaces

Levels of names form a tree: each level but the first is opened inside another
one, and a name that is not bound at a level is looked for in the levels around
it, nearest first. Levels are known by their number. Each remembers the numbers
of the levels around it, itself included, so a search is a walk along a list.
-/

namespace SmallC

/-- One level of names. -/
structure Scope.Level (α : Type) where
  /-- This level and those around it, nearest first. -/
  chain : List Nat
  names : List (String × α)

/-- A tree of nested levels, each binding names to values. -/
structure Scope (α : Type) where
  levels : Array (Scope.Level α)

namespace Scope

variable {α : Type}

/-- The name is taken at that level. -/
structure Taken where
  name : String
deriving DecidableEq, Repr

/-- What is said of a name that is taken. -/
def Taken.message (e : Taken) : String := e.name ++ " already defined in this scope"

/-- A single level without names. -/
def root : Scope α := ⟨#[⟨[0], []⟩]⟩

/-- A level and those around it, nearest first. -/
def chain (sc : Scope α) (s : Nat) : List Nat := ((sc.levels[s]?).map (·.chain)).getD []

/-- Opens a level inside `s` and gives its number. -/
def child (sc : Scope α) (s : Nat) : Scope α × Nat :=
  let new := sc.levels.size
  (⟨sc.levels.push ⟨new :: sc.chain s, []⟩⟩, new)

/-- What a name is bound to at a level, not looking further. -/
def findLocal? (sc : Scope α) (s : Nat) (name : String) : Option α :=
  (sc.levels[s]?).bind (·.names.lookup name)

/-- What a name is bound to at a level or at the nearest one around it. -/
def find? (sc : Scope α) (s : Nat) (name : String) : Option α :=
  (sc.chain s).findSome? fun level => sc.findLocal? level name

/-- Binds a name at a level, whether it is taken or not. -/
def bind (sc : Scope α) (s : Nat) (name : String) (value : α) : Scope α :=
  ⟨sc.levels.modify s fun level => { level with names := (name, value) :: level.names }⟩

/-- Binds a name at a level where it is free. -/
def define (sc : Scope α) (s : Nat) (name : String) (value : α) : Except Taken (Scope α) :=
  match sc.findLocal? s name with
  | some _ => .error ⟨name⟩
  | none => .ok (sc.bind s name value)

end Scope

end SmallC
