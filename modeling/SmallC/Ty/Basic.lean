import SmallC.Text.Lines

/-!
# Types

A type is a scalar kind, an array of a scalar kind, or a function. The length of
an array belongs to its value, so `Ty.array` has only an element kind. Where a
symbol or the result of a function was never given a type, `Ty.absent` stands in
its place; analysis gives a type to everything it declares.

Scalar kinds are numbered, and like operators they may come from outside as a
number without a name; `Base.unnamed` keeps it.
-/

namespace SmallC

/-- A scalar kind. -/
inductive Base where
  | void | int | char | float | bool
  | unnamed (n : Int)
deriving DecidableEq, Repr, Inhabited

namespace Base

/-- The kinds with a name, in the order of their numbers. -/
def all : List Base := [void, int, char, float, bool]

/-- The kind with a given number. -/
def ofNumber (n : Int) : Base :=
  if n < 0 then unnamed n else (all[n.toNat]?).getD (unnamed n)

/-- How a kind is written. -/
def text : Base → String
  | void => "void" | int => "int" | char => "char" | float => "float" | bool => "bool"
  | unnamed n => "Base(" ++ toString n ++ ")"

/-- The kind written `s` in a program, if there is one. -/
def ofText? (s : String) : Option Base := all.find? (·.text == s)

end Base

/-- The type of a value, a variable or a function. -/
inductive Ty where
  | base (b : Base)
  | array (elem : Base)
  | func (result : Ty) (params : List Ty)
  /-- The type of what was given none. -/
  | absent
deriving Repr, Inhabited

namespace Ty

/-- The scalar kind a type is built over: of a function, the kind of its result. An absent type is
built over nothing. -/
def kind? : Ty → Option Base
  | base b => some b
  | array elem => some elem
  | func result _ => result.kind?
  | absent => none

/-- The scalar kind a type is built over, `void` if it is built over nothing. -/
def kind (t : Ty) : Base := t.kind?.getD .void

mutual

/-- The text of a type as messages show it: `int`, `int[]`, `int[](int[], int)`. -/
def text : Ty → String
  | base b => b.text
  | array elem => elem.text ++ "[]"
  | func result params => result.text ++ "(" ++ Text.join ", " (texts params) ++ ")"
  | absent => "%!s(<nil>)"

/-- The texts of a list of types. -/
def texts : List Ty → List String
  | [] => []
  | t :: rest => t.text :: texts rest

end

mutual

/-- Whether two types are the same, component by component. -/
def equal : Ty → Ty → Bool
  | base b, base c => b == c
  | array b, array c => b == c
  | func r ps, func s qs => r.equal s && equals ps qs
  | absent, absent => true
  | _, _ => false

/-- Whether two lists of types have the same length and agree position by position. -/
def equals : List Ty → List Ty → Bool
  | [], [] => true
  | t :: ts, u :: us => t.equal u && equals ts us
  | _, _ => false

end

mutual

/-- Comparing types component by component decides equality. -/
theorem equal_iff : ∀ t u : Ty, t.equal u = true ↔ t = u
  | base b, base c => by simp [equal]
  | array b, array c => by simp [equal]
  | func r ps, func s qs => by simp [equal, equal_iff r s, equals_iff ps qs]
  | absent, absent => by simp [equal]
  | base _, array _ | base _, func _ _ | base _, absent => by simp [equal]
  | array _, base _ | array _, func _ _ | array _, absent => by simp [equal]
  | func _ _, base _ | func _ _, array _ | func _ _, absent => by simp [equal]
  | absent, base _ | absent, array _ | absent, func _ _ => by simp [equal]

/-- Comparing lists of types position by position decides equality. -/
theorem equals_iff : ∀ ts us : List Ty, equals ts us = true ↔ ts = us
  | [], [] => by simp [equals]
  | t :: ts, u :: us => by simp [equals, equal_iff t u, equals_iff ts us]
  | [], _ :: _ => by simp [equals]
  | _ :: _, [] => by simp [equals]

end

instance : DecidableEq Ty := fun t u =>
  decidable_of_iff (t.equal u = true) (equal_iff t u)

/-- A scalar, that is neither an array nor a function. -/
def isSimple : Ty → Bool
  | base _ => true
  | _ => false

/-- An array. -/
def isArray : Ty → Bool
  | array _ => true
  | _ => false

/-- A function. -/
def isFunc : Ty → Bool
  | func _ _ => true
  | _ => false

/-- The result of a function that returns nothing. -/
def isVoid : Ty → Bool
  | base .void | absent => true
  | _ => false

end Ty

end SmallC
