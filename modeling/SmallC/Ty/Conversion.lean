import SmallC.Source.Op
import SmallC.Ty.Basic

/-!
# Implicit conversions and the meaning of binary operators

A scalar converts to every other scalar kind without being asked, but the order
in which the targets are tried decides what `1 + 2.5` means: the right operand
is converted before the left one, so the sum is an `int`. The tables below are
the whole of that decision; `Op.resolve` only walks through them.
-/

namespace SmallC

/-- The kinds a scalar converts to, in the order in which they are tried. -/
def Base.conversions : Base → List Base
  | .int => [.float, .bool, .char]
  | .float => [.bool, .int, .char]
  | .bool => [.int, .char, .float]
  | .char => [.int, .bool, .float]
  | .void | .unnamed _ => []

namespace Ty

/-- The kinds a value of a type converts to. Arrays and functions convert to nothing. -/
def conversions : Ty → List Base
  | base b => b.conversions
  | _ => []

/-- Whether a value of type `src` converts to `dst`. A type does not convert to itself. -/
def convertible (src dst : Ty) : Bool :=
  match dst with
  | base b => src.conversions.contains b
  | _ => false

/-- Whether a value of type `src` can be stored in a place of type `dst`. -/
def assignable (src dst : Ty) : Bool := src == dst || src.convertible dst

end Ty

namespace Op

/-- The kind of the result of an operator on operands of exactly these kinds. -/
def result? (op : Op) (x y : Base) : Option Base :=
  match op, x, y with
  | .add, .int, .int | .sub, .int, .int | .mul, .int, .int | .div, .int, .int => some .int
  | .add, .float, .float | .sub, .float, .float | .mul, .float, .float
  | .div, .float, .float => some .float
  | .geq, .int, .int | .leq, .int, .int | .gtr, .int, .int | .lss, .int, .int
  | .geq, .float, .float | .leq, .float, .float | .gtr, .float, .float | .lss, .float, .float
  | .geq, .char, .char | .leq, .char, .char | .gtr, .char, .char | .lss, .char, .char => some .bool
  | .neq, .int, .int | .neq, .float, .float | .neq, .char, .char | .neq, .bool, .bool
  | .eql, .int, .int | .eql, .float, .float | .eql, .char, .char | .eql, .bool, .bool => some .bool
  | .and, .int, .int | .or, .int, .int | .xor, .int, .int => some .int
  | .land, .bool, .bool | .lor, .bool, .bool => some .bool
  | _, _, _ => none

end Op

/-- How a binary operator applies to its operands: the kind each operand is converted to first,
if it has to be, and the kind of the result. -/
structure Resolution where
  x : Option Base
  y : Option Base
  result : Base
deriving DecidableEq, Repr

namespace Op

/-- The first target of the right operand that the operator accepts. -/
def resolveRight (op : Op) (x : Base) (targets : List Base) : Option Resolution :=
  targets.findSome? fun target => (op.result? x target).map fun r => ⟨none, some target, r⟩

/-- The first target of the left operand that the operator accepts. -/
def resolveLeft (op : Op) (y : Base) (targets : List Base) : Option Resolution :=
  targets.findSome? fun target => (op.result? target y).map fun r => ⟨some target, none, r⟩

/-- Finds how an operator applies. The operands as they are come first, then the right operand
converted, then the left one. Two arrays of one element kind can only be tested for being the same
array. -/
def resolve (op : Op) : Ty → Ty → Option Resolution
  | .base x, .base y =>
    ((op.result? x y).map fun r => ⟨none, none, r⟩)
      |>.or (op.resolveRight x y.conversions)
      |>.or (op.resolveLeft y x.conversions)
  | .array x, .array y =>
    if x = y ∧ (op = .eql ∨ op = .neq) then some ⟨none, none, .bool⟩ else none
  | _, _ => none

end Op

end SmallC
