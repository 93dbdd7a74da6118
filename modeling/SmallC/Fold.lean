import SmallC.Source.Op
import SmallC.Tree

/-!
# Evaluating constant expressions

An expression made of literals alone can be evaluated before the program runs,
with the arithmetic of the machine it will run on: `int` is a 32-bit two's
complement integer, `char` an unsigned integer of as many bits as the target
says, and `float` a number of single or double precision.

Nothing is evaluated whose value at run time the target decides: a division by
zero or one that overflows, a conversion of a `float` that is out of range, and
every result that is not finite.
-/

namespace SmallC

/-- The arithmetic of a target. -/
structure Precision where
  charBits : Nat
  single : Bool
deriving DecidableEq, Repr

namespace Precision

/-- Whether the bits are those of a finite number. -/
def isFinite (bits : UInt64) : Bool := bits >>> 52 &&& 0x7FF != 0x7FF

/-- Rounds a number to the precision of the target. -/
def round (p : Precision) (bits : UInt64) : UInt64 :=
  if p.single then (Float.ofBits bits).toFloat32.toFloat.toBits else bits

/-- The `float` nearest to a number, if it is finite. -/
def float? (p : Precision) (bits : UInt64) : Option Value :=
  let bits := p.round bits
  if isFinite bits then some (.real bits) else none

/-- The code of a character with the bits that the target keeps. -/
def charCode (p : Precision) (n : Int) : Int := n % Int.pow 2 p.charBits

/-- A literal with the precision of the target. The flag says whether the value is finite. -/
def literal (p : Precision) : Value → Value × Bool
  | .real bits => (.real (p.round bits), isFinite (p.round bits))
  | .ordinal .char n => (.char (p.charCode n), true)
  | v => (v, true)

/-- A literal with the precision of the target, if it is finite. -/
def literal? (p : Precision) (v : Value) : Option Value :=
  let (v, finite) := p.literal v
  if finite then some v else none

/-- The whole part of a finite number. -/
def truncate? (bits : UInt64) : Option Int :=
  match Decimal.Format.double.decode bits.toNat with
  | .finite negative m q _ =>
    let size : Int := m * Int.pow 2 q.toNat / Int.pow 2 (-q).toNat
    some (if negative then -size else size)
  | _ => none

/-- A number that fits in 32 bits; a larger one becomes the least of them. -/
def clamp32 (n : Int) : Int := if n < 0x80000000 then n else -0x80000000

/-- Converts a constant to another kind. -/
def convert (p : Precision) (v : Value) (dst : Base) : Option Value :=
  if v.kind = dst then some v
  else match dst, v with
    | .bool, v => some (.bool v.isTrue)
    | .float, .ordinal kind n =>
      p.float? (Float.ofInt (if kind = .int then wrap 32 n else n)).toBits
    | .int, .ordinal _ n => some (.int n)
    | .int, .real bits =>
      (truncate? bits).bind fun n =>
        if -0x80000000 ≤ n ∧ n < 0x80000000 then some (.int n) else none
    | .char, .ordinal _ n => some (.char (p.charCode n))
    | .char, .real bits =>
      (truncate? bits).bind fun n =>
        if 0 ≤ n ∧ n < wrap 64 (Int.pow 2 p.charBits) then some (.char (clamp32 n)) else none
    | _, _ => none

/-- Applies a unary operator: every operator but `+` negates. -/
def unary (p : Precision) (op : Op) (v : Value) : Option Value :=
  if op = .add then some v
  else match v with
    | .real bits => p.float? (bits ^^^ 0x8000000000000000)
    | .ordinal _ n => some (.int (wrap 32 (-wrap 32 n)))

/-- Compares two integers. -/
def compareInt (op : Op) (x y : Int) : Option Bool :=
  match op with
  | .eql => some (x = y)
  | .neq => some (x ≠ y)
  | .lss => some (x < y)
  | .leq => some (x ≤ y)
  | .gtr => some (y < x)
  | .geq => some (y ≤ x)
  | _ => none

/-- Compares two numbers. -/
def compareFloat (op : Op) (x y : Float) : Option Bool :=
  match op with
  | .eql => some (x == y)
  | .neq => some (x != y)
  | .lss => some (x < y)
  | .leq => some (x ≤ y)
  | .gtr => some (y < x)
  | .geq => some (y ≤ x)
  | _ => none

/-- Compares two constants of one kind. -/
def compare (op : Op) : Value → Value → Option Bool
  | .real x, .real y => compareFloat op (.ofBits x) (.ofBits y)
  | x, y => compareInt op x.code y.code

/-- Applies a logical operator. -/
def logical (op : Op) (x y : Bool) : Bool := if op = .land then x && y else x || y

/-- Applies a bitwise operator to 32-bit integers. -/
def bitwise (op : Op) (x y : Int) : Option Int :=
  let x := BitVec.ofInt 32 x
  let y := BitVec.ofInt 32 y
  match op with
  | .and => some (x &&& y).toInt
  | .or => some (x ||| y).toInt
  | .xor => some (x ^^^ y).toInt
  | _ => none

/-- Applies an arithmetic operator to 32-bit integers. -/
def arithInt (op : Op) (x y : Int) : Option Int :=
  match op with
  | .add => some (wrap 32 (x + y))
  | .sub => some (wrap 32 (x - y))
  | .mul => some (wrap 32 (x * y))
  | .div => if y = 0 ∨ (x = -0x80000000 ∧ y = -1) then none else some (x.tdiv y)
  | _ => none

/-- Applies an arithmetic operator to numbers of double precision. -/
def arithDouble (op : Op) (x y : Float) : Option Float :=
  match op with
  | .add => some (x + y)
  | .sub => some (x - y)
  | .mul => some (x * y)
  | .div => some (x / y)
  | _ => none

/-- Applies an arithmetic operator to numbers of single precision. -/
def arithSingle (op : Op) (x y : Float32) : Option Float32 :=
  match op with
  | .add => some (x + y)
  | .sub => some (x - y)
  | .mul => some (x * y)
  | .div => some (x / y)
  | _ => none

/-- Applies an arithmetic operator to two numbers. -/
def arithFloat (p : Precision) (op : Op) (x y : UInt64) : Option Value :=
  let x := Float.ofBits x
  let y := Float.ofBits y
  let result :=
    if p.single then (arithSingle op x.toFloat32 y.toFloat32).map Float32.toFloat
    else arithDouble op x y
  result.bind fun r => p.float? r.toBits

/-- Applies a binary operator to two constants of one kind. -/
def binary (p : Precision) (op : Op) (x y : Value) : Option Value :=
  if x.kind ≠ y.kind then none
  else if op.isComparison then (compare op x y).map .bool
  else if op.isLogical then some (.bool (logical op x.isTrue y.isTrue))
  else if op.isBitwise then (bitwise op x.code y.code).map .int
  else match x, y with
    | .real x, .real y => p.arithFloat op x y
    | x, y => (arithInt op (wrap 32 x.code) (wrap 32 y.code)).map .int

/-- The value of an expression as used, from its value before conversion. -/
def used (p : Precision) (conv : Option Conversion) (v : Option Value) : Option Value :=
  match conv with
  | none => v
  | some c => v.bind (p.convert · c.dst)

/-- The value of an expression before conversion. -/
def eval (p : Precision) : Expr → Option Value
  | .literal _ _ value _ => value.bind p.literal?
  | .convert _ x dst => (p.eval x).bind (p.convert · dst)
  | .unary _ op x _ => (p.used x.note.conv (p.eval x)).bind (p.unary op)
  | .binary _ op x y _ => do
    let x ← p.used x.note.conv (p.eval x)
    let y ← p.used y.note.conv (p.eval y)
    p.binary op x y
  | _ => none

/-- The value of an expression as used. -/
def evalUsed (p : Precision) (e : Expr) : Option Value := p.used e.note.conv (p.eval e)

end Precision

/-- Whether an expression is made of literals alone. -/
def Expr.isConstant : Expr → Bool
  | .literal _ _ _ _ => true
  | .convert _ x _ => x.isConstant
  | .unary _ _ x _ => x.isConstant
  | .binary _ _ x y _ => x.isConstant && y.isConstant
  | _ => false

end SmallC
