import SmallC.Decimal.Layout
import SmallC.Text.Quoted
import SmallC.Ty.Basic

/-!
# Constants

A constant is a floating-point number or an ordinal: an integer read at some
scalar kind. A `float` is kept as its double-precision bits rather than as a
number, because the bits are what a listing shows, a NaN included, and because
two constants can then be compared for being the same.
-/

namespace SmallC

/-- A constant of a scalar kind. -/
inductive Value where
  | ordinal (kind : Base) (n : Int)
  | real (bits : UInt64)
deriving DecidableEq, Repr, Inhabited

/-- The integer with the same last `bits` bits in two's complement. -/
def wrap (bits : Nat) (n : Int) : Int := Int.bmod n (Nat.pow 2 bits)

namespace Value

/-- An `int` constant. -/
def int (n : Int) : Value := ordinal .int n

/-- A `char` constant. Codes have 32 bits. -/
def char (n : Int) : Value := ordinal .char (wrap 32 n)

/-- A `bool` constant. -/
def bool (b : Bool) : Value := ordinal .bool (if b then 1 else 0)

/-- A `float` constant. -/
def ofFloat (x : Float) : Value := real x.toBits

/-- The kind of a constant. -/
def kind : Value → Base
  | ordinal kind _ => kind
  | real _ => .float

/-- The integer of an ordinal; a `float` has none. -/
def code : Value → Int
  | ordinal _ n => n
  | real _ => 0

/-- Whether a constant counts as true. Both zeros are false. -/
def isTrue : Value → Bool
  | ordinal _ n => n != 0
  | real bits => bits <<< 1 != 0

/-- The text of a `float`: plain for exponents from -4 to 5. -/
def floatText (bits : UInt64) : String :=
  (Decimal.Format.double.decode bits.toNat).text (Decimal.Digits.general (-4) 5)

/-- The text of a constant as it would be written in a program. -/
def text : Value → String
  | real bits => floatText bits
  | ordinal .bool n => if n = 0 then "false" else "true"
  | ordinal .char n => Text.quoteCode (wrap 32 n)
  | ordinal _ n => toString n

end Value

end SmallC
