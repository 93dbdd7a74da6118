import SmallC.Decimal.Nearest

/-!
# Logarithms in double precision

A number of double precision stands for a rational number, and an operation on
two of them yields the number nearest to the exact result. That says all about
the operations, so a function that is made of them is computed here, and reasoned
about, without any machine.

The logarithm is such a function. A number is `f * 2 ^ k` with `f` between the
square roots of a half and of two, and the logarithm of `f` is that of
`(1 + s) / (1 - s)`, of which a polynomial in `s * s` gives all but the first term.
Logarithms to other bases are multiples of this one.
-/

namespace SmallC.Decimal

/-- A number of double precision. There are no infinities, because nothing that is computed comes
near the end of the range. -/
structure Double where
  value : Rat
deriving DecidableEq, Repr

namespace Double

/-- The number nearest to a rational one, and of two equally near ones the one with the even last
bit. -/
def nearest (x : Rat) : Double :=
  let e := unitExponent x.num.natAbs x.den
  let units := x.num.sign * roundTo x.num.natAbs x.den e
  ⟨mkRat (units * Nat.pow 2 e.toNat) (Nat.pow 2 (-e).toNat)⟩

instance : Add Double := ⟨fun x y => nearest (x.value + y.value)⟩
instance : Sub Double := ⟨fun x y => nearest (x.value - y.value)⟩
instance : Mul Double := ⟨fun x y => nearest (x.value * y.value)⟩
instance : Div Double := ⟨fun x y => nearest (x.value / y.value)⟩

/-- An integer as a number of double precision. -/
def ofInt (n : Int) : Double := nearest n

/-- The number `m / 2 ^ k`, where `m` has 53 bits at most. -/
def ofUnits (m k : Nat) : Double := ⟨mkRat m (Nat.pow 2 k)⟩

/-- The whole part of a number. -/
def truncate (x : Double) : Int := x.value.num.tdiv x.value.den

/-- A positive number as a fraction, from a half up to but not including one, and a power of two. -/
def parts (x : Double) : Double × Int :=
  let e := unitExponent x.value.num.natAbs x.value.den + 53
  (⟨x.value * mkRat (Nat.pow 2 (-e).toNat) (Nat.pow 2 e.toNat)⟩, e)

/-- A half. -/
def half : Double := ofUnits 1 1

/-- The square root of a half. -/
def sqrtHalf : Double := ofUnits 0x16A09E667F3BCD 53

/-- The leading bits of the natural logarithm of two, few enough for its multiples to be exact. -/
def ln2Hi : Double := ofUnits 0x162E42FEE00000 53

/-- What `ln2Hi` lacks. -/
def ln2Lo : Double := ofUnits 0x1A39EF35793C76 85

/-- The coefficients of the polynomial, close to `2 / 3`, `2 / 5` and so on. -/
def l1 : Double := ofUnits 0x15555555555593 53
@[inherit_doc l1] def l2 : Double := ofUnits 0x1999999997FA04 54
@[inherit_doc l1] def l3 : Double := ofUnits 0x12492494229359 54
@[inherit_doc l1] def l4 : Double := ofUnits 0x1C71C51D8E78AF 55
@[inherit_doc l1] def l5 : Double := ofUnits 0x17466496CB03DE 55
@[inherit_doc l1] def l6 : Double := ofUnits 0x139A09D078C69F 55
@[inherit_doc l1] def l7 : Double := ofUnits 0x12F112DF3E5244 55

/-- One over the natural logarithm of two. -/
def log2E : Double := ofUnits 0x171547652B82FE 52

/-- The decimal logarithm of two. -/
def log10Two : Double := ofUnits 0x134413509F79FF 54

/-- The logarithm of `(1 + s) / (1 - s)` divided by `s`, less two, where `s2` is the square of `s`.
The even and the odd powers are summed apart. -/
def tail (s2 : Double) : Double :=
  let s4 := s2 * s2
  let odd := s2 * (l1 + s4 * (l3 + s4 * (l5 + s4 * l7)))
  let even := s4 * (l2 + s4 * (l4 + s4 * l6))
  odd + even

/-- The natural logarithm of `x * 2 ^ k`, for `x` close to one. -/
def lnScaled (x : Double) (k : Int) : Double :=
  let f := x - ofInt 1
  let k := ofInt k
  let s := f / (ofInt 2 + f)
  let square := half * f * f
  k * ln2Hi - ((square - (s * (square + tail (s * s)) + k * ln2Lo)) - f)

/-- The natural logarithm of a positive number. -/
def ln (x : Double) : Double :=
  let (f, k) := x.parts
  if f.value < sqrtHalf.value then lnScaled (f * ofInt 2) (k - 1) else lnScaled f k

/-- The logarithm to the base two of a positive number. That of a power of two is exact. -/
def log2 (x : Double) : Double :=
  let (f, k) := x.parts
  if f = half then ofInt (k - 1) else ln f * log2E + ofInt k

/-- The decimal logarithm of a positive number. -/
def log10 (x : Double) : Double := x.log2 * log10Two

end Double

end SmallC.Decimal
