/-!
# The nearest binary number of a decimal

Reading a decimal means finding the double nearest to it, and of two equally
near ones the one with the even last bit. The decimal is a quotient of natural
numbers, so the quotient and the remainder of one division decide.
-/

namespace SmallC.Decimal

/-- The quotient rounded to the nearest natural number, a half to the even one. -/
def roundDiv (num den : Nat) : Nat :=
  let quotient := num / den
  let twice := 2 * (num % den)
  if twice < den then quotient
  else if den < twice then quotient + 1
  else quotient + quotient % 2

/-- Rounds `num / den` to a whole number of units `2 ^ e`. -/
def roundTo (num den : Nat) (e : Int) : Nat :=
  roundDiv (num * Nat.pow 2 (-e).toNat) (den * Nat.pow 2 e.toNat)

/-- The exponent of the last bit of the double nearest to `num / den`, where both are positive. The
quotient has 53 bits in that unit, or fewer at the bottom of the range. -/
def unitExponent (num den : Nat) : Int :=
  let guess : Int := (num.log2 : Int) - den.log2 - 52
  let e :=
    if num * Nat.pow 2 (-guess).toNat < den * Nat.pow 2 guess.toNat * Nat.pow 2 52 then guess - 1
    else guess
  max e (-1074)

/-- The bits of the double nearest to `n * 10 ^ k`, or `none` if it is beyond the largest one. A
carry out of the fraction runs into the exponent, which is just where it belongs. -/
def nearestDouble (n : Nat) (k : Int) : Option UInt64 :=
  let size : Int := (Nat.toDigits 10 n).length + k
  if n = 0 ∨ size < -330 then some 0
  else if 310 < size then none
  else
    let num := n * Nat.pow 10 k.toNat
    let den := Nat.pow 10 (-k).toNat
    let e := unitExponent num den
    let bits := (e + 1074).toNat * Nat.pow 2 52 + roundTo num den e
    if bits < 0x7FF * Nat.pow 2 52 then some bits.toUInt64 else none

end SmallC.Decimal
