import SmallC.Decimal.Shortest

/-!
# Writing decimals

The digits of a number are one thing and where its point goes is another. Two
layouts are in use: all digits around the point, and one digit before the point
with an exponent.
-/

namespace SmallC.Decimal

/-- The digits of a decimal and the number of them before the point. -/
def Digits.spread (d : Digits) : List Char × Int :=
  if d.n = 0 then (['0'], 1)
  else
    let ds := Nat.toDigits 10 d.n
    (ds, ds.length + d.k)

/-- All digits around the point: `1234.5`, `0.00012`, `1200`. -/
def Digits.plain (d : Digits) : String :=
  let (ds, point) := d.spread
  if point ≤ 0 then "0." ++ String.ofList (List.replicate (-point).toNat '0' ++ ds)
  else if ds.length ≤ point then
    String.ofList (ds ++ List.replicate (point - ds.length).toNat '0')
  else String.ofList (ds.take point.toNat) ++ "." ++ String.ofList (ds.drop point.toNat)

/-- One digit before the point and an exponent with a sign and at least two digits:
`1.2345e+03`. -/
def Digits.scientific (d : Digits) : String :=
  let (ds, point) := d.spread
  let exponent := point - 1
  let size := Nat.toDigits 10 exponent.natAbs
  let size := if size.length < 2 then '0' :: size else size
  let fraction := match ds.drop 1 with
    | [] => ""
    | more => "." ++ String.ofList more
  String.ofList (ds.take 1) ++ fraction ++ "e" ++ (if exponent < 0 then "-" else "+") ++
    String.ofList size

/-- The plain layout for numbers of a middling size, the scientific one for the others: `least` and
`most` bound the exponents written plainly. -/
def Digits.general (least most : Int) (d : Digits) : String :=
  let (_, point) := d.spread
  if point - 1 < least ∨ most < point - 1 then d.scientific else d.plain

/-- Writes a number whose positive part is written by `layout`. -/
def Real.text (layout : Digits → String) : Real → String
  | .nan => "NaN"
  | .infinite negative => if negative then "-Inf" else "+Inf"
  | .finite negative m q tight =>
    let digits := if m = 0 then ⟨0, 0⟩ else shortest m q tight
    (if negative then "-" else "") ++ layout digits

end SmallC.Decimal
