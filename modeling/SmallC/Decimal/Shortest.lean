/-!
# The shortest decimal of a binary number

A floating-point number stands for every real number that rounds to it, an
interval around its value. Its shortest text is the decimal with the fewest
digits inside that interval: the first grid `10^k`, going from coarse to fine,
that has a point there. Of two points of that grid inside the interval the
nearer one is taken, and of two equally near ones the even one.

All of it is arithmetic on natural numbers: both the number and the grid are
scaled until neither has a denominator.
-/

namespace SmallC.Decimal

/-- The stored bits of a binary floating-point format, without the sign. -/
structure Format where
  fraction : Nat
  exponent : Nat
deriving DecidableEq, Repr

/-- Double precision. -/
def Format.double : Format := ⟨52, 11⟩

/-- Single precision. -/
def Format.single : Format := ⟨23, 8⟩

/-- A floating-point number taken apart. A finite one is `m * 2 ^ q`; `tight` says that the number
below it is nearer than the one above. -/
inductive Real where
  | nan
  | infinite (negative : Bool)
  | finite (negative : Bool) (m : Nat) (q : Int) (tight : Bool)
deriving DecidableEq, Repr

/-- Takes apart the bits of a number of a given format. -/
def Format.decode (f : Format) (bits : Nat) : Real :=
  let fraction := bits % Nat.pow 2 f.fraction
  let biased := bits / Nat.pow 2 f.fraction % Nat.pow 2 f.exponent
  let negative := bits / Nat.pow 2 (f.fraction + f.exponent) % 2 = 1
  let lowest : Int := 2 - Nat.pow 2 (f.exponent - 1) - f.fraction
  if biased = Nat.pow 2 f.exponent - 1 then
    if fraction = 0 then .infinite negative else .nan
  else if biased = 0 then .finite negative fraction lowest false
  else .finite negative (Nat.pow 2 f.fraction + fraction) (lowest + biased - 1)
    (fraction = 0 ∧ 1 < biased)

/-- A decimal number `n * 10 ^ k`. -/
structure Digits where
  n : Nat
  k : Int
deriving DecidableEq, Repr

/-- The point of the grid `10 ^ k` that stands for `m * 2 ^ q`, if one rounds to it. The interval is
`(4 m - 2) .. (4 m + 2)` in units of `2 ^ (q - 2)`, one unit less at the bottom when tight, with its
ends when `m` is even. -/
def gridPoint (m : Nat) (q : Int) (tight : Bool) (k : Int) : Option Nat :=
  let scale := Nat.pow 2 (q - 2).toNat * Nat.pow 10 (-k).toNat
  let unit := Nat.pow 10 k.toNat * Nat.pow 2 (2 - q).toNat
  let low := (4 * m - if tight then 1 else 2) * scale
  let high := (4 * m + 2) * scale
  let inside (n : Nat) : Bool :=
    if m % 2 = 0 then low ≤ n * unit ∧ n * unit ≤ high else low < n * unit ∧ n * unit < high
  let below := 4 * m * scale / unit
  let above := below + 1
  match inside below, inside above with
  | false, false => none
  | true, false => some below
  | false, true => some above
  | true, true =>
    let twice := 2 * (4 * m * scale)
    let middle := (below + above) * unit
    if twice < middle then some below
    else if middle < twice then some above
    else if below % 2 = 0 then some below else some above

/-- Tries finer and finer grids. The number itself is a decimal, and is the answer if the grids run
out. -/
def shortestFrom (m : Nat) (q : Int) (tight : Bool) : Nat → Int → Digits
  | 0, _ => if 0 ≤ q then ⟨m * Nat.pow 2 q.toNat, 0⟩ else ⟨m * Nat.pow 5 (-q).toNat, q⟩
  | steps + 1, k =>
    match gridPoint m q tight k with
    | some n => ⟨n, k⟩
    | none => shortestFrom m q tight steps (k - 1)

/-- The shortest decimal that rounds to `m * 2 ^ q`, where `m` is positive. The first grid tried is
coarser than the number, because `30103 / 100000` is just above the logarithm of two. -/
def shortest (m : Nat) (q : Int) (tight : Bool) : Digits :=
  shortestFrom m q tight 40 (((m.log2 : Int) + q + 1) * 30103 / 100000 + 2)

end SmallC.Decimal
