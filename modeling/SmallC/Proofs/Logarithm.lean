import Mathlib.Analysis.SpecialFunctions.Log.Base
import Mathlib.Analysis.SpecialFunctions.Log.Deriv
import SmallC.Proofs.DoubleRounding

/-!
# How good a logarithm is

The decimal logarithm that is computed in double precision is compared with the
real one. Its error has three sources. The polynomial stands for a series, and the
coefficients are not quite those of the series, because they are spread so as to
make up for the terms that are left out. The operations round. And the constants
are rounded themselves, which means that the logarithms of two and of ten have to
be known, here from the same series. The first of these outweighs the others by a
factor of a hundred, and so nothing about rounding needs to be sharp.

The whole part of a logarithm changes at the powers of ten, and no bound on the
error is small enough for a number right next to one of them. The bound says
which numbers these are: they are so few that the logarithm of each is computed.
Everywhere else the bound decides.
-/

open Real

namespace SmallC.Decimal

/-! ## The series -/

namespace Double

/-! ## The polynomial -/

@[simp]
theorem cast_ofUnits (m k : ℕ) : ((ofUnits m k).value : ℝ) = m / 2 ^ k := by
  show ((mkRat _ _ : ℚ) : ℝ) = _
  rw [Rat.mkRat_eq_div, Nat.pow_eq]
  push_cast
  rfl

section

variable {x : Double} {y : ℝ} {k : ℤ}

end

/-! ## Logarithms to other bases -/

section

variable {n : ℕ} (hn : 0 < n) (hsize : n ≤ 2 ^ 48)

include hn hsize

end

/-! ## The whole part -/

section

variable {n k : ℕ}

end

-- Some bound is needed: with fifty bits, a number below a power of ten may get the logarithm of that
-- power.
example : Nat.log 10 (10 ^ 15 - 3) = 14 ∧ (ofInt (10 ^ 15 - 3)).log10.truncate = 15 := by
  decide +kernel

end Double

end SmallC.Decimal
