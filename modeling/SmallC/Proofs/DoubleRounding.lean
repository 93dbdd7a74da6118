import Mathlib.Data.Real.Basic
import Mathlib.Tactic
import SmallC.Decimal.Logarithm

/-!
# Errors of rounding

An operation in double precision yields the number nearest to its exact result.
How near that is comes from the 53 bits of the result alone: the error is half a
unit of the last of them, and a unit is `2 ^ 52` times smaller than the number.
Only next to zero, where the unit stops shrinking, something is added that is too
small to matter.

`Near` carries such a bound from one operation to the next. It says how far a
computed number is from the real number that it stands for, and how large that
number is, since the error of the next operation depends on both. What a formula
yields is then read off its operations one at a time, with numbers for which only
an inequality between decimals is left.
-/

namespace SmallC.Decimal

/-! ## The nearest natural number -/

theorem roundDiv_near (num : Nat) {den : Nat} (h : 0 < den) :
    2 * num ≤ 2 * (roundDiv num den * den) + den ∧
      2 * (roundDiv num den * den) ≤ 2 * num + den := by
  have hnum := Nat.div_add_mod num den
  have hless := Nat.mod_lt num h
  unfold roundDiv
  dsimp only
  split
  · rw [Nat.mul_comm (num / den)]
    omega
  · split
    · rw [Nat.add_mul, Nat.mul_comm (num / den)]
      omega
    · rcases Nat.mod_two_eq_zero_or_one (num / den) with hbit | hbit <;>
        rw [hbit, Nat.add_mul, Nat.mul_comm (num / den)] <;> omega

theorem two_zpow (e : ℤ) : (2 : ℝ) ^ e = Nat.pow 2 e.toNat / Nat.pow 2 (-e).toNat := by
  have h : e = e.toNat - (-e).toNat := by omega
  conv_lhs => rw [h]
  rw [zpow_sub₀ two_ne_zero, zpow_natCast, zpow_natCast]
  norm_cast

/-- The unit of the last bit of a quotient: it has 53 bits in that unit, or the unit is the smallest
there is. -/
theorem unitExponent_spec {num den : Nat} (hnum : 0 < num) (hden : 0 < den) :
    (num / den : ℝ) < 2 ^ (unitExponent num den + 53) ∧
      (unitExponent num den = -1074 ∨ (2 : ℝ) ^ (unitExponent num den + 52) ≤ num / den) := by
  have hden' : (0 : ℝ) < den := by exact_mod_cast hden
  have hlow : ((2 : ℝ) ^ num.log2 ≤ num) := by exact_mod_cast Nat.log2_self_le hnum.ne'
  have hhigh : ((num : ℝ) < 2 ^ (num.log2 + 1)) := by exact_mod_cast Nat.lt_log2_self
  have hlow' : ((2 : ℝ) ^ den.log2 ≤ den) := by exact_mod_cast Nat.log2_self_le hden.ne'
  have hhigh' : ((den : ℝ) < 2 ^ (den.log2 + 1)) := by exact_mod_cast Nat.lt_log2_self
  set guess : ℤ := (num.log2 : ℤ) - den.log2 - 52 with hguess
  -- the quotient of the leading bits is right up to a factor of two on either side
  have hup : (num / den : ℝ) < 2 ^ (guess + 53) := by
    rw [div_lt_iff₀ hden']
    calc (num : ℝ) < 2 ^ (num.log2 + 1) := hhigh
      _ = 2 ^ (guess + 53) * 2 ^ den.log2 := by
        rw [← zpow_natCast, ← zpow_natCast, ← zpow_add₀ two_ne_zero]
        congr 1
        push_cast
        omega
      _ ≤ 2 ^ (guess + 53) * den := by gcongr
  have hdown : (2 : ℝ) ^ (guess + 51) ≤ num / den := by
    rw [le_div_iff₀ hden']
    calc (2 : ℝ) ^ (guess + 51) * den ≤ 2 ^ (guess + 51) * 2 ^ (den.log2 + 1) := by gcongr
      _ = 2 ^ num.log2 := by
        rw [← zpow_natCast, ← zpow_natCast, ← zpow_add₀ two_ne_zero]
        congr 1
        push_cast
        omega
      _ ≤ num := hlow
  have htest : (num * Nat.pow 2 (-guess).toNat < den * Nat.pow 2 guess.toNat * Nat.pow 2 52) ↔
      (num / den : ℝ) < 2 ^ (guess + 52) := by
    have hpos : (0 : ℝ) < Nat.pow 2 (-guess).toNat := by exact_mod_cast Nat.two_pow_pos _
    rw [zpow_add₀ two_ne_zero, two_zpow guess, div_lt_iff₀ hden', div_mul_eq_mul_div,
      div_mul_eq_mul_div, lt_div_iff₀ hpos]
    norm_cast
    rw [Nat.mul_comm den, Nat.mul_right_comm]
    rfl
  unfold unitExponent
  simp only [← hguess, htest]
  split
  · next hsmall =>
      have heq : guess - 1 + 53 = guess + 52 := by omega
      refine ⟨lt_of_lt_of_le hsmall (zpow_le_zpow_right₀ one_le_two (by omega)), ?_⟩
      rcases le_total (guess - 1) (-1074) with hle | hle
      · exact .inl (max_eq_right hle)
      · rw [max_eq_left hle, show guess - 1 + 52 = guess + 51 by omega]
        exact .inr hdown
  · next hlarge =>
      refine ⟨lt_of_lt_of_le hup (zpow_le_zpow_right₀ one_le_two (by omega)), ?_⟩
      rcases le_total guess (-1074) with hle | hle
      · exact .inl (max_eq_right hle)
      · rw [max_eq_left hle]
        exact .inr (not_lt.1 hlarge)

namespace Double

/-! ## The nearest number -/

theorem sign_mul_natAbs (n : ℤ) : (n.sign * n.natAbs : ℝ) = n := by
  rw [← Int.cast_natCast n.natAbs, ← Int.cast_mul, Int.sign_mul_natAbs]

theorem cast_eq (x : ℚ) : (x : ℝ) = x.num.sign * (x.num.natAbs / x.den) := by
  rw [← mul_div_assoc, sign_mul_natAbs]
  exact Rat.cast_def x

theorem cast_nearest (x : ℚ) :
    ((nearest x).value : ℝ) =
      x.num.sign * (roundTo x.num.natAbs x.den (unitExponent x.num.natAbs x.den) *
        2 ^ unitExponent x.num.natAbs x.den) := by
  show ((mkRat _ _ : ℚ) : ℝ) = _
  rw [Rat.mkRat_eq_div, two_zpow]
  push_cast
  ring

theorem roundTo_near (num : Nat) {den : Nat} (hden : 0 < den) (e : ℤ) :
    |(roundTo num den e : ℝ) * 2 ^ e - num / den| ≤ 2 ^ e / 2 := by
  have hd : 0 < den * Nat.pow 2 e.toNat := Nat.mul_pos hden (Nat.two_pow_pos _)
  obtain ⟨hlow, hhigh⟩ := roundDiv_near (num * Nat.pow 2 (-e).toNat) hd
  change 2 * (num * Nat.pow 2 (-e).toNat) ≤ 2 * (roundTo num den e * _) + _ at hlow
  change 2 * (roundTo num den e * _) ≤ _ at hhigh
  have hden' : (0 : ℝ) < den := by exact_mod_cast hden
  have hup : (0 : ℝ) < Nat.pow 2 e.toNat := by exact_mod_cast Nat.two_pow_pos _
  have hdown : (0 : ℝ) < Nat.pow 2 (-e).toNat := by exact_mod_cast Nat.two_pow_pos _
  have hlow' : (2 : ℝ) * (num * Nat.pow 2 (-e).toNat) ≤
      2 * (roundTo num den e * (den * Nat.pow 2 e.toNat)) + den * Nat.pow 2 e.toNat := by
    exact_mod_cast hlow
  have hhigh' : (2 : ℝ) * (roundTo num den e * (den * Nat.pow 2 e.toNat)) ≤
      2 * (num * Nat.pow 2 (-e).toNat) + den * Nat.pow 2 e.toNat := by
    exact_mod_cast hhigh
  have hscaled : |(roundTo num den e : ℝ) * (den * Nat.pow 2 e.toNat) -
      num * Nat.pow 2 (-e).toNat| ≤ den * Nat.pow 2 e.toNat / 2 := by
    rw [abs_le]
    constructor <;> linarith
  have hsame : (roundTo num den e : ℝ) * 2 ^ e - num / den =
      ((roundTo num den e : ℝ) * (den * Nat.pow 2 e.toNat) - num * Nat.pow 2 (-e).toNat) /
        (den * Nat.pow 2 (-e).toNat) := by
    rw [two_zpow]
    field_simp
  rw [hsame, abs_div, abs_of_pos (mul_pos hden' hdown), div_le_iff₀ (mul_pos hden' hdown),
    two_zpow]
  refine hscaled.trans_eq ?_
  field_simp

/-- How far off the nearest number is: half a unit in the last of 53 bits, or next to nothing. -/
theorem abs_nearest_sub_le (x : ℚ) :
    |((nearest x).value : ℝ) - x| ≤ |(x : ℝ)| / 2 ^ 53 + 1 / 10 ^ 30 := by
  rcases eq_or_ne x 0 with rfl | hx
  · have hzero : ((nearest 0).value : ℝ) = 0 := by rw [cast_nearest]; simp
    rw [hzero]
    norm_num
  have hnum : 0 < x.num.natAbs := Int.natAbs_pos.2 (Rat.num_ne_zero.2 hx)
  have hsign : |(x.num.sign : ℝ)| = 1 := by
    rcases lt_or_gt_of_ne (Rat.num_ne_zero.2 hx) with h | h
    · rw [Int.sign_eq_neg_one_of_neg h]; norm_num
    · rw [Int.sign_eq_one_of_pos h]; norm_num
  obtain ⟨-, hunit⟩ := unitExponent_spec hnum x.den_pos
  have hnear := roundTo_near x.num.natAbs x.den_pos (unitExponent x.num.natAbs x.den)
  have habs : |(x : ℝ)| = x.num.natAbs / x.den := by
    rw [cast_eq x, abs_mul, hsign, one_mul, abs_of_nonneg (by positivity)]
  rw [cast_nearest, cast_eq x, ← mul_sub, abs_mul, hsign, one_mul, ← cast_eq x, habs]
  refine hnear.trans ?_
  rcases hunit with hunit | hunit
  · rw [hunit]
    calc (2 : ℝ) ^ (-1074 : ℤ) / 2 ≤ 2 ^ (-1074 : ℤ) := half_le_self (by positivity)
      _ ≤ 2 ^ (-100 : ℤ) := zpow_le_zpow_right₀ one_le_two (by norm_num)
      _ ≤ 1 / 10 ^ 30 := by norm_num
      _ ≤ x.num.natAbs / x.den / 2 ^ 53 + 1 / 10 ^ 30 := le_add_of_nonneg_left (by positivity)
  · rw [zpow_add₀ two_ne_zero] at hunit
    norm_num at hunit ⊢
    linarith

/-- A number of double precision that is within `err` of a real number, which is at most `size` in
absolute value. -/
structure Near (x : Double) (y err size : ℝ) : Prop where
  near : |(x.value : ℝ) - y| ≤ err
  bound : |y| ≤ size

section

variable {a b : Double} {x y α β X Y : ℝ}

/-- A looser bound. -/
theorem Near.within (h : Near a x α X) (β Y : ℝ) (herr : α ≤ β) (hsize : X ≤ Y) : Near a x β Y :=
  ⟨h.near.trans herr, h.bound.trans hsize⟩

theorem Near.exact (h : |(a.value : ℝ)| ≤ X) : Near a a.value 0 X :=
  ⟨by rw [sub_self, abs_zero], h⟩

/-- What is near an exact result stays near it when it is rounded. -/
theorem nearest_near {q : ℚ} (h : |(q : ℝ) - y| ≤ β) (hsize : |y| ≤ Y) :
    Near (nearest q) y (β + ((Y + β) / 2 ^ 53 + 1 / 10 ^ 30)) Y := by
  refine ⟨?_, hsize⟩
  have hq : |(q : ℝ)| ≤ Y + β := by
    calc |(q : ℝ)| = |y + (q - y)| := by rw [add_sub_cancel]
      _ ≤ |y| + |(q : ℝ) - y| := abs_add_le _ _
      _ ≤ Y + β := add_le_add hsize h
  calc |((nearest q).value : ℝ) - y| = |(q - y) + ((nearest q).value - q)| := by ring_nf
    _ ≤ |(q : ℝ) - y| + |((nearest q).value : ℝ) - q| := abs_add_le _ _
    _ ≤ β + (|(q : ℝ)| / 2 ^ 53 + 1 / 10 ^ 30) := add_le_add h (abs_nearest_sub_le q)
    _ ≤ β + ((Y + β) / 2 ^ 53 + 1 / 10 ^ 30) := by gcongr

theorem Near.add (h : Near a x α X) (h' : Near b y β Y) :
    Near (a + b) (x + y) (α + β + ((X + Y + (α + β)) / 2 ^ 53 + 1 / 10 ^ 30)) (X + Y) := by
  refine nearest_near ?_ ((abs_add_le x y).trans (add_le_add h.bound h'.bound))
  calc |((a.value + b.value : ℚ) : ℝ) - (x + y)| = |(a.value - x) + (b.value - y)| := by
        push_cast
        ring_nf
    _ ≤ |(a.value : ℝ) - x| + |(b.value : ℝ) - y| := abs_add_le _ _
    _ ≤ α + β := add_le_add h.near h'.near

theorem Near.sub (h : Near a x α X) (h' : Near b y β Y) :
    Near (a - b) (x - y) (α + β + ((X + Y + (α + β)) / 2 ^ 53 + 1 / 10 ^ 30)) (X + Y) := by
  refine nearest_near ?_ ((abs_sub x y).trans (add_le_add h.bound h'.bound))
  calc |((a.value - b.value : ℚ) : ℝ) - (x - y)| = |(a.value - x) - (b.value - y)| := by
        push_cast
        ring_nf
    _ ≤ |(a.value : ℝ) - x| + |(b.value : ℝ) - y| := abs_sub _ _
    _ ≤ α + β := add_le_add h.near h'.near

theorem Near.mul (h : Near a x α X) (h' : Near b y β Y) :
    Near (a * b) (x * y)
      (α * (Y + β) + X * β + ((X * Y + (α * (Y + β) + X * β)) / 2 ^ 53 + 1 / 10 ^ 30)) (X * Y) := by
  have hx : 0 ≤ X := (abs_nonneg x).trans h.bound
  have hα : 0 ≤ α := (abs_nonneg _).trans h.near
  have hb : |(b.value : ℝ)| ≤ Y + β := by
    calc |(b.value : ℝ)| = |y + (b.value - y)| := by rw [add_sub_cancel]
      _ ≤ |y| + |(b.value : ℝ) - y| := abs_add_le _ _
      _ ≤ Y + β := add_le_add h'.bound h'.near
  refine nearest_near ?_ ?_
  · calc |((a.value * b.value : ℚ) : ℝ) - x * y| =
          |(a.value - x) * b.value + x * (b.value - y)| := by
          push_cast
          ring_nf
      _ ≤ |(a.value - x) * b.value| + |x * (b.value - y)| := abs_add_le _ _
      _ = |(a.value : ℝ) - x| * |(b.value : ℝ)| + |x| * |(b.value : ℝ) - y| := by
          rw [abs_mul, abs_mul]
      _ ≤ α * (Y + β) + X * β :=
          add_le_add (mul_le_mul h.near hb (abs_nonneg _) hα)
            (mul_le_mul h.bound h'.near (abs_nonneg _) hx)
  · rw [abs_mul]
    exact mul_le_mul h.bound h'.bound (abs_nonneg _) hx

/-- A quotient, where the divisor is at least `D`. -/
theorem Near.div {D Q : ℝ} (h : Near a x α X) (h' : Near b y β Y) (hD : D ≤ y) (hβ : β < D)
    (hQ : |x / y| ≤ Q) :
    Near (a / b) (x / y)
      ((α + Q * β) / (D - β) + ((Q + (α + Q * β) / (D - β)) / 2 ^ 53 + 1 / 10 ^ 30)) Q := by
  have hβ' : 0 ≤ β := (abs_nonneg _).trans h'.near
  have hy : 0 < y := by linarith
  have hb : D - β ≤ b.value := by linarith [(abs_le.1 h'.near).1]
  have hb' : (0 : ℝ) < b.value := by linarith
  refine nearest_near ?_ hQ
  have hsplit : ((a.value / b.value : ℚ) : ℝ) - x / y =
      ((a.value - x) - x / y * (b.value - y)) / b.value := by
    push_cast
    field_simp
    ring
  rw [hsplit, abs_div, abs_of_pos hb']
  have hnum : |((a.value : ℝ) - x) - x / y * (b.value - y)| ≤ α + Q * β := by
    calc |((a.value : ℝ) - x) - x / y * (b.value - y)|
        ≤ |(a.value : ℝ) - x| + |x / y * (b.value - y)| := abs_sub _ _
      _ ≤ α + Q * β := by
          rw [abs_mul]
          exact add_le_add h.near (mul_le_mul hQ h'.near (abs_nonneg _)
            ((abs_nonneg _).trans hQ))
  exact div_le_div₀ ((abs_nonneg _).trans hnum) hnum (by linarith) hb

end

end Double

end SmallC.Decimal
