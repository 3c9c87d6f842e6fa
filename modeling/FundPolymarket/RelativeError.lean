import Mathlib.Algebra.BigOperators.Group.List.Basic
import Mathlib.Algebra.Order.Field.Basic
import Mathlib.Algebra.Order.Ring.Pow
import Mathlib.Tactic.GCongr
import Mathlib.Tactic.Linarith
import Mathlib.Tactic.Ring

set_option autoImplicit false

/- Relative errors of rounded arithmetic. A computed value is an exact one times a factor
that collects the roundings on its way; factors multiply, and sums of nonnegative values
have a factor between those of their terms. -/
namespace FundPolymarket.RelativeError

variable {K : Type} [Field K] [LinearOrder K] [IsStrictOrderedRing K]

/-- The value `y` stands for `x` after `k` roundings, each within the factor `u`. -/
def Near (u : K) (k : ℕ) (x y : K) : Prop :=
  ∃ factor, (1 - u) ^ k ≤ factor ∧ factor ≤ (1 + u) ^ k ∧ y = x * factor

/-- The relative error of one operation. -/
structure Roundoff (u : K) : Prop where
  nonneg : 0 ≤ u
  lt_one : u < 1

/-- What `k` roundings can add, as a part of the exact value. -/
def growth (u : K) (k : ℕ) : K := (1 + u) ^ k - 1

section Factors

variable {u : K} (unit : Roundoff u)
include unit

/-- Roundings take off no more than they can add. -/
theorem one_sub_growth_le (k : ℕ) : 1 - growth u k ≤ (1 - u) ^ k := by
  have above := one_add_mul_le_pow (by linarith [unit.nonneg] : (-2 : K) ≤ u) k
  have below := one_add_mul_le_pow (by linarith [unit.lt_one] : (-2 : K) ≤ -u) k
  rw [growth]
  rw [← sub_eq_add_neg] at below
  linarith

theorem pow_one_sub_pos (k : ℕ) : 0 < (1 - u) ^ k := pow_pos (sub_pos.mpr unit.lt_one) k

end Factors

namespace Near

variable {u x y z w : K} {j k : ℕ}

omit [IsStrictOrderedRing K] in
theorem refl (x : K) : Near u 0 x x := ⟨1, by simp, by simp, (mul_one x).symm⟩

/-- One operation whose error is small against its result. -/
theorem of_abs_sub_le (unit : Roundoff u) (error : |y - x| ≤ |x| * u) : Near u 1 x y := by
  by_cases zero : x = 0
  · subst zero
    have same : y = 0 := by simpa using error
    refine ⟨1, ?_, ?_, by rw [same, zero_mul]⟩ <;> rw [pow_one] <;> linarith [unit.nonneg]
  · have relative : |y / x - 1| ≤ u := by
      rw [div_sub_one zero, abs_div, div_le_iff₀ (abs_pos.mpr zero), mul_comm]
      exact error
    obtain ⟨low, high⟩ := abs_le.mp relative
    exact ⟨y / x, by rw [pow_one]; linarith, by rw [pow_one]; linarith,
      (mul_div_cancel₀ y zero).symm⟩

/-- A nonnegative value is kept within its factors. -/
theorem le_mul_pow (near : Near u k x y) (xNonneg : 0 ≤ x) :
    x * (1 - u) ^ k ≤ y ∧ y ≤ x * (1 + u) ^ k := by
  obtain ⟨factor, low, high, rfl⟩ := near
  exact ⟨mul_le_mul_of_nonneg_left low xNonneg, mul_le_mul_of_nonneg_left high xNonneg⟩

section Compose

variable (unit : Roundoff u)
include unit

theorem mono (near : Near u j x y) (le : j ≤ k) : Near u k x y := by
  obtain ⟨factor, low, high, rfl⟩ := near
  have less : 0 ≤ 1 - u := sub_nonneg.mpr unit.lt_one.le
  refine ⟨factor, ?_, ?_, rfl⟩
  · exact (pow_le_pow_of_le_one less (by linarith [unit.nonneg]) le).trans low
  · exact high.trans (pow_le_pow_right₀ (by linarith [unit.nonneg]) le)

theorem trans (first : Near u j x y) (second : Near u k y z) : Near u (j + k) x z := by
  obtain ⟨factor, low, high, rfl⟩ := first
  obtain ⟨other, otherLow, otherHigh, rfl⟩ := second
  have positive := pow_one_sub_pos unit j
  have otherPositive := pow_one_sub_pos unit k
  refine ⟨factor * other, ?_, ?_, mul_assoc _ _ _⟩
  · rw [pow_add]
    exact mul_le_mul low otherLow otherPositive.le (positive.trans_le low).le
  · rw [pow_add]
    exact mul_le_mul high otherHigh (otherPositive.trans_le otherLow).le
      ((positive.trans_le low).le.trans high)

/-- The error against the exact value. -/
theorem abs_sub_le (near : Near u k x y) : |y - x| ≤ |x| * growth u k := by
  obtain ⟨factor, low, high, rfl⟩ := near
  have below := one_sub_growth_le unit k
  rw [← mul_sub_one, abs_mul]
  refine mul_le_mul_of_nonneg_left ?_ (abs_nonneg x)
  rw [abs_le]
  constructor
  · linarith
  · rw [growth]
    linarith

theorem abs_le_mul_pow (near : Near u k x y) : |y| ≤ |x| * (1 + u) ^ k := by
  obtain ⟨factor, low, high, rfl⟩ := near
  have positive := (pow_one_sub_pos unit k).trans_le low
  rw [abs_mul, abs_of_pos positive]
  exact mul_le_mul_of_nonneg_left high (abs_nonneg x)

theorem nonneg (near : Near u k x y) (xNonneg : 0 ≤ x) : 0 ≤ y := by
  obtain ⟨factor, low, _, rfl⟩ := near
  exact mul_nonneg xNonneg ((pow_one_sub_pos unit k).trans_le low).le

/-- A computed quotient, against the exact one. -/
theorem div_bounds (xNonneg : 0 ≤ x) (zPos : 0 < z) (top : Near u j x y) (bottom : Near u k z w) :
    x / z * ((1 - u) ^ j / (1 + u) ^ k) ≤ y / w ∧ y / w ≤ x / z * ((1 + u) ^ j / (1 - u) ^ k) := by
  obtain ⟨topLow, topHigh⟩ := top.le_mul_pow xNonneg
  obtain ⟨bottomLow, bottomHigh⟩ := bottom.le_mul_pow zPos.le
  have least := mul_pos zPos (pow_one_sub_pos unit k)
  have yNonneg := top.nonneg unit xNonneg
  rw [div_mul_div_comm, div_mul_div_comm]
  exact ⟨div_le_div₀ yNonneg topLow (least.trans_le bottomLow) bottomHigh,
    div_le_div₀ (yNonneg.trans topHigh) topHigh least bottomLow⟩

/-- What a computed and rounded quotient says about the exact one. -/
theorem div_le_of_le (xNonneg : 0 ≤ x) (zPos : 0 < z) (top : Near u j x y) (bottom : Near u k z w)
    {quotient limit : K} (rounded : Near u 1 (y / w) quotient) (within : quotient ≤ limit) :
    x / z ≤ limit * ((1 + u) ^ k / (1 - u) ^ (j + 1)) := by
  have least := pow_one_sub_pos unit (j + 1)
  have most : 0 < (1 + u) ^ k := pow_pos (by linarith [unit.nonneg]) k
  have ratioNonneg := div_nonneg (top.nonneg unit xNonneg) (bottom.nonneg unit zPos.le)
  have scaled : x / z * ((1 - u) ^ (j + 1) / (1 + u) ^ k) ≤ limit := by
    calc
      x / z * ((1 - u) ^ (j + 1) / (1 + u) ^ k)
        = x / z * ((1 - u) ^ j / (1 + u) ^ k) * (1 - u) ^ 1 := by ring
      _ ≤ y / w * (1 - u) ^ 1 := mul_le_mul_of_nonneg_right
          (top.div_bounds unit xNonneg zPos bottom).1 (pow_one_sub_pos unit 1).le
      _ ≤ quotient := (rounded.le_mul_pow ratioNonneg).1
      _ ≤ limit := within
  rw [← div_le_iff₀ (div_pos most least), div_eq_mul_inv, inv_div]
  exact scaled

end Compose

omit [IsStrictOrderedRing K] in
theorem mul_right (near : Near u k x y) (c : K) : Near u k (x * c) (y * c) := by
  obtain ⟨factor, low, high, rfl⟩ := near
  exact ⟨factor, low, high, mul_right_comm _ _ _⟩

omit [IsStrictOrderedRing K] in
theorem div_right (near : Near u k x y) (c : K) : Near u k (x / c) (y / c) := by
  rw [div_eq_mul_inv, div_eq_mul_inv]
  exact near.mul_right c⁻¹

/-- A sum of nonnegative values is no further off than its terms. -/
theorem add (xNonneg : 0 ≤ x) (zNonneg : 0 ≤ z) (first : Near u k x y) (second : Near u k z w) :
    Near u k (x + z) (y + w) := by
  obtain ⟨factor, low, high, rfl⟩ := first
  obtain ⟨other, otherLow, otherHigh, rfl⟩ := second
  rcases (add_nonneg xNonneg zNonneg).eq_or_lt with zero | positive
  · have xZero : x = 0 := by linarith
    have zZero : z = 0 := by linarith
    exact ⟨factor, low, high, by rw [xZero, zZero]; ring⟩
  · refine ⟨(x * factor + z * other) / (x + z), ?_, ?_, (mul_div_cancel₀ _ positive.ne').symm⟩
    · rw [le_div_iff₀ positive, mul_comm, add_mul]
      gcongr
    · rw [div_le_iff₀ positive, mul_comm _ (x + z), add_mul]
      gcongr

end Near

/-- Terms that stand for exact ones, added up one by one with a rounding each. -/
theorem near_foldl_add {u : K} (unit : Roundoff u) {k : ℕ} {round : K → K}
    (rounds : ∀ x, Near u 1 x (round x)) {ι : Type} {exact computed : ι → K} {items : List ι}
    (nonneg : ∀ item ∈ items, 0 ≤ exact item)
    (near : ∀ item ∈ items, Near u k (exact item) (computed item)) {start begun : K}
    (startNonneg : 0 ≤ start) (startNear : Near u k start begun) :
    Near u (k + items.length) (start + (items.map exact).sum)
      ((items.map computed).foldl (fun sum term => round (sum + term)) begun) := by
  induction items generalizing k start begun with
  | nil => simpa using startNear
  | cons item items ih =>
      have headNonneg := nonneg item (by simp)
      have added := startNear.add startNonneg headNonneg (near item (by simp))
      have step := added.trans unit (rounds (begun + computed item))
      rw [List.map_cons, List.map_cons, List.foldl_cons, List.sum_cons, ← add_assoc,
        List.length_cons, Nat.add_comm items.length 1, ← Nat.add_assoc]
      exact ih (fun other member => nonneg other (by simp [member]))
        (fun other member => (near other (by simp [member])).mono unit (by omega))
        (add_nonneg startNonneg headNonneg) step

end FundPolymarket.RelativeError
