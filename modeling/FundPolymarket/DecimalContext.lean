import FundPolymarket.DecimalRounding
import FundPolymarket.RelativeError

set_option autoImplicit false

/- The default arithmetic context of Python decimals and the fixed-point columns
of a database, over the roundings of `DecimalRounding`. -/
namespace FundPolymarket.Decimal

open RelativeError (Near Roundoff)

/-- Significant digits of the default context. -/
def prec : ℕ := 28

def fix (x : ℚ) : ℚ := roundSig prec x

/-- An integer to the digits of the context. -/
def fixInt (n : ℤ) : ℤ :=
  let unit : ℤ := 10 ^ (Nat.log 10 n.natAbs + 1 - prec)
  halfEven (n / unit) * unit

def add (x y : ℚ) : ℚ := fix (x + y)

def sub (x y : ℚ) : ℚ := fix (x - y)

def mul (x y : ℚ) : ℚ := fix (x * y)

/-- The quotient of a nonzero divisor; callers guard against zero. -/
def div (x y : ℚ) : ℚ := fix (x / y)

/-- `sum(values, Decimal("0"))`: a left fold that rounds at every addition. -/
def sum (values : List ℚ) : ℚ := values.foldl add 0

/-- `quantize`, failing when the result needs more digits than the context has. -/
def quantize (places : ℕ) (mode : Rounding) (x : ℚ) : Option ℚ :=
  let units := mode.toInt (x * 10 ^ places)
  if units.natAbs < 10 ^ prec then some (units / 10 ^ places) else none

/-- `x // y`, failing on a zero divisor and on a quotient beyond the context. -/
def floordiv (x y : ℚ) : Option ℤ :=
  let quotient := down (x / y)
  if y = 0 ∨ 10 ^ prec ≤ quotient.natAbs then none else some quotient

theorem fix_nonneg {x : ℚ} (nonneg : 0 ≤ x) : 0 ≤ fix x :=
  roundSig_nonneg (by decide) nonneg

theorem fix_pos {x : ℚ} (positive : 0 < x) : 0 < fix x :=
  roundSig_pos (by decide) positive

theorem fix_mono {x y : ℚ} (nonneg : 0 ≤ x) (le : x ≤ y) : fix x ≤ fix y :=
  roundSig_mono (by decide) nonneg le

theorem fix_neg (x : ℚ) : fix (-x) = -fix x := roundSig_neg prec x

/-- The relative error of one rounded operation. -/
def unitRoundoff : ℚ := 5 / 10 ^ 28

theorem abs_fix_sub_le (x : ℚ) : |fix x - x| ≤ |x| * unitRoundoff := by
  have error := abs_roundSig_sub_le prec x
  have unit : (10 : ℚ) ^ (1 - prec : ℤ) / 2 = unitRoundoff := by
    norm_num [prec, unitRoundoff]
  rwa [unit] at error

theorem roundoff : Roundoff unitRoundoff := ⟨by norm_num [unitRoundoff], by norm_num [unitRoundoff]⟩

theorem near_fix (x : ℚ) : Near unitRoundoff 1 x (fix x) :=
  .of_abs_sub_le roundoff (abs_fix_sub_le x)

theorem fix_le {x : ℚ} (nonneg : 0 ≤ x) : fix x ≤ x * (1 + unitRoundoff) := by
  have bound := ((near_fix x).le_mul_pow nonneg).2
  rwa [pow_one] at bound

theorem le_fix {x : ℚ} (nonneg : 0 ≤ x) : x * (1 - unitRoundoff) ≤ fix x := by
  have bound := ((near_fix x).le_mul_pow nonneg).1
  rwa [pow_one] at bound

/-- A product and a quotient, each rounded, in either order. -/
theorem near_div_mul (x y z : ℚ) : Near unitRoundoff 2 (x * y / z) (div (mul x y) z) :=
  ((near_fix (x * y)).div_right z).trans roundoff (near_fix _)

theorem near_mul_div (x y z : ℚ) : Near unitRoundoff 2 (x * (y / z)) (mul x (div y z)) := by
  have near := ((near_fix (y / z)).mul_right x).trans roundoff (near_fix _)
  rw [mul_comm, mul_comm (fix (y / z))] at near
  exact near

/-- A value with few digits after the point is not rounded while it fits the context. -/
theorem fix_of_scaled {places : ℕ} {x : ℚ} (scaled : Scaled places x)
    (small : |x| < 10 ^ (prec - places : ℤ)) : fix x = x :=
  roundSig_of_scaled scaled small

/-- Whole hundredths below `10 ^ 26` fit the context. -/
theorem fix_of_cents {x : ℚ} (cents : Scaled 2 x) (small : |x| < 10 ^ 26) : fix x = x :=
  fix_of_scaled cents (by norm_num [prec]; exact small)

section Integers

theorem fixInt_neg (n : ℤ) : fixInt (-n) = -fixInt n := by
  simp only [fixInt, Int.natAbs_neg, Int.cast_neg, neg_div, halfEven_neg, neg_mul]

/-- An integer within the context is kept. -/
theorem fixInt_of_small {n : ℤ} (small : |n| < 10 ^ prec) : fixInt n = n := by
  have fits : Nat.log 10 n.natAbs + 1 ≤ prec := by
    rcases Nat.eq_zero_or_pos n.natAbs with zero | positive
    · rw [zero, Nat.log_zero_right]
      decide
    · rw [Nat.add_one_le_iff]
      refine Nat.log_lt_of_lt_pow positive.ne' ?_
      rw [Int.abs_eq_natAbs] at small
      exact_mod_cast small
  rw [fixInt, Nat.sub_eq_zero_of_le fits, pow_zero, mul_one, Int.cast_one, div_one,
    halfEven_intCast]

theorem fix_natCast_div_pow (n places : ℕ) :
    fix ((n : ℤ) / 10 ^ places) = fixInt n / 10 ^ places := by
  rcases lt_or_ge n (10 ^ prec) with below | large
  · rw [fixInt_of_small (by rw [Nat.abs_cast]; exact_mod_cast below)]
    refine fix_of_scaled ⟨n, rfl⟩ ?_
    have power : (10 : ℚ) ^ (prec - places : ℤ) = 10 ^ prec / 10 ^ places := by
      rw [zpow_sub₀ (by norm_num), zpow_natCast, zpow_natCast]
    rw [power, abs_of_nonneg (by positivity)]
    exact div_lt_div_of_pos_right (by exact_mod_cast below) (by positivity)
  · have some : n ≠ 0 := by
      rintro rfl
      simp at large
    have decade := Nat.pow_log_le_self 10 some
    have next := Nat.lt_pow_succ_log_self (b := 10) (by norm_num) n
    rw [fixInt, Int.natAbs_natCast]
    obtain ⟨extra, digits⟩ := Nat.exists_eq_add_of_le
      ((Nat.le_log_of_pow_le (by norm_num) large).trans (Nat.le_succ _))
    have cut : Nat.log 10 n + 1 - prec = extra := by omega
    rw [cut]
    rw [digits] at next
    have tens : (0 : ℚ) < 10 ^ extra := by positivity
    have value : ((n : ℤ) : ℚ) / 10 ^ places = n / 10 ^ extra * 10 ^ (extra - places : ℤ) := by
      rw [zpow_sub₀ (by norm_num), zpow_natCast, zpow_natCast]
      field_simp
      norm_cast
    have lead : (10 : ℚ) ^ prec ≤ n / 10 ^ extra * 10 := by
      rw [div_mul_eq_mul_div, le_div_iff₀ tens, ← pow_add, ← digits, pow_succ]
      exact_mod_cast Nat.mul_le_mul_right 10 decade
    have top : (n / 10 ^ extra : ℚ) < 10 ^ prec := by
      rw [div_lt_iff₀ tens, ← pow_add]
      exact_mod_cast next
    rw [value, fix, roundSig_significand lead top, zpow_sub₀ (by norm_num), zpow_natCast,
      zpow_natCast]
    push_cast
    ring

/-- The context takes an integer of hundredths as it takes the integer. -/
theorem fix_div_pow (n : ℤ) (places : ℕ) : fix (n / 10 ^ places) = fixInt n / 10 ^ places := by
  obtain ⟨m, rfl | rfl⟩ := n.eq_nat_or_neg
  · exact fix_natCast_div_pow m places
  · rw [fixInt_neg, Int.cast_neg, neg_div, fix_neg, fix_natCast_div_pow, Int.cast_neg, neg_div]

/-- The half above an integer of `digits + 1` digits, as a significand of the context. -/
theorem half_significand {n digits rest : ℕ} (decade : 10 ^ digits ≤ n)
    (next : n < 10 ^ (digits + 1)) (total : 24 = digits + rest) :
    10 ^ prec < (2 * n + 1) * 5 * 10 ^ (rest + 2) * 10 ∧
      (2 * n + 1) * 5 * 10 ^ (rest + 2) < 10 ^ prec := by
  have powers : 10 ^ prec = 10 ^ digits * 10 ^ (rest + 4) := by
    rw [← pow_add, prec]
    congr 1
    omega
  constructor
  · calc
      10 ^ prec = 10 ^ digits * 10 ^ (rest + 4) := powers
      _ ≤ n * 10 ^ (rest + 4) := Nat.mul_le_mul_right _ decade
      _ < n * 10 ^ (rest + 4) + 5 * 10 ^ (rest + 3) := by simp
      _ = (2 * n + 1) * 5 * 10 ^ (rest + 2) * 10 := by ring
  · calc
      (2 * n + 1) * 5 * 10 ^ (rest + 2) < (2 * n + 2) * 5 * 10 ^ (rest + 2) := by
        gcongr
        simp
      _ = (n + 1) * 10 ^ (rest + 3) := by ring
      _ ≤ 10 ^ (digits + 1) * 10 ^ (rest + 3) := Nat.mul_le_mul_right _ next
      _ = 10 ^ digits * 10 ^ (rest + 4) := by ring
      _ = 10 ^ prec := powers.symm

/-- In hundredths, the context does not take a value across the half of a unit unless it lies
within half a unit of the last digit of it. -/
theorem fix_half_natCast {n : ℕ} (some : 0 < n) (small : n < 10 ^ 25) (x : ℚ) :
    ((n + 1 / 2 : ℚ) < fix (x / 10 ^ 2) * 10 ^ 2 ↔
        n + 1 / 2 + 1 / (2 * 10 ^ (prec - 1 - Nat.log 10 n)) < x) ∧
      (fix (x / 10 ^ 2) * 10 ^ 2 < n + 1 / 2 ↔
        x < n + 1 / 2 - 1 / (2 * 10 ^ (prec - 1 - Nat.log 10 n))) := by
  have decade := Nat.pow_log_le_self 10 some.ne'
  have next := Nat.lt_pow_succ_log_self (b := 10) (by norm_num) n
  have few : Nat.log 10 n < 25 := Nat.log_lt_of_lt_pow some.ne' small
  generalize Nat.log 10 n = digits at decade next few ⊢
  obtain ⟨rest, total⟩ := Nat.exists_eq_add_of_le (show digits ≤ 24 by omega)
  have span : prec - 1 - digits = rest + 3 := by
    rw [prec]
    omega
  rw [span]
  have unit : (10 : ℚ) ^ (-(rest + 5) : ℤ) = 1 / (10 ^ (rest + 3) * 10 ^ 2) := by
    rw [zpow_neg, ← pow_add, one_div]
    norm_cast
  have even : ((2 * n + 1) * 5 * 10 ^ (rest + 2) : ℤ) % 2 = 0 := by
    have twice : ((2 * n + 1) * 5 * 10 ^ (rest + 2) : ℤ) =
        2 * ((2 * n + 1) * 5 ^ 2 * 10 ^ (rest + 1)) := by ring
    rw [twice, Int.mul_emod_right]
  obtain ⟨leadNat, topNat⟩ := half_significand decade next total
  have lead : (10 ^ prec : ℤ) < (2 * n + 1) * 5 * 10 ^ (rest + 2) * 10 := by
    exact_mod_cast leadNat
  have top : ((2 * n + 1) * 5 * 10 ^ (rest + 2) : ℤ) < 10 ^ prec := by
    exact_mod_cast topNat
  have middle : (((2 * n + 1) * 5 * 10 ^ (rest + 2) : ℤ) : ℚ) = (n + 1 / 2) * 10 ^ (rest + 3) := by
    push_cast
    ring
  have hundred : (0 : ℚ) < 10 ^ 2 := by norm_num
  have above := @lt_roundSig_even_significand prec _ (by decide) even lead top
    (-(rest + 5) : ℤ) (x / 10 ^ 2)
  have below := @roundSig_lt_even_significand prec _ (by decide) even lead top.le
    (-(rest + 5) : ℤ) (x / 10 ^ 2)
  have center : (n + 1 / 2 : ℚ) * 10 ^ (rest + 3) * (1 / (10 ^ (rest + 3) * 10 ^ 2)) =
      (n + 1 / 2) / 10 ^ 2 := by field_simp
  have wider : ((n + 1 / 2 : ℚ) * 10 ^ (rest + 3) + 1 / 2) * (1 / (10 ^ (rest + 3) * 10 ^ 2)) *
      10 ^ 2 = n + 1 / 2 + 1 / (2 * 10 ^ (rest + 3)) := by field_simp
  have narrower : ((n + 1 / 2 : ℚ) * 10 ^ (rest + 3) - 1 / 2) * (1 / (10 ^ (rest + 3) * 10 ^ 2)) *
      10 ^ 2 = n + 1 / 2 - 1 / (2 * 10 ^ (rest + 3)) := by field_simp
  rw [middle, unit, ← fix, center] at above below
  rw [div_lt_iff₀ hundred, lt_div_iff₀ hundred, wider] at above
  rw [lt_div_iff₀ hundred, div_lt_iff₀ hundred, narrower] at below
  exact ⟨above, below⟩

/-- The half above an integer, of either sign. -/
theorem fix_half {q : ℤ} (some : 0 < (2 * q + 1).natAbs / 2)
    (small : (2 * q + 1).natAbs / 2 < 10 ^ 25) (x : ℚ) :
    (q + 1 / 2 < fix (x / 10 ^ 2) * 10 ^ 2 ↔ q + 1 / 2 +
        1 / (2 * 10 ^ (prec - 1 - Nat.log 10 ((2 * q + 1).natAbs / 2))) < x) ∧
      (fix (x / 10 ^ 2) * 10 ^ 2 < q + 1 / 2 ↔ x < q + 1 / 2 -
        1 / (2 * 10 ^ (prec - 1 - Nat.log 10 ((2 * q + 1).natAbs / 2)))) := by
  rcases le_or_gt 0 q with nonneg | negative
  · have whole : (((2 * q + 1).natAbs / 2 : ℕ) : ℚ) = q := by
      have : (((2 * q + 1).natAbs / 2 : ℕ) : ℤ) = q := by omega
      rw [← Int.cast_natCast, this]
    have half := fix_half_natCast some small x
    rwa [whole] at half
  · have whole : (((2 * q + 1).natAbs / 2 : ℕ) : ℚ) = -q - 1 := by
      have : (((2 * q + 1).natAbs / 2 : ℕ) : ℤ) = -q - 1 := by omega
      rw [← Int.cast_natCast, this]
      push_cast
      rfl
    obtain ⟨above, below⟩ := fix_half_natCast some small (-x)
    rw [whole, neg_div, fix_neg] at above below
    generalize (1 : ℚ) / (2 * 10 ^ (prec - 1 - Nat.log 10 ((2 * q + 1).natAbs / 2))) = slack
      at above below ⊢
    generalize fix (x / 10 ^ 2) = value at above below ⊢
    constructor
    · constructor
      · intro past
        linarith [below.mp (by linarith)]
      · intro past
        linarith [below.mpr (by linarith)]
    · constructor
      · intro short
        linarith [above.mp (by linarith)]
      · intro short
        linarith [above.mpr (by linarith)]

end Integers

theorem add_exact {x y : ℚ} (xCents : Scaled 2 x) (yCents : Scaled 2 y) (xNonneg : 0 ≤ x)
    (yNonneg : 0 ≤ y) (small : x + y < 10 ^ 26) : add x y = x + y := by
  apply fix_of_cents (xCents.add yCents)
  rw [abs_of_nonneg (add_nonneg xNonneg yNonneg)]
  exact small

theorem sub_exact {x y : ℚ} (xCents : Scaled 2 x) (yCents : Scaled 2 y) (below : y ≤ x)
    (small : x - y < 10 ^ 26) : sub x y = x - y := by
  apply fix_of_cents (xCents.sub yCents)
  rw [abs_of_nonneg (sub_nonneg.mpr below)]
  exact small

/-- A running sum is exact while the absolute values together fit the context. -/
theorem foldl_add_scaled_abs {places : ℕ} {values : List ℚ} {start : ℚ}
    (startScaled : Scaled places start) (scaled : ∀ x ∈ values, Scaled places x)
    (small : |start| + (values.map abs).sum < 10 ^ (prec - places : ℤ)) :
    values.foldl add start = start + values.sum := by
  induction values generalizing start with
  | nil => simp
  | cons head tail ih =>
      have tailNonneg : 0 ≤ (tail.map abs).sum := by
        apply List.sum_nonneg
        intro x member
        obtain ⟨y, _, rfl⟩ := List.mem_map.mp member
        exact abs_nonneg y
      have near := abs_add_le start head
      have stepScaled := startScaled.add (scaled head (by simp))
      rw [List.map_cons, List.sum_cons] at small
      have exact_step : add start head = start + head :=
        fix_of_scaled stepScaled (by linarith)
      rw [List.foldl_cons, exact_step, List.sum_cons, ← add_assoc]
      exact ih stepScaled (fun x member => scaled x (by simp [member])) (by linarith)

theorem foldl_add_scaled {places : ℕ} {values : List ℚ} {start : ℚ}
    (startScaled : Scaled places start) (startNonneg : 0 ≤ start)
    (scaled : ∀ x ∈ values, Scaled places x) (nonneg : ∀ x ∈ values, 0 ≤ x)
    (small : start + values.sum < 10 ^ (prec - places : ℤ)) :
    values.foldl add start = start + values.sum := by
  have same : values.map abs = values :=
    (List.map_congr_left fun x member => abs_of_nonneg (nonneg x member)).trans (List.map_id _)
  apply foldl_add_scaled_abs startScaled scaled
  rwa [abs_of_nonneg startNonneg, same]

/-- Sums of values with few digits after the point are exact while they fit the context. -/
theorem sum_scaled {places : ℕ} {values : List ℚ} (scaled : ∀ x ∈ values, Scaled places x)
    (nonneg : ∀ x ∈ values, 0 ≤ x) (small : values.sum < 10 ^ (prec - places : ℤ)) :
    sum values = values.sum := by
  simpa only [sum, zero_add] using
    foldl_add_scaled Scaled.zero le_rfl scaled nonneg (by simpa using small)

/-- Sums of hundredths are exact while they fit the context. -/
theorem sum_exact {values : List ℚ} (cents : ∀ x ∈ values, Scaled 2 x)
    (nonneg : ∀ x ∈ values, 0 ≤ x) (small : values.sum < 10 ^ 26) :
    sum values = values.sum :=
  sum_scaled cents nonneg (by norm_num [prec]; exact small)

section Places

variable {places : ℕ} {x y : ℚ}

/-- Rounded sums and differences have no more places after the point than their terms. -/
theorem scaled_add (left : Scaled places x) (right : Scaled places y) : Scaled places (add x y) :=
  (left.add right).roundSig prec

theorem scaled_sub (left : Scaled places x) (right : Scaled places y) : Scaled places (sub x y) :=
  (left.sub right).roundSig prec

theorem scaled_foldl_add {values : List ℚ} {start : ℚ} (startScaled : Scaled places start)
    (scaled : ∀ x ∈ values, Scaled places x) : Scaled places (values.foldl add start) := by
  induction values generalizing start with
  | nil => exact startScaled
  | cons head tail ih =>
      exact ih (scaled_add startScaled (scaled head (by simp)))
        fun x member => scaled x (by simp [member])

end Places

theorem foldl_add_nonneg {values : List ℚ} {start : ℚ} (startNonneg : 0 ≤ start)
    (nonneg : ∀ x ∈ values, 0 ≤ x) : 0 ≤ values.foldl add start := by
  induction values generalizing start with
  | nil => exact startNonneg
  | cons head tail ih =>
      exact ih (fix_nonneg (add_nonneg startNonneg (nonneg head (by simp))))
        fun x member => nonneg x (by simp [member])

theorem sum_nonneg {values : List ℚ} (nonneg : ∀ x ∈ values, 0 ≤ x) : 0 ≤ sum values :=
  foldl_add_nonneg le_rfl nonneg

/-- A running sum grows with its terms. -/
theorem foldl_add_mono {values others : List ℚ} {start other : ℚ} (startNonneg : 0 ≤ start)
    (startLe : start ≤ other) (nonneg : ∀ x ∈ values, 0 ≤ x)
    (each : List.Forall₂ (· ≤ ·) values others) :
    values.foldl add start ≤ others.foldl add other := by
  induction each generalizing start other with
  | nil => exact startLe
  | @cons x y values others head _ ih =>
      have headNonneg := nonneg x (by simp)
      exact ih (fix_nonneg (add_nonneg startNonneg headNonneg))
        (fix_mono (add_nonneg startNonneg headNonneg) (add_le_add startLe head))
        fun z member => nonneg z (by simp [member])

theorem sum_mono {values others : List ℚ} (nonneg : ∀ x ∈ values, 0 ≤ x)
    (each : List.Forall₂ (· ≤ ·) values others) : sum values ≤ sum others :=
  foldl_add_mono le_rfl le_rfl nonneg each

/-- Small whole terms are lost in a sum that has used up the digits of the context. -/
theorem fix_full_context : fix (10 ^ prec + 4) = 10 ^ prec := by decide +kernel

/-- A running sum of terms up to a small whole number grows by no more than that number
each time, and not beyond `10 ^ prec`. -/
theorem foldl_add_le_mul {term : ℕ} (small : term ≤ 4) {values : List ℚ} {start : ℚ} {count : ℕ}
    (startNonneg : 0 ≤ start) (startLe : start ≤ term * count) (startFits : start ≤ 10 ^ prec)
    (nonneg : ∀ x ∈ values, 0 ≤ x) (each : ∀ x ∈ values, x ≤ term) :
    values.foldl add start ≤ term * (count + values.length : ℕ) := by
  induction values generalizing start count with
  | nil => exact startLe
  | cons x values ih =>
      have xNonneg := nonneg x (by simp)
      have xLe := each x (by simp)
      have smallTerm : (term : ℚ) ≤ 4 := by exact_mod_cast small
      have sumNonneg := add_nonneg startNonneg xNonneg
      have fits : add start x ≤ 10 ^ prec := by
        rw [← fix_full_context]
        exact fix_mono sumNonneg (by linarith)
      have grows : add start x ≤ term * (count + 1 : ℕ) := by
        rcases lt_or_ge (term * (count + 1 : ℕ) : ℚ) (10 ^ prec) with below | above
        · have whole : fix (term * (count + 1 : ℕ)) = term * (count + 1 : ℕ) := by
            refine @fix_of_scaled 0 _ ⟨term * (count + 1 : ℕ), by push_cast; ring⟩ ?_
            rwa [abs_of_nonneg (by positivity), Nat.cast_zero, sub_zero, zpow_natCast]
          rw [← whole]
          refine fix_mono sumNonneg ?_
          push_cast
          linarith
        · exact fits.trans above
      have rest := ih (fix_nonneg sumNonneg) grows fits
        (fun y member => nonneg y (by simp [member])) fun y member => each y (by simp [member])
      rwa [List.length_cons, ← Nat.add_assoc, Nat.add_right_comm]

theorem sum_le_mul_length {term : ℕ} (small : term ≤ 4) {values : List ℚ}
    (nonneg : ∀ x ∈ values, 0 ≤ x) (each : ∀ x ∈ values, x ≤ term) :
    sum values ≤ term * values.length := by
  have total := @foldl_add_le_mul term small values 0 0 le_rfl (by simp) (by positivity) nonneg each
  rwa [Nat.zero_add] at total

/-- Every addition of nonnegative values is off by the relative error of one operation. -/
theorem near_foldl_add {values : List ℚ} {start : ℚ} (startNonneg : 0 ≤ start)
    (nonneg : ∀ x ∈ values, 0 ≤ x) :
    Near unitRoundoff values.length (start + values.sum) (values.foldl add start) := by
  have summed := RelativeError.near_foldl_add roundoff near_fix
    nonneg (fun x _ => Near.refl x) startNonneg (Near.refl start)
  rw [List.map_id', Nat.zero_add] at summed
  exact summed

section Exceeds

variable {bound : ℚ} {values : List ℚ} {start : ℚ}

/-- A bound of few digits that is reached once stays reached. -/
theorem le_foldl_add_of_start (fixed : fix bound = bound) (boundNonneg : 0 ≤ bound)
    (reached : bound ≤ start) (nonneg : ∀ x ∈ values, 0 ≤ x) : bound ≤ values.foldl add start := by
  induction values generalizing start with
  | nil => exact reached
  | cons head tail ih =>
      have headNonneg := nonneg head (by simp)
      refine ih ?_ fun x member => nonneg x (by simp [member])
      rw [← fixed]
      exact fix_mono boundNonneg (by linarith)

theorem le_foldl_add_of_mem (fixed : fix bound = bound) (boundNonneg : 0 ≤ bound)
    (startNonneg : 0 ≤ start) (nonneg : ∀ x ∈ values, 0 ≤ x) {x : ℚ} (member : x ∈ values)
    (reached : bound ≤ x) : bound ≤ values.foldl add start := by
  induction values generalizing start with
  | nil => cases member
  | cons head tail ih =>
      have headNonneg := nonneg head (by simp)
      have tailNonneg : ∀ x ∈ tail, 0 ≤ x := fun x member => nonneg x (by simp [member])
      rw [List.foldl_cons]
      rcases List.mem_cons.mp member with rfl | inTail
      · refine le_foldl_add_of_start fixed boundNonneg ?_ tailNonneg
        rw [← fixed]
        exact fix_mono boundNonneg (by linarith)
      · exact ih (fix_nonneg (add_nonneg startNonneg headNonneg)) tailNonneg inTail

/-- A sum of hundredths that reaches a small bound also does so with rounding. -/
theorem le_foldl_add_of_sum (fixed : fix bound = bound) (boundNonneg : 0 ≤ bound)
    (small : bound ≤ 10 ^ 26) (startCents : Scaled 2 start) (startNonneg : 0 ≤ start)
    (cents : ∀ x ∈ values, Scaled 2 x) (nonneg : ∀ x ∈ values, 0 ≤ x)
    (reached : bound ≤ start + values.sum) : bound ≤ values.foldl add start := by
  induction values generalizing start with
  | nil => simpa using reached
  | cons head tail ih =>
      have headCents := cents head (by simp)
      have headNonneg := nonneg head (by simp)
      have tailNonneg : ∀ x ∈ tail, 0 ≤ x := fun x member => nonneg x (by simp [member])
      rw [List.sum_cons, ← add_assoc] at reached
      rw [List.foldl_cons]
      rcases le_or_gt bound (start + head) with already | below
      · refine le_foldl_add_of_start fixed boundNonneg ?_ tailNonneg
        rw [← fixed]
        exact fix_mono boundNonneg already
      · rw [add_exact startCents headCents startNonneg headNonneg (by linarith)]
        exact ih (startCents.add headCents) (by linarith)
          (fun x member => cents x (by simp [member])) tailNonneg reached

end Exceeds

/-- A quotient within the context is found. -/
theorem exists_floordiv {x y : ℚ} (divisor : y ≠ 0) (fits : |x / y| < 10 ^ prec) :
    ∃ quotient, floordiv x y = some quotient := by
  have below := (abs_down_le (x / y)).trans_lt fits
  have whole : |down (x / y)| < 10 ^ prec := by exact_mod_cast below
  rw [Int.abs_eq_natAbs] at whole
  refine ⟨down (x / y), if_neg ?_⟩
  rintro (zero | large)
  · exact divisor zero
  · exact absurd whole (not_lt.mpr (by exact_mod_cast large))

/-- A whole quotient of at least one brackets its dividend. -/
theorem floordiv_bounds {x y : ℚ} {quotient : ℤ} (divisorPos : 0 < y)
    (divided : floordiv x y = some quotient) (positive : 0 < quotient) :
    quotient * y ≤ x ∧ x < (quotient + 1) * y := by
  unfold floordiv at divided
  dsimp only at divided
  split at divided
  · cases divided
  · have whole : quotient = ⌊x / y⌋ := by
      rw [← Option.some.inj divided] at positive ⊢
      unfold down at positive ⊢
      split
      · rfl
      · rename_i negative
        rw [if_neg negative] at positive
        have least := Int.floor_nonneg.mpr (neg_nonneg.mpr (not_le.mp negative).le)
        omega
    rw [whole, ← le_div_iff₀ divisorPos, ← div_lt_iff₀ divisorPos]
    exact ⟨Int.floor_le _, Int.lt_floor_add_one _⟩

theorem quantize_eq_some {places : ℕ} {mode : Rounding} {x y : ℚ} :
    quantize places mode x = some y ↔
      (mode.toInt (x * 10 ^ places)).natAbs < 10 ^ prec ∧
        y = mode.toInt (x * 10 ^ places) / 10 ^ places := by
  unfold quantize
  dsimp only
  split <;> simp_all [eq_comm]

theorem quantize_scaled {places : ℕ} {mode : Rounding} {x y : ℚ}
    (result : quantize places mode x = some y) : Scaled places y :=
  ⟨_, (quantize_eq_some.mp result).2⟩

theorem quantize_down_le {places : ℕ} {x y : ℚ} (nonneg : 0 ≤ x)
    (result : quantize places .down x = some y) : y ≤ x := by
  have unit_pos : (0 : ℚ) < 10 ^ places := by positivity
  rw [(quantize_eq_some.mp result).2, div_le_iff₀ unit_pos]
  exact down_le (mul_nonneg nonneg unit_pos.le)

theorem quantize_down_nonneg {places : ℕ} {x y : ℚ} (nonneg : 0 ≤ x)
    (result : quantize places .down x = some y) : 0 ≤ y := by
  have unit_pos : (0 : ℚ) < 10 ^ places := by positivity
  rw [(quantize_eq_some.mp result).2]
  exact div_nonneg (by exact_mod_cast down_nonneg (mul_nonneg nonneg unit_pos.le)) unit_pos.le

theorem quantize_of_fits {places : ℕ} {mode : Rounding} {x : ℚ}
    (fits : (mode.toInt (x * 10 ^ places)).natAbs < 10 ^ prec) :
    quantize places mode x = some ((mode.toInt (x * 10 ^ places) : ℚ) / 10 ^ places) :=
  quantize_eq_some.mpr ⟨fits, rfl⟩

/-- Truncation of a value that fits the context. -/
theorem quantize_down {places : ℕ} {x : ℚ} (nonneg : 0 ≤ x) (fits : x * 10 ^ places < 10 ^ prec) :
    quantize places .down x = some ((⌊x * 10 ^ places⌋ : ℚ) / 10 ^ places) := by
  have unitsNonneg : 0 ≤ x * 10 ^ places := mul_nonneg nonneg (by positivity)
  have whole : Rounding.down.toInt (x * 10 ^ places) = ⌊x * 10 ^ places⌋ := by
    simp only [Rounding.toInt, down, unitsNonneg, ↓reduceIte]
  rw [← whole]
  apply quantize_of_fits
  rw [whole]
  have below : ⌊x * 10 ^ places⌋ < (10 ^ prec : ℕ) := Int.floor_lt.mpr (by exact_mod_cast fits)
  have floorNonneg := Int.floor_nonneg.mpr unitsNonneg
  omega

/-- A column `Numeric(precision, scale)`: a bounded number of units. -/
structure Numeric (precision scale : ℕ) where
  units : ℤ
  bounded : units.natAbs < 10 ^ precision
  deriving DecidableEq, Repr

namespace Numeric

variable {precision scale : ℕ}

def val (stored : Numeric precision scale) : ℚ := stored.units / 10 ^ scale

/-- What a write stores: ties are rounded away from zero, and a value that
overflows the column is refused. -/
def ofDecimal (precision scale : ℕ) (x : ℚ) : Option (Numeric precision scale) :=
  let units := halfUp (x * 10 ^ scale)
  if fits : units.natAbs < 10 ^ precision then some ⟨units, fits⟩ else none

theorem ofDecimal_units {x : ℚ} {stored : Numeric precision scale}
    (result : ofDecimal precision scale x = some stored) :
    stored.units = halfUp (x * 10 ^ scale) := by
  unfold ofDecimal at result
  dsimp only at result
  split at result
  · cases result
    rfl
  · cases result

/-- A stored value is below the column's bound. -/
theorem lt_of_ofDecimal {x : ℚ} {stored : Numeric precision scale} (nonneg : 0 ≤ x)
    (result : ofDecimal precision scale x = some stored) : x < 10 ^ precision / 10 ^ scale := by
  have unit_pos : (0 : ℚ) < 10 ^ scale := by positivity
  have bounded := stored.bounded
  rw [ofDecimal_units result] at bounded
  have whole : halfUp (x * 10 ^ scale) + 1 ≤ (10 ^ precision : ℕ) := by omega
  have cast : (halfUp (x * 10 ^ scale) : ℚ) + 1 ≤ 10 ^ precision := by exact_mod_cast whole
  have near := (halfUp_bounds (mul_nonneg nonneg unit_pos.le)).1
  rw [lt_div_iff₀ unit_pos]
  linarith

theorem exists_ofUnits {units : ℤ} (fits : units.natAbs < 10 ^ precision) :
    ∃ stored : Numeric precision scale,
      ofDecimal precision scale (units / 10 ^ scale) = some stored := by
  have unit_pos : (0 : ℚ) < 10 ^ scale := by positivity
  have kept : (halfUp ((units : ℚ) / 10 ^ scale * 10 ^ scale)).natAbs < 10 ^ precision := by
    rwa [div_mul_cancel₀ _ unit_pos.ne', halfUp_intCast]
  exact ⟨⟨_, kept⟩, dif_pos kept⟩

/-- A value of the column's scale is stored while it is within the bound. -/
theorem exists_ofDecimal {x : ℚ} (scaled : Scaled scale x)
    (within : |x| < 10 ^ precision / 10 ^ scale) :
    ∃ stored : Numeric precision scale, ofDecimal precision scale x = some stored := by
  have unit_pos : (0 : ℚ) < 10 ^ scale := by positivity
  obtain ⟨n, rfl⟩ := scaled
  rw [abs_div, abs_of_pos unit_pos, div_lt_div_iff_of_pos_right unit_pos] at within
  have whole : |n| < (10 ^ precision : ℕ) := by exact_mod_cast within
  rw [Int.abs_eq_natAbs] at whole
  exact exists_ofUnits (by exact_mod_cast whole)

theorem val_scaled (stored : Numeric precision scale) : Scaled scale stored.val :=
  ⟨stored.units, rfl⟩

theorem abs_val_lt (stored : Numeric precision scale) :
    |stored.val| < 10 ^ precision / 10 ^ scale := by
  have unit_pos : (0 : ℚ) < 10 ^ scale := by positivity
  have bounded : (|stored.units| : ℚ) < 10 ^ precision := by
    have := stored.bounded
    rw [← Int.cast_abs, Int.abs_eq_natAbs]
    exact_mod_cast this
  rw [val, abs_div, abs_of_pos unit_pos]
  exact div_lt_div_of_pos_right bounded unit_pos

theorem val_ofDecimal {x : ℚ} {stored : Numeric precision scale} (scaled : Scaled scale x)
    (result : ofDecimal precision scale x = some stored) : stored.val = x := by
  have unit_pos : (0 : ℚ) < 10 ^ scale := by positivity
  obtain ⟨n, rfl⟩ := scaled
  rw [val, ofDecimal_units result, div_mul_cancel₀ _ unit_pos.ne', halfUp_intCast]

/-- What has been read from a column is stored as it was. -/
theorem ofDecimal_val (stored : Numeric precision scale) :
    ofDecimal precision scale stored.val = some stored := by
  have unit_pos : (0 : ℚ) < 10 ^ scale := by positivity
  have same : halfUp (stored.val * 10 ^ scale) = stored.units := by
    rw [val, div_mul_cancel₀ _ unit_pos.ne', halfUp_intCast]
  simp only [ofDecimal, same, stored.bounded, ↓reduceDIte]

theorem val_nonneg_of_ofDecimal {x : ℚ} {stored : Numeric precision scale} (nonneg : 0 ≤ x)
    (result : ofDecimal precision scale x = some stored) : 0 ≤ stored.val := by
  have unit_pos : (0 : ℚ) < 10 ^ scale := by positivity
  rw [val, ofDecimal_units result]
  exact div_nonneg (by exact_mod_cast halfUp_nonneg_of_nonneg (mul_nonneg nonneg unit_pos.le))
    unit_pos.le

/-- Storing never pushes a value above a scaled bound. -/
theorem val_ofDecimal_le {x bound : ℚ} {stored : Numeric precision scale}
    (scaled : Scaled scale bound) (nonneg : 0 ≤ x) (below : x ≤ bound)
    (result : ofDecimal precision scale x = some stored) : stored.val ≤ bound := by
  have unit_pos : (0 : ℚ) < 10 ^ scale := by positivity
  obtain ⟨n, rfl⟩ := scaled
  rw [le_div_iff₀ unit_pos] at below
  have whole := halfUp_mono (mul_nonneg nonneg unit_pos.le) below
  rw [halfUp_intCast] at whole
  rw [val, ofDecimal_units result]
  exact div_le_div_of_nonneg_right (by exact_mod_cast whole) unit_pos.le

/-- A value and its opposite are stored alike. -/
theorem ofDecimal_neg {x : ℚ} {mirrored : Numeric precision scale}
    (negated : ofDecimal precision scale (-x) = some mirrored) :
    ∃ stored : Numeric precision scale,
      ofDecimal precision scale x = some stored ∧ mirrored.val = -stored.val := by
  have units := ofDecimal_units negated
  rw [neg_mul, halfUp_neg] at units
  have fits : (halfUp (x * 10 ^ scale)).natAbs < 10 ^ precision := by
    have bounded := mirrored.bounded
    rwa [units, Int.natAbs_neg] at bounded
  refine ⟨⟨_, fits⟩, by simp [ofDecimal, fits], ?_⟩
  rw [val, val, units]
  push_cast
  ring

end Numeric

/-- Decimal digits with a comma between groups of three. -/
def groupThousands (digits : List Char) : List Char :=
  (digits.reverse.zipIdx.flatMap fun (digit, index) =>
    if index ≠ 0 ∧ index % 3 = 0 then [',', digit] else [digit]).reverse

/-- Fixed places, rounded half-even, with the digits before the point arranged. -/
def formatPlaces (arrange : List Char → List Char) (places : ℕ) (x : ℚ) : String :=
  let units := (halfEven (|x| * 10 ^ places)).natAbs
  let whole := String.ofList (arrange (toString (units / 10 ^ places)).toList)
  let tail := toString (units % 10 ^ places)
  let zeros := String.ofList (List.replicate (places - tail.length) '0')
  (if x < 0 then "-" else "") ++ whole ++ (if places = 0 then "" else "." ++ zeros ++ tail)

/-- The format `{x:,.Nf}`. -/
def formatFixed (places : ℕ) (x : ℚ) : String := formatPlaces groupThousands places x

/-- The format `{x:.N%}`. -/
def formatPercent (places : ℕ) (x : ℚ) : String := formatPlaces id places (x * 100) ++ "%"

/-- `str(x)` of a decimal without trailing zeros. -/
def text (x : ℚ) : String :=
  let places := ((List.range prec).find? fun k => (x * 10 ^ k).den = 1).getD prec
  let units := (halfEven (|x| * 10 ^ places)).natAbs
  let tail := toString (units % 10 ^ places)
  let zeros := String.ofList (List.replicate (places - tail.length) '0')
  (if x < 0 then "-" else "") ++ toString (units / 10 ^ places) ++
    (if places = 0 then "" else "." ++ zeros ++ tail)

example : formatFixed 0 1234567.5 = "1,234,568" ∧ formatPercent 1 50 = "5000.0%" := by
  decide +kernel

end FundPolymarket.Decimal
