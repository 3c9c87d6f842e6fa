import Mathlib.Data.Int.Log
import Mathlib.Data.Rat.Floor
import Mathlib.Algebra.Order.Field.Power
import Mathlib.Tactic.Linarith
import Mathlib.Tactic.Positivity
import Mathlib.Tactic.FieldSimp
import Mathlib.Tactic.Ring

set_option autoImplicit false

/- Decimal floating point at the level of values: a decimal is the rational it
denotes, and every operation rounds the exact result to a number of significant
digits. Signed zeros, exponents out of range and non-finite values are left out. -/
namespace FundPolymarket.Decimal

/-- Rounding of an exact rational to an integer. -/
inductive Rounding where
  | halfEven
  | halfUp
  | down
  deriving DecidableEq, Repr

def halfEven (x : ℚ) : ℤ :=
  let rest := x - ⌊x⌋
  if rest < 1 / 2 then ⌊x⌋
  else if 1 / 2 < rest then ⌊x⌋ + 1
  else if ⌊x⌋ % 2 = 0 then ⌊x⌋ else ⌊x⌋ + 1

/-- Ties go away from zero. -/
def halfUp (x : ℚ) : ℤ := if 0 ≤ x then ⌊x + 1 / 2⌋ else -⌊-x + 1 / 2⌋

def down (x : ℚ) : ℤ := if 0 ≤ x then ⌊x⌋ else -⌊-x⌋

def Rounding.toInt : Rounding → ℚ → ℤ
  | .halfEven => Decimal.halfEven
  | .halfUp => Decimal.halfUp
  | .down => Decimal.down

@[simp] theorem halfEven_intCast (n : ℤ) : halfEven n = n := by
  simp [halfEven]

theorem halfUp_nonneg {x : ℚ} (nonneg : 0 ≤ x) : halfUp x = ⌊x + 1 / 2⌋ := by
  simp only [halfUp, nonneg, ↓reduceIte]

theorem halfUp_neg (x : ℚ) : halfUp (-x) = -halfUp x := by
  rcases lt_trichotomy x 0 with negative | rfl | positive
  · simp [halfUp, negative.le, not_le.mpr negative]
  · norm_num [halfUp]
  · simp [halfUp, positive.le, not_le.mpr positive]

@[simp] theorem halfUp_intCast (n : ℤ) : halfUp n = n := by
  have floor_half : ∀ m : ℤ, ⌊(m : ℚ) + 1 / 2⌋ = m := by
    intro m
    rw [Int.floor_intCast_add]
    norm_num
  unfold halfUp
  split
  · exact floor_half n
  · have := floor_half (-n)
    push_cast at this
    rw [this, neg_neg]

/-- Rounding to the nearest integer moves a value by at most one half. -/
theorem abs_halfEven_sub_le (x : ℚ) : |(halfEven x : ℚ) - x| ≤ 1 / 2 := by
  have low := Int.floor_le x
  have high := Int.lt_floor_add_one x
  rw [abs_le]
  unfold halfEven
  dsimp only
  split
  · constructor <;> linarith
  · split
    · push_cast
      constructor <;> linarith
    · split
      · constructor <;> linarith
      · push_cast
        constructor <;> linarith

/-- Half-even treats both signs alike: of two neighbours of a tie, the even one. -/
theorem halfEven_neg (x : ℚ) : halfEven (-x) = -halfEven x := by
  rcases (Int.floor_le x).eq_or_lt with whole | above
  · rw [← whole, ← Int.cast_neg, halfEven_intCast, halfEven_intCast]
  · have below := Int.lt_floor_add_one x
    have floor : ⌊-x⌋ = -⌊x⌋ - 1 := by
      rw [Int.floor_eq_iff]
      push_cast
      constructor <;> linarith
    unfold halfEven
    dsimp only
    rw [floor]
    push_cast
    split_ifs <;> first | omega | linarith

theorem floor_le_halfEven (x : ℚ) : ⌊x⌋ ≤ halfEven x := by
  unfold halfEven
  dsimp only
  split_ifs <;> omega

theorem halfEven_le_succ_floor (x : ℚ) : halfEven x ≤ ⌊x⌋ + 1 := by
  unfold halfEven
  dsimp only
  split_ifs <;> omega

/-- Within one unit, a later value is not rounded down where an earlier one goes up. -/
theorem halfEven_mono {x y : ℚ} (le : x ≤ y) : halfEven x ≤ halfEven y := by
  rcases (Int.floor_le_floor le).lt_or_eq with apart | same
  · have low := halfEven_le_succ_floor x
    have high := floor_le_halfEven y
    omega
  · unfold halfEven
    dsimp only
    rw [same]
    split_ifs <;> first | omega | linarith

/-- A value between half a unit below an integer and three halves above it is rounded to
that integer or to the next, which it reaches past the half, or at the half of an odd one. -/
theorem halfEven_near_integer {x : ℚ} {n : ℤ} (above : n - 1 / 2 < x) (below : x < n + 3 / 2) :
    halfEven x = n + if 1 / 2 < x - n ∨ x - n = 1 / 2 ∧ n % 2 = 1 then 1 else 0 := by
  have low := Int.floor_le x
  have high := Int.lt_floor_add_one x
  have least : n - 1 ≤ ⌊x⌋ := Int.le_floor.mpr (by push_cast; linarith)
  have most : ⌊x⌋ < n + 2 := Int.floor_lt.mpr (by push_cast; linarith)
  obtain floor | floor | floor : ⌊x⌋ = n - 1 ∨ ⌊x⌋ = n ∨ ⌊x⌋ = n + 1 := by omega
  · rw [floor] at low high
    push_cast at low high
    have up : 1 / 2 < x - ((n - 1 : ℤ) : ℚ) := by push_cast; linarith
    have notUp : ¬ (1 / 2 < x - n ∨ x - n = 1 / 2 ∧ n % 2 = 1) := by
      rintro (past | ⟨tie, _⟩) <;> linarith
    simp only [halfEven, floor, up, notUp, not_lt.mpr up.le, ↓reduceIte]
    omega
  · simp only [halfEven, floor]
    rcases lt_trichotomy (x - n) (1 / 2) with down | tie | up
    · have notUp : ¬ (1 / 2 < x - n ∨ x - n = 1 / 2 ∧ n % 2 = 1) := by
        rintro (past | ⟨tie, _⟩) <;> linarith
      rw [if_pos down, if_neg notUp, add_zero]
    · rcases Int.emod_two_eq_zero_or_one n with even | odd
      · simp [tie, even]
      · simp [tie, odd]
    · rw [if_neg up.not_gt, if_pos up, if_pos (.inl up)]
  · rw [floor] at low high
    push_cast at low high
    have down : x - ((n + 1 : ℤ) : ℚ) < 1 / 2 := by push_cast; linarith
    have up : 1 / 2 < x - n ∨ x - n = 1 / 2 ∧ n % 2 = 1 := .inl (by linarith)
    simp only [halfEven, floor, down, up, ↓reduceIte]

theorem down_le {x : ℚ} (nonneg : 0 ≤ x) : (down x : ℚ) ≤ x := by
  simp only [down, nonneg, ↓reduceIte]
  exact Int.floor_le x

theorem down_nonneg {x : ℚ} (nonneg : 0 ≤ x) : 0 ≤ down x := by
  simp only [down, nonneg, ↓reduceIte]
  exact Int.floor_nonneg.mpr nonneg

theorem down_neg (x : ℚ) : down (-x) = -down x := by
  rcases lt_trichotomy x 0 with negative | rfl | positive
  · simp [down, negative.le, not_le.mpr negative]
  · simp [down]
  · simp [down, positive.le, not_le.mpr positive]

/-- Nothing grows when its fraction is cut off. -/
theorem abs_down_le (x : ℚ) : |(down x : ℚ)| ≤ |x| := by
  have atLeast : ∀ y : ℚ, 0 ≤ y → |(down y : ℚ)| ≤ |y| := by
    intro y nonneg
    rw [abs_of_nonneg nonneg, abs_of_nonneg (by exact_mod_cast down_nonneg nonneg)]
    exact down_le nonneg
  rcases le_total 0 x with nonneg | nonpos
  · exact atLeast x nonneg
  · have mirrored := atLeast (-x) (neg_nonneg.mpr nonpos)
    rwa [down_neg, Int.cast_neg, abs_neg, abs_neg] at mirrored

theorem halfUp_mono {x y : ℚ} (nonneg : 0 ≤ x) (le : x ≤ y) : halfUp x ≤ halfUp y := by
  rw [halfUp_nonneg nonneg, halfUp_nonneg (nonneg.trans le)]
  exact Int.floor_le_floor (by linarith)

theorem halfUp_bounds {x : ℚ} (nonneg : 0 ≤ x) : x - 1 / 2 < halfUp x ∧ halfUp x ≤ x + 1 / 2 := by
  rw [halfUp_nonneg nonneg]
  have low := Int.floor_le (x + 1 / 2)
  have high := Int.lt_floor_add_one (x + 1 / 2)
  constructor <;> linarith

theorem halfUp_nonneg_of_nonneg {x : ℚ} (nonneg : 0 ≤ x) : 0 ≤ halfUp x := by
  have zero : halfUp 0 = 0 := by simpa using halfUp_intCast 0
  rw [← zero]
  exact halfUp_mono le_rfl nonneg

/-- A value nearer to a quotient of integers than the divisor can tell apart is truncated
to the quotient's floor, or to one less where the quotient is whole. -/
theorem floor_near_quotient {value : ℚ} {numerator divisor : ℤ} (divisorPos : 0 < divisor)
    (near : |value - numerator / divisor| < 1 / divisor) :
    (numerator / divisor : ℚ) - 1 ≤ ⌊value⌋ ∧ (⌊value⌋ : ℚ) ≤ numerator / divisor := by
  have positive : (0 : ℚ) < divisor := by exact_mod_cast divisorPos
  obtain ⟨low, high⟩ := abs_lt.mp near
  have floor_le := Int.floor_le value
  have lt_floor := Int.lt_floor_add_one value
  constructor
  · have apart : (numerator - 1 : ℚ) / divisor < ⌊value⌋ + 1 := by
      rw [sub_div]
      linarith
    rw [div_lt_iff₀ positive] at apart
    have whole : numerator ≤ (⌊value⌋ + 1) * divisor := by
      have : numerator - 1 < (⌊value⌋ + 1) * divisor := by exact_mod_cast apart
      omega
    rw [sub_le_iff_le_add, div_le_iff₀ positive]
    exact_mod_cast whole
  · have apart : (⌊value⌋ : ℚ) < (numerator + 1) / divisor := by
      rw [add_div]
      linarith
    rw [lt_div_iff₀ positive] at apart
    have whole : ⌊value⌋ * divisor ≤ numerator := by
      have : ⌊value⌋ * divisor < numerator + 1 := by exact_mod_cast apart
      omega
    rw [le_div_iff₀ positive]
    exact_mod_cast whole

/-- Rounding half-up keeps the order, also across zero. -/
theorem halfUp_le_halfUp {x y : ℚ} (le : x ≤ y) : halfUp x ≤ halfUp y := by
  rcases le_total 0 x with nonneg | nonpos
  · exact halfUp_mono nonneg le
  · have xMirrored := halfUp_nonneg_of_nonneg (neg_nonneg.mpr nonpos)
    rw [halfUp_neg] at xMirrored
    rcases le_total 0 y with yNonneg | yNonpos
    · have yRounded := halfUp_nonneg_of_nonneg yNonneg
      omega
    · have mirrored := halfUp_mono (neg_nonneg.mpr yNonpos) (neg_le_neg le)
      rw [halfUp_neg, halfUp_neg] at mirrored
      omega

theorem abs_halfUp_sub_le (x : ℚ) : |(halfUp x : ℚ) - x| ≤ 1 / 2 := by
  rcases le_total 0 x with nonneg | nonpos
  · obtain ⟨low, high⟩ := halfUp_bounds nonneg
    rw [abs_le]
    constructor <;> linarith
  · obtain ⟨low, high⟩ := halfUp_bounds (neg_nonneg.mpr nonpos)
    rw [halfUp_neg] at low high
    push_cast at low high
    rw [abs_le]
    constructor <;> linarith

section Near

variable {value : ℚ} {numerator divisor : ℤ}

theorem halfUp_near_quotient_nonneg (divisorPos : 0 < divisor) (numeratorNonneg : 0 ≤ numerator)
    (valueNonneg : 0 ≤ value) (near : |value - numerator / divisor| < 1 / (2 * divisor))
    (tie : ∀ k : ℤ, (numerator / divisor : ℚ) = k + 1 / 2 → value = numerator / divisor) :
    halfUp value = halfUp (numerator / divisor) := by
  have positive : (0 : ℚ) < divisor := by exact_mod_cast divisorPos
  have quotientNonneg : (0 : ℚ) ≤ numerator / divisor :=
    div_nonneg (by exact_mod_cast numeratorNonneg) positive.le
  have lifted : (numerator / divisor : ℚ) + 1 / 2 =
      ((2 * numerator + divisor : ℤ) : ℚ) / (2 * divisor : ℤ) := by
    push_cast
    field_simp
  have nearLifted : |value + 1 / 2 - ((2 * numerator + divisor : ℤ) : ℚ) / (2 * divisor : ℤ)| <
      (1 : ℚ) / (2 * divisor : ℤ) := by
    rw [← lifted, add_sub_add_right_eq_sub]
    push_cast
    exact near
  obtain ⟨least, most⟩ := floor_near_quotient (by omega) nearLifted
  rw [← lifted] at least most
  rw [halfUp_nonneg valueNonneg, halfUp_nonneg quotientNonneg]
  by_cases whole : (numerator / divisor : ℚ) + 1 / 2 = ⌊value + 1 / 2⌋ + 1
  · rw [tie ⌊value + 1 / 2⌋ (by linarith)]
  · symm
    rw [Int.floor_eq_iff]
    exact ⟨most, lt_of_le_of_ne (by linarith) whole⟩

theorem halfUp_near_quotient_nonpos (divisorPos : 0 < divisor) (numeratorNonpos : numerator ≤ 0)
    (valueNonpos : value ≤ 0) (near : |value - numerator / divisor| < 1 / (2 * divisor))
    (tie : ∀ k : ℤ, (numerator / divisor : ℚ) = k + 1 / 2 → value = numerator / divisor) :
    halfUp value = halfUp (numerator / divisor) := by
  have mirrored : ((-numerator : ℤ) : ℚ) / divisor = -(numerator / divisor) := by
    push_cast
    ring
  have mirroredNear : |-value - ((-numerator : ℤ) : ℚ) / divisor| < 1 / (2 * divisor) := by
    rw [mirrored, neg_sub_neg, abs_sub_comm]
    exact near
  have mirroredTie : ∀ k : ℤ, ((-numerator : ℤ) : ℚ) / divisor = k + 1 / 2 →
      -value = ((-numerator : ℤ) : ℚ) / divisor := by
    intro k half
    rw [mirrored] at half ⊢
    rw [tie (-k - 1) (by push_cast; linarith)]
  have rounded := halfUp_near_quotient_nonneg divisorPos (by omega) (by linarith) mirroredNear
    mirroredTie
  rw [mirrored, halfUp_neg, halfUp_neg] at rounded
  exact neg_injective rounded

/-- An error too small to reach a tie does not change a rounding half-up. -/
theorem halfUp_near_quotient (divisorPos : 0 < divisor)
    (near : |value - numerator / divisor| < 1 / (2 * divisor))
    (tie : ∀ k : ℤ, (numerator / divisor : ℚ) = k + 1 / 2 → value = numerator / divisor) :
    halfUp value = halfUp (numerator / divisor) := by
  have positive : (0 : ℚ) < divisor := by exact_mod_cast divisorPos
  have unit : (1 : ℚ) / (2 * divisor) * divisor = 1 / 2 := by field_simp
  obtain ⟨low, high⟩ := abs_lt.mp near
  -- Where the signs differ, the quotient is nearer to zero than its divisor can tell.
  rcases le_total 0 numerator with numeratorNonneg | numeratorNonpos
  · rcases le_total 0 value with valueNonneg | valueNonpos
    · exact halfUp_near_quotient_nonneg divisorPos numeratorNonneg valueNonneg near tie
    · have below : (numerator : ℚ) < 1 := by
        have less : (numerator : ℚ) / divisor < 1 / (2 * divisor) := by linarith
        rw [div_lt_iff₀ positive, unit] at less
        linarith
      have zero : numerator < 1 := by exact_mod_cast below
      exact halfUp_near_quotient_nonpos divisorPos (by omega) valueNonpos near tie
  · rcases le_total 0 value with valueNonneg | valueNonpos
    · have above : (-1 : ℚ) < numerator := by
        have more : -(1 / (2 * divisor)) < (numerator : ℚ) / divisor := by linarith
        rw [lt_div_iff₀ positive, neg_mul, unit] at more
        linarith
      have zero : -1 < numerator := by exact_mod_cast above
      exact halfUp_near_quotient_nonneg divisorPos (by omega) valueNonneg near tie
    · exact halfUp_near_quotient_nonpos divisorPos numeratorNonpos valueNonpos near tie

end Near

section Significant

variable (digits : ℕ)

/-- The exponent at which a nonzero value has exactly `digits` integer digits. -/
def exponent (x : ℚ) : ℤ := Int.log 10 |x| - (digits - 1)

/-- A value rounded half-even to a number of significant digits. -/
def roundSig (x : ℚ) : ℚ :=
  if x = 0 then 0 else halfEven (x / 10 ^ exponent digits x) * 10 ^ exponent digits x

@[simp] theorem roundSig_zero : roundSig digits 0 = 0 := rfl

theorem roundSig_neg (x : ℚ) : roundSig digits (-x) = -roundSig digits x := by
  rw [roundSig, roundSig, exponent, abs_neg, ← exponent, neg_div, halfEven_neg]
  split_ifs <;> simp_all

/-- The unit in the last place is small against the value itself. -/
theorem ulp_le {x : ℚ} (nonzero : x ≠ 0) :
    (10 : ℚ) ^ exponent digits x ≤ |x| * 10 ^ (1 - digits : ℤ) := by
  have positive : 0 < |x| := abs_pos.mpr nonzero
  have lead := Int.zpow_log_le_self (b := 10) (by norm_num) positive
  have split : (10 : ℚ) ^ exponent digits x = 10 ^ Int.log 10 |x| * 10 ^ (1 - digits : ℤ) := by
    rw [← zpow_add₀ (by norm_num)]
    congr 1
    unfold exponent
    ring
  rw [split]
  exact mul_le_mul_of_nonneg_right (by exact_mod_cast lead) (by positivity)

theorem abs_roundSig_sub_le (x : ℚ) :
    |roundSig digits x - x| ≤ |x| * (10 ^ (1 - digits : ℤ) / 2) := by
  by_cases zero : x = 0
  · simp [zero]
  · have unit_pos : (0 : ℚ) < 10 ^ exponent digits x := by positivity
    have scaled : roundSig digits x - x =
        (halfEven (x / 10 ^ exponent digits x) - x / 10 ^ exponent digits x) *
          10 ^ exponent digits x := by
      simp only [roundSig, zero, ↓reduceIte, sub_mul]
      rw [div_mul_cancel₀ _ unit_pos.ne']
    rw [scaled, abs_mul, abs_of_pos unit_pos]
    calc
      _ ≤ 1 / 2 * (10 : ℚ) ^ exponent digits x :=
        mul_le_mul_of_nonneg_right (abs_halfEven_sub_le _) unit_pos.le
      _ ≤ 1 / 2 * (|x| * 10 ^ (1 - digits : ℤ)) :=
        mul_le_mul_of_nonneg_left (ulp_le digits zero) (by norm_num)
      _ = |x| * (10 ^ (1 - digits : ℤ) / 2) := by ring

theorem le_roundSig {x : ℚ} (nonneg : 0 ≤ x) :
    x * (1 - 10 ^ (1 - digits : ℤ) / 2) ≤ roundSig digits x := by
  have bound := (abs_le.mp (abs_roundSig_sub_le digits x)).1
  rw [abs_of_nonneg nonneg] at bound
  linarith

variable {digits}

theorem unit_le_one (some_digit : 0 < digits) : (10 : ℚ) ^ (1 - digits : ℤ) ≤ 1 := by
  calc
    (10 : ℚ) ^ (1 - digits : ℤ) ≤ 10 ^ (0 : ℤ) :=
      zpow_le_zpow_right₀ (by norm_num) (by omega)
    _ = 1 := zpow_zero _

theorem roundSig_nonneg (some_digit : 0 < digits) {x : ℚ} (nonneg : 0 ≤ x) :
    0 ≤ roundSig digits x := by
  have unit := unit_le_one some_digit
  have unit_pos : (0 : ℚ) < 10 ^ (1 - digits : ℤ) := by positivity
  exact le_trans (mul_nonneg nonneg (by linarith)) (le_roundSig digits nonneg)

theorem roundSig_nonpos (some_digit : 0 < digits) {x : ℚ} (nonpos : x ≤ 0) :
    roundSig digits x ≤ 0 := by
  have mirrored := roundSig_nonneg some_digit (neg_nonneg.mpr nonpos)
  rw [roundSig_neg] at mirrored
  linarith

theorem roundSig_pos (some_digit : 0 < digits) {x : ℚ} (positive : 0 < x) :
    0 < roundSig digits x := by
  have unit := unit_le_one some_digit
  have unit_pos : (0 : ℚ) < 10 ^ (1 - digits : ℤ) := by positivity
  exact lt_of_lt_of_le (mul_pos positive (by linarith)) (le_roundSig digits positive.le)

/-- The leading power of ten survives rounding. -/
theorem zpow_log_le_roundSig (some_digit : 0 < digits) {x : ℚ} (positive : 0 < x) :
    (10 : ℚ) ^ Int.log 10 x ≤ roundSig digits x := by
  have unit_pos : (0 : ℚ) < 10 ^ exponent digits x := by positivity
  have units : (10 : ℚ) ^ Int.log 10 x = 10 ^ (digits - 1 : ℕ) * 10 ^ exponent digits x := by
    rw [← zpow_natCast, ← zpow_add₀ (by norm_num), exponent, abs_of_pos positive]
    congr 1
    omega
  have lead := Int.zpow_log_le_self (b := 10) (by norm_num) positive
  have whole : (((10 ^ (digits - 1 : ℕ) : ℤ)) : ℚ) ≤ x / 10 ^ exponent digits x := by
    rw [le_div_iff₀ unit_pos]
    push_cast
    rw [← units]
    exact_mod_cast lead
  have rounded := halfEven_mono whole
  rw [halfEven_intCast] at rounded
  rw [units]
  simp only [roundSig, positive.ne', ↓reduceIte]
  exact mul_le_mul_of_nonneg_right (by exact_mod_cast rounded) unit_pos.le

/-- The next power of ten is not passed by rounding. -/
theorem roundSig_le_zpow_log {x : ℚ} (positive : 0 < x) :
    roundSig digits x ≤ (10 : ℚ) ^ (Int.log 10 x + 1) := by
  have unit_pos : (0 : ℚ) < 10 ^ exponent digits x := by positivity
  have units : (10 : ℚ) ^ (Int.log 10 x + 1) = 10 ^ digits * 10 ^ exponent digits x := by
    rw [← zpow_natCast, ← zpow_add₀ (by norm_num), exponent, abs_of_pos positive]
    congr 1
    ring
  have next := Int.lt_zpow_succ_log_self (b := 10) (by norm_num) x
  have whole : x / 10 ^ exponent digits x ≤ ((10 ^ digits : ℤ) : ℚ) := by
    rw [div_le_iff₀ unit_pos]
    push_cast
    rw [← units]
    exact_mod_cast next.le
  have rounded := halfEven_mono whole
  rw [halfEven_intCast] at rounded
  rw [units]
  simp only [roundSig, positive.ne', ↓reduceIte]
  exact mul_le_mul_of_nonneg_right (by exact_mod_cast rounded) unit_pos.le

/-- Rounding to significant digits keeps the order: two values either share their
unit or have a power of ten between them. -/
theorem roundSig_mono (some_digit : 0 < digits) {x y : ℚ} (nonneg : 0 ≤ x) (le : x ≤ y) :
    roundSig digits x ≤ roundSig digits y := by
  rcases nonneg.eq_or_lt with rfl | positive
  · exact roundSig_nonneg some_digit le
  · have larger : 0 < y := positive.trans_le le
    rcases (Int.log_mono_right (b := 10) positive le).lt_or_eq with apart | same
    · calc
        roundSig digits x ≤ (10 : ℚ) ^ (Int.log 10 x + 1) := roundSig_le_zpow_log positive
        _ ≤ (10 : ℚ) ^ Int.log 10 y := zpow_le_zpow_right₀ (by norm_num) (by omega)
        _ ≤ roundSig digits y := zpow_log_le_roundSig some_digit larger
    · have unit_pos : (0 : ℚ) < 10 ^ exponent digits y := by positivity
      have unit : exponent digits x = exponent digits y := by
        rw [exponent, exponent, abs_of_pos positive, abs_of_pos larger, same]
      simp only [roundSig, positive.ne', larger.ne', ↓reduceIte, unit]
      have rounded :
          halfEven (x / 10 ^ exponent digits y) ≤ halfEven (y / 10 ^ exponent digits y) :=
        halfEven_mono (div_le_div_of_nonneg_right le unit_pos.le)
      exact mul_le_mul_of_nonneg_right (by exact_mod_cast rounded) unit_pos.le

section Neighbours

variable {m k : ℤ} {x : ℚ}

/-- A full significand has the unit it is given. -/
theorem exponent_of_significand {y : ℚ} (lead : 10 ^ digits ≤ y * 10) (top : y < 10 ^ digits)
    (k : ℤ) : exponent digits (y * 10 ^ k) = k := by
  have unit_pos : (0 : ℚ) < 10 ^ k := by positivity
  have positive : 0 < y := by
    have power : (0 : ℚ) < 10 ^ digits := by positivity
    linarith
  have decade : Int.log 10 |y * 10 ^ k| = digits - 1 + k := by
    rw [abs_of_pos (mul_pos positive unit_pos)]
    apply le_antisymm
    · rw [← Int.lt_add_one_iff, ← Int.lt_zpow_iff_log_lt (by norm_num) (mul_pos positive unit_pos)]
      have next : ((10 : ℕ) : ℚ) ^ (digits - 1 + k + 1 : ℤ) = 10 ^ digits * 10 ^ k := by
        rw [← zpow_natCast, Nat.cast_ofNat, ← zpow_add₀ (by norm_num)]
        congr 1
        ring
      rw [next]
      exact mul_lt_mul_of_pos_right top unit_pos
    · rw [← Int.zpow_le_iff_le_log (by norm_num) (mul_pos positive unit_pos)]
      have first : ((10 : ℕ) : ℚ) ^ (digits - 1 + k : ℤ) * 10 = 10 ^ digits * 10 ^ k := by
        rw [← zpow_natCast, Nat.cast_ofNat, ← zpow_add_one₀ (by norm_num),
          ← zpow_add₀ (by norm_num)]
        congr 1
        ring
      rw [← mul_le_mul_iff_left₀ (show (0 : ℚ) < 10 by norm_num), first]
      linarith [mul_le_mul_of_nonneg_right lead unit_pos.le]
  rw [exponent, decade]
  ring

/-- A value with a full significand is rounded to an integer of units. -/
theorem roundSig_significand {y : ℚ} (lead : 10 ^ digits ≤ y * 10) (top : y < 10 ^ digits)
    (k : ℤ) : roundSig digits (y * 10 ^ k) = halfEven y * 10 ^ k := by
  have unit_pos : (0 : ℚ) < 10 ^ k := by positivity
  have positive : 0 < y := by
    have power : (0 : ℚ) < 10 ^ digits := by positivity
    linarith
  rw [roundSig, if_neg (mul_pos positive unit_pos).ne', exponent_of_significand lead top,
    mul_div_cancel_right₀ _ unit_pos.ne']

/-- A full significand of integers stays clear of the decade below. -/
theorem significand_lead (some_digit : 0 < digits) (lead : 10 ^ digits < m * 10) :
    (10 ^ digits + 10 : ℤ) ≤ m * 10 := by
  obtain ⟨rest, rfl⟩ := Nat.exists_eq_add_of_le' some_digit
  rw [pow_succ] at lead ⊢
  omega

/-- A tie goes to the even integer, from either side. -/
theorem halfEven_tie (even : m % 2 = 0) :
    halfEven (m + 1 / 2) = m ∧ halfEven (m - 1 / 2) = m := by
  have upper : halfEven ((m : ℚ) + 1 / 2) = m := by
    rw [halfEven_near_integer (n := m) (by linarith) (by linarith), if_neg, add_zero]
    rintro (past | ⟨_, odd⟩)
    · linarith
    · omega
  have lower : halfEven ((m : ℚ) - 1 / 2) = m := by
    have above : ((m - 1 : ℤ) : ℚ) - 1 / 2 < m - 1 / 2 := by
      push_cast
      linarith
    have below : (m - 1 / 2 : ℚ) < (m - 1 : ℤ) + 3 / 2 := by
      push_cast
      linarith
    rw [halfEven_near_integer above below, if_pos, sub_add_cancel]
    exact .inr ⟨by push_cast; ring, by omega⟩
  exact ⟨upper, lower⟩

/-- A value is rounded below an even significand exactly where it lies more than half a unit
below it. A power of ten is approached from the smaller unit. -/
theorem roundSig_lt_even_significand (some_digit : 0 < digits) (even : m % 2 = 0)
    (lead : 10 ^ digits < m * 10) (top : m ≤ 10 ^ digits) (k : ℤ) (x : ℚ) :
    roundSig digits x < m * 10 ^ k ↔ x < (m - 1 / 2) * 10 ^ k := by
  have unit_pos : (0 : ℚ) < 10 ^ k := by positivity
  have leadSucc : ((10 ^ digits + 10 : ℤ) : ℚ) ≤ ((m * 10 : ℤ) : ℚ) := by
    exact_mod_cast significand_lead some_digit lead
  have topRat : (m : ℚ) ≤ ((10 ^ digits : ℤ) : ℚ) := by exact_mod_cast top
  push_cast at leadSucc topRat
  have power : (0 : ℚ) < 10 ^ digits := by positivity
  have positive : (0 : ℚ) < m * 10 ^ k := mul_pos (by linarith) unit_pos
  have tie : roundSig digits ((m - 1 / 2) * 10 ^ k) = m * 10 ^ k := by
    rw [roundSig_significand (by linarith) (by linarith), (halfEven_tie even).2]
  have quotient : x / 10 ^ k * 10 ^ k = x := div_mul_cancel₀ _ unit_pos.ne'
  refine ⟨fun less => ?_, fun short => ?_⟩
  · by_contra downTo
    have mono := roundSig_mono some_digit (mul_nonneg (by linarith) unit_pos.le) (not_lt.mp downTo)
    linarith
  · rcases le_total 0 x with nonneg | nonpos
    · -- a value between the previous integer and the tie, in the same decade
      obtain ⟨y, yShort, yPrevious, yGe⟩ :
          ∃ y : ℚ, y < m - 1 / 2 ∧ m - 3 / 4 ≤ y ∧ x ≤ y * 10 ^ k := by
        refine ⟨max (x / 10 ^ k) (m - 3 / 4), max_lt ?_ (by linarith), le_max_right _ _, ?_⟩
        · rwa [div_lt_iff₀ unit_pos]
        · exact quotient.ge.trans (mul_le_mul_of_nonneg_right (le_max_left _ _) unit_pos.le)
      have mono := roundSig_mono some_digit nonneg yGe
      rw [roundSig_significand (by linarith) (by linarith)] at mono
      have nearest := (abs_le.mp (abs_halfEven_sub_le y)).2
      exact mono.trans_lt (mul_lt_mul_of_pos_right (by linarith) unit_pos)
    · exact (roundSig_nonpos some_digit nonpos).trans_lt positive

/-- A value is rounded above an even significand exactly where it lies more than half a unit
above it. -/
theorem lt_roundSig_even_significand (some_digit : 0 < digits) (even : m % 2 = 0)
    (lead : 10 ^ digits < m * 10) (top : m < 10 ^ digits) (k : ℤ) (x : ℚ) :
    m * 10 ^ k < roundSig digits x ↔ (m + 1 / 2) * 10 ^ k < x := by
  have unit_pos : (0 : ℚ) < 10 ^ k := by positivity
  have leadSucc : ((10 ^ digits + 10 : ℤ) : ℚ) ≤ ((m * 10 : ℤ) : ℚ) := by
    exact_mod_cast significand_lead some_digit lead
  have topSucc : ((m + 1 : ℤ) : ℚ) ≤ ((10 ^ digits : ℤ) : ℚ) := by exact_mod_cast top
  push_cast at leadSucc topSucc
  have power : (0 : ℚ) < 10 ^ digits := by positivity
  have positive : (0 : ℚ) < m * 10 ^ k := mul_pos (by linarith) unit_pos
  have tie : roundSig digits ((m + 1 / 2) * 10 ^ k) = m * 10 ^ k := by
    rw [roundSig_significand (by linarith) (by linarith), (halfEven_tie even).1]
  have quotient : x / 10 ^ k * 10 ^ k = x := div_mul_cancel₀ _ unit_pos.ne'
  refine ⟨fun more => ?_, fun past => ?_⟩
  · by_contra upTo
    rcases le_total 0 x with nonneg | nonpos
    · have mono := roundSig_mono some_digit nonneg (not_lt.mp upTo)
      linarith
    · have mono := roundSig_nonpos some_digit nonpos
      linarith
  · -- a value between the tie and the next integer, in the same decade
    obtain ⟨y, yPast, yNext, yLe⟩ : ∃ y : ℚ, m + 1 / 2 < y ∧ y ≤ m + 3 / 4 ∧ y * 10 ^ k ≤ x := by
      refine ⟨min (x / 10 ^ k) (m + 3 / 4), lt_min ?_ (by linarith), min_le_right _ _, ?_⟩
      · rwa [lt_div_iff₀ unit_pos]
      · exact (mul_le_mul_of_nonneg_right (min_le_left _ _) unit_pos.le).trans quotient.le
    have mono := roundSig_mono some_digit (mul_nonneg (by linarith) unit_pos.le) yLe
    rw [roundSig_significand (by linarith) (by linarith)] at mono
    have nearest := (abs_le.mp (abs_halfEven_sub_le y)).1
    exact (mul_lt_mul_of_pos_right (by linarith) unit_pos).trans_le mono

end Neighbours

end Significant

/-- Whole multiples of `10 ^ -places`. -/
def Scaled (places : ℕ) (x : ℚ) : Prop := ∃ n : ℤ, x = n / 10 ^ places

namespace Scaled

variable {places : ℕ} {x y : ℚ}

theorem zero : Scaled places 0 := ⟨0, by simp⟩

/-- A positive number of few digits is at least one unit. -/
theorem unit_le (scaled : Scaled places x) (positive : 0 < x) : 1 / 10 ^ places ≤ x := by
  obtain ⟨n, rfl⟩ := scaled
  have unit_pos : (0 : ℚ) < 10 ^ places := by positivity
  have whole : 0 < n := by exact_mod_cast (div_pos_iff_of_pos_right unit_pos).mp positive
  exact div_le_div_of_nonneg_right (by exact_mod_cast whole) unit_pos.le

theorem add (left : Scaled places x) (right : Scaled places y) : Scaled places (x + y) := by
  obtain ⟨m, rfl⟩ := left
  obtain ⟨n, rfl⟩ := right
  exact ⟨m + n, by push_cast; ring⟩

theorem neg (scaled : Scaled places x) : Scaled places (-x) := by
  obtain ⟨n, rfl⟩ := scaled
  exact ⟨-n, by push_cast; ring⟩

theorem sub (left : Scaled places x) (right : Scaled places y) : Scaled places (x - y) := by
  simpa only [sub_eq_add_neg] using left.add right.neg

theorem mono {finer : ℕ} (scaled : Scaled places x) (le : places ≤ finer) : Scaled finer x := by
  obtain ⟨n, rfl⟩ := scaled
  obtain ⟨more, rfl⟩ := Nat.exists_eq_add_of_le le
  refine ⟨n * 10 ^ more, ?_⟩
  push_cast
  rw [pow_add, mul_div_mul_right _ _ (by positivity)]

theorem sum {l : List ℚ} (each : ∀ x ∈ l, Scaled places x) : Scaled places l.sum := by
  induction l with
  | nil => exact zero
  | cons head tail ih =>
      rw [List.sum_cons]
      exact (each head (by simp)).add (ih fun x member => each x (by simp [member]))

theorem iff_den : Scaled places x ↔ (x * 10 ^ places).den = 1 := by
  have unit_pos : (0 : ℚ) < 10 ^ places := by positivity
  constructor
  · rintro ⟨n, rfl⟩
    rw [div_mul_cancel₀ _ unit_pos.ne', Rat.den_intCast]
  · intro whole
    refine ⟨(x * 10 ^ places).num, ?_⟩
    rw [Rat.coe_int_num_of_den_eq_one whole, mul_div_cancel_right₀ _ unit_pos.ne']

instance : Decidable (Scaled places x) := decidable_of_iff _ iff_den.symm

/-- Scaled values that differ by less than one unit are ordered like their units. -/
theorem le_of_lt_add (left : Scaled places x) (right : Scaled places y)
    (near : x < y + 1 / 10 ^ places) : x ≤ y := by
  obtain ⟨m, rfl⟩ := left
  obtain ⟨n, rfl⟩ := right
  have unit_pos : (0 : ℚ) < 10 ^ places := by positivity
  rw [← add_div, div_lt_div_iff_of_pos_right unit_pos] at near
  have whole : m ≤ n := by
    have : m < n + 1 := by exact_mod_cast near
    omega
  exact div_le_div_of_nonneg_right (by exact_mod_cast whole) unit_pos.le

end Scaled

/-- A scaled value whose units fit the digits is not rounded. -/
theorem roundSig_of_scaled {digits places : ℕ} {x : ℚ} (scaled : Scaled places x)
    (fits : |x| < 10 ^ (digits - places : ℤ)) : roundSig digits x = x := by
  by_cases zero : x = 0
  · simp [zero]
  · obtain ⟨n, rfl⟩ := scaled
    set x : ℚ := (n : ℚ) / 10 ^ places with value
    have positive : 0 < |x| := abs_pos.mpr zero
    have leading : Int.log 10 |x| < (digits - places : ℤ) := by
      rw [← Int.lt_zpow_iff_log_lt (by norm_num) positive]
      exact_mod_cast fits
    obtain ⟨extra, gap⟩ : ∃ extra : ℕ, -(places : ℤ) = exponent digits x + extra := by
      refine ⟨(-(places : ℤ) - exponent digits x).toNat, ?_⟩
      have below : exponent digits x ≤ -(places : ℤ) := by
        unfold exponent
        omega
      omega
    have whole : x / 10 ^ exponent digits x = ((n * 10 ^ extra : ℤ) : ℚ) := by
      have unit : ((10 : ℚ) ^ places)⁻¹ = 10 ^ exponent digits x * 10 ^ extra := by
        rw [← zpow_natCast, ← zpow_neg, gap, zpow_add₀ (by norm_num), zpow_natCast]
      have nonzero : (10 : ℚ) ^ exponent digits x ≠ 0 := by positivity
      rw [div_eq_iff nonzero]
      calc
        x = n * ((10 : ℚ) ^ places)⁻¹ := div_eq_mul_inv _ _
        _ = ((n * 10 ^ extra : ℤ) : ℚ) * 10 ^ exponent digits x := by
          rw [unit]
          push_cast
          ring
    simp only [roundSig, zero, ↓reduceIte]
    rw [whole, halfEven_intCast, ← whole, div_mul_cancel₀ _ (by positivity)]

/-- Rounding to significant digits adds no places after the point. -/
theorem Scaled.roundSig {places : ℕ} {x : ℚ} (scaled : Scaled places x) (digits : ℕ) :
    Scaled places (roundSig digits x) := by
  by_cases fits : |x| < 10 ^ (digits - places : ℤ)
  · rwa [roundSig_of_scaled scaled fits]
  · have positive : 0 < |x| := lt_of_lt_of_le (by positivity) (not_lt.mp fits)
    have leading : (digits - places : ℤ) ≤ Int.log 10 |x| := by
      rw [← Int.zpow_le_iff_le_log (by norm_num) positive]
      exact_mod_cast not_lt.mp fits
    obtain ⟨extra, gap⟩ : ∃ extra : ℕ, exponent digits x = extra - places := by
      refine ⟨(exponent digits x + places).toNat, ?_⟩
      have above : -(places : ℤ) ≤ exponent digits x := by
        unfold exponent
        omega
      omega
    refine ⟨halfEven (x / 10 ^ exponent digits x) * 10 ^ extra, ?_⟩
    rw [Decimal.roundSig, if_neg (abs_pos.mp positive)]
    generalize halfEven (x / 10 ^ exponent digits x) = units
    rw [gap, zpow_sub₀ (by norm_num), zpow_natCast, zpow_natCast]
    push_cast
    ring

end FundPolymarket.Decimal
