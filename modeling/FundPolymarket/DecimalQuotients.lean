import FundPolymarket.DecimalContext

set_option autoImplicit false

/- A quotient of the context, multiplied by its divisor again: what comes back is not the
dividend where the quotient has been rounded down by too much. -/
namespace FundPolymarket.Decimal

/-- The power of ten that brings a quotient of at most one to all digits of the context. -/
def quotientShift (dividend divisor : ℕ) : ℕ := Nat.log 10 ((10 ^ prec * divisor - 1) / dividend)

/-- The dividend comes back, or more. The quotient is rounded up; or what is cut off from it
comes to at most half a unit of the last digit that the context has below the dividend. -/
def Recovers (dividend divisor : ℕ) : Prop :=
  let shift := quotientShift dividend divisor
  let cut := dividend * 10 ^ shift % divisor
  divisor < 2 * cut ∨ (2 * cut = divisor ∧ dividend * 10 ^ shift / divisor % 2 = 1) ∨
    2 * cut * 10 ^ prec ≤ 10 ^ (shift + Nat.clog 10 dividend)

instance (dividend divisor : ℕ) : Decidable (Recovers dividend divisor) :=
  inferInstanceAs (Decidable (_ ∨ _))

section Recovery

variable {n d places : ℕ}

theorem quotientShift_spec (some : 0 < n) (part : n ≤ d) :
    10 ^ prec * d ≤ n * 10 ^ quotientShift n d * 10 ∧
      n * 10 ^ quotientShift n d < 10 ^ prec * d := by
  have room : n ≤ 10 ^ prec * d - 1 := by
    have wide : 2 * d ≤ 10 ^ prec * d := Nat.mul_le_mul_right d (by norm_num [prec])
    omega
  have nonzero : (10 ^ prec * d - 1) / n ≠ 0 := (Nat.div_pos room some).ne'
  have fits := (Nat.le_div_iff_mul_le some).mp (Nat.pow_log_le_self 10 nonzero)
  have full := (Nat.div_lt_iff_lt_mul some).mp
    (Nat.lt_pow_succ_log_self (b := 10) (by norm_num) ((10 ^ prec * d - 1) / n))
  rw [← quotientShift] at fits full
  rw [pow_succ] at full
  have swap : 10 ^ quotientShift n d * 10 * n = n * 10 ^ quotientShift n d * 10 := by ring
  rw [swap] at full
  rw [mul_comm] at fits
  omega

/-- A quotient of integers is rounded to the one below, or past the half to the next. -/
theorem halfEven_quotient (divisorPos : 0 < d) (n : ℕ) :
    halfEven (n / d : ℚ) =
      ((n / d + if d < 2 * (n % d) ∨ 2 * (n % d) = d ∧ n / d % 2 = 1 then 1 else 0 : ℕ) : ℤ) := by
  have positive : (0 : ℚ) < d := by exact_mod_cast divisorPos
  have below := Nat.mod_lt n divisorPos
  have split : (n / d : ℚ) = ((n / d : ℕ) : ℤ) + (n % d : ℕ) / d := by
    have whole : (d : ℚ) * (n / d : ℕ) + (n % d : ℕ) = n := by exact_mod_cast Nat.div_add_mod n d
    rw [div_eq_iff positive.ne', add_mul, div_mul_cancel₀ _ positive.ne', Int.cast_natCast]
    linarith
  rw [split]
  generalize n / d = q
  generalize n % d = r at below ⊢
  have restNonneg : (0 : ℚ) ≤ r / d := by positivity
  have restBelow : (r : ℚ) / d < 1 := by
    rw [div_lt_one positive]
    exact_mod_cast below
  have past : (1 / 2 : ℚ) < r / d ↔ d < 2 * r := by
    rw [lt_div_iff₀ positive, ← @Nat.cast_lt ℚ]
    push_cast
    constructor <;> intro more <;> linarith
  have half : (r : ℚ) / d = 1 / 2 ↔ 2 * r = d := by
    rw [div_eq_iff positive.ne', ← @Nat.cast_inj ℚ]
    push_cast
    constructor <;> intro same <;> linarith
  have odd : (q : ℤ) % 2 = 1 ↔ q % 2 = 1 := by omega
  rw [halfEven_near_integer (n := q) (by linarith) (by linarith)]
  simp only [add_sub_cancel_left, past, half, odd]
  split_ifs <;> simp

/-- The quotient is the integer below the shifted one, or the next. -/
theorem div_eq_shifted (some : 0 < n) (part : n ≤ d) :
    div (n / 10 ^ places) (d / 10 ^ places) =
      (n * 10 ^ quotientShift n d / d +
        if d < 2 * (n * 10 ^ quotientShift n d % d) ∨
          2 * (n * 10 ^ quotientShift n d % d) = d ∧ n * 10 ^ quotientShift n d / d % 2 = 1
        then 1 else 0 : ℕ) / 10 ^ quotientShift n d := by
  obtain ⟨lead, top⟩ := @quotientShift_spec n d some part
  generalize quotientShift n d = shift at lead top ⊢
  have divisorPos : (0 : ℚ) < d := by exact_mod_cast some.trans_le part
  have unit : (10 : ℚ) ^ (-shift : ℤ) = 1 / 10 ^ shift := by
    rw [zpow_neg, zpow_natCast, one_div]
  have ratio : (n / 10 ^ places : ℚ) / (d / 10 ^ places) =
      ((n * 10 ^ shift : ℕ) / d : ℚ) * 10 ^ (-shift : ℤ) := by
    rw [unit]
    push_cast
    field_simp
  have leadRat : (10 : ℚ) ^ prec ≤ ((n * 10 ^ shift : ℕ) / d : ℚ) * 10 := by
    rw [div_mul_eq_mul_div, le_div_iff₀ divisorPos]
    exact_mod_cast lead
  have topRat : ((n * 10 ^ shift : ℕ) / d : ℚ) < 10 ^ prec := by
    rw [div_lt_iff₀ divisorPos]
    exact_mod_cast top
  rw [div, ratio, fix, roundSig_significand leadRat topRat, unit, mul_one_div,
    halfEven_quotient (some.trans_le part), Int.cast_natCast]

/-- The units in which the context writes a value just below the dividend. -/
theorem dividend_significand (some : 0 < n) (small : n ≤ 10 ^ 27) :
    ∃ rest, Nat.clog 10 n + (rest + 1) = prec ∧ 10 ^ prec < n * 10 ^ (rest + 1) * 10 ∧
      n * 10 ^ (rest + 1) ≤ 10 ^ prec := by
  have few : Nat.clog 10 n ≤ 27 := Nat.clog_le_of_le_pow small
  have upper := Nat.le_pow_clog (b := 10) (by norm_num) n
  have lower : 10 ^ Nat.clog 10 n < n * 10 := by
    rcases Nat.lt_or_ge 1 n with more | one
    · have previous := Nat.pow_pred_clog_lt_self (b := 10) (by norm_num) more
      have positive : 0 < Nat.clog 10 n := Nat.clog_pos (by norm_num) more
      obtain ⟨less, same⟩ := Nat.exists_eq_add_of_le' positive
      rw [same] at previous ⊢
      rw [pow_succ]
      exact Nat.mul_lt_mul_of_pos_right previous (by norm_num)
    · have same : n = 1 := by omega
      simp [same]
  obtain ⟨rest, total⟩ := Nat.exists_eq_add_of_le few
  have powers : 10 ^ prec = 10 ^ Nat.clog 10 n * 10 ^ (rest + 1) := by
    rw [← pow_add, prec]
    congr 1
    omega
  refine ⟨rest, by rw [prec]; omega, ?_, ?_⟩
  · rw [powers]
    calc
      10 ^ Nat.clog 10 n * 10 ^ (rest + 1) < n * 10 * 10 ^ (rest + 1) :=
        Nat.mul_lt_mul_of_pos_right lower (by positivity)
      _ = n * 10 ^ (rest + 1) * 10 := by ring
  · rw [powers]
    exact Nat.mul_le_mul_right _ upper

/-- What falls short of the dividend is rounded to it from half a unit away. -/
theorem dividend_le_fix (some : 0 < n) (small : n ≤ 10 ^ 27) (x : ℚ) :
    (n / 10 ^ places : ℚ) ≤ fix x ↔
      (n / 10 ^ places : ℚ) - 10 ^ Nat.clog 10 n / (2 * 10 ^ prec * 10 ^ places) ≤ x := by
  obtain ⟨rest, total, lead, top⟩ := @dividend_significand n some small
  have even : (n * 10 ^ (rest + 1) : ℤ) % 2 = 0 := by
    have twice : (n * 10 ^ (rest + 1) : ℤ) = 2 * (n * 10 ^ rest * 5) := by ring
    rw [twice, Int.mul_emod_right]
  have below := @roundSig_lt_even_significand prec _ (by decide) even
    (by exact_mod_cast lead) (by exact_mod_cast top) (-(rest + 1 + places) : ℤ) x
  have unit : (10 : ℚ) ^ (-(rest + 1 + places) : ℤ) = 1 / (10 ^ (rest + 1) * 10 ^ places) := by
    rw [zpow_neg, ← pow_add, one_div]
    norm_cast
  have whole : ((n * 10 ^ (rest + 1) : ℤ) : ℚ) * (1 / (10 ^ (rest + 1) * 10 ^ places)) =
      n / 10 ^ places := by
    push_cast
    field_simp
  have powers : (10 : ℚ) ^ prec = 10 ^ Nat.clog 10 n * 10 ^ (rest + 1) := by
    rw [← pow_add, total]
  have tie : (((n * 10 ^ (rest + 1) : ℤ) : ℚ) - 1 / 2) * (1 / (10 ^ (rest + 1) * 10 ^ places)) =
      n / 10 ^ places - 10 ^ Nat.clog 10 n / (2 * 10 ^ prec * 10 ^ places) := by
    rw [powers]
    push_cast
    field_simp
  rw [unit, whole, tie, ← fix] at below
  rw [← not_lt, below, not_lt]

/-- Multiplied by the divisor again, a quotient of the context comes to the dividend or more
exactly where the dividend recovers. -/
theorem le_mul_div_iff (some : 0 < n) (part : n ≤ d) (small : n ≤ 10 ^ 27) :
    (n / 10 ^ places : ℚ) ≤ mul (d / 10 ^ places) (div (n / 10 ^ places) (d / 10 ^ places)) ↔
      Recovers n d := by
  have divisorPos : 0 < d := some.trans_le part
  have whole := Nat.div_add_mod (n * 10 ^ quotientShift n d) d
  have below := Nat.mod_lt (n * 10 ^ quotientShift n d) divisorPos
  rw [mul, dividend_le_fix some small, div_eq_shifted some part]
  simp only [Recovers]
  generalize quotientShift n d = shift at whole below ⊢
  generalize n * 10 ^ shift / d = q at whole ⊢
  generalize n * 10 ^ shift % d = r at whole below ⊢
  have wholeRat : (d : ℚ) * q + r = n * 10 ^ shift := by exact_mod_cast whole
  have shiftPos : (0 : ℚ) < 10 ^ shift := by positivity
  have placesPos : (0 : ℚ) < 10 ^ places := by positivity
  have nonneg : (0 : ℚ) ≤ 10 ^ Nat.clog 10 n / (2 * 10 ^ prec * 10 ^ places) := by positivity
  by_cases up : d < 2 * r ∨ 2 * r = d ∧ q % 2 = 1
  · -- rounded up, the product is not below the dividend
    have belowRat : (r : ℚ) ≤ d := by exact_mod_cast below.le
    rw [if_pos up, ← or_assoc, or_iff_left_of_imp (fun _ => up)]
    refine iff_of_true ?_ up
    have covers : (n / 10 ^ places : ℚ) ≤ d / 10 ^ places * (((q + 1 : ℕ) : ℚ) / 10 ^ shift) := by
      rw [div_mul_div_comm, div_le_div_iff₀ placesPos (mul_pos placesPos shiftPos)]
      push_cast
      nlinarith
    linarith
  · -- rounded down, the product lacks what has been cut off
    rw [if_neg up, ← or_assoc, or_iff_right up]
    have lacks : (d / 10 ^ places : ℚ) * (((q + 0 : ℕ) : ℚ) / 10 ^ shift) =
        n / 10 ^ places - r / (10 ^ shift * 10 ^ places) := by
      push_cast
      field_simp
      linarith
    have doubled : (0 : ℚ) < 2 * 10 ^ prec * 10 ^ places * 10 ^ shift := by positivity
    rw [lacks, sub_le_sub_iff_left, ← mul_le_mul_iff_left₀ doubled, ← @Nat.cast_le ℚ]
    have left : (r / (10 ^ shift * 10 ^ places) : ℚ) * (2 * 10 ^ prec * 10 ^ places * 10 ^ shift) =
        2 * r * 10 ^ prec := by field_simp
    have right : (10 ^ Nat.clog 10 n / (2 * 10 ^ prec * 10 ^ places) : ℚ) *
        (2 * 10 ^ prec * 10 ^ places * 10 ^ shift) = 10 ^ (shift + Nat.clog 10 n) := by
      rw [pow_add]
      field_simp
    rw [left, right]
    push_cast
    rfl

-- A third of the pool comes back a unit of the last digit short, a sixth of it does not.
example : ¬ Recovers 10000 30000 ∧ Recovers 10000 60000 := by decide +kernel

end Recovery

end FundPolymarket.Decimal
