import FundPolymarket.Consensus

set_option autoImplicit false

/- The verdict on a market. Its return is divided with 28 digits and rounded to four
places; for prices that their columns hold, that is the exact return rounded once. -/
namespace FundPolymarket

open Decimal (Scaled unitRoundoff)
open RelativeError (growth)

/-- The return in percent. -/
def exactReturn (referencePrice resolutionPrice : ℚ) : ℚ :=
  (resolutionPrice - referencePrice) / referencePrice * 100

/-- The return that is judged: half-up to four places. -/
def roundedReturn (referencePrice resolutionPrice : ℚ) : ℚ :=
  (Decimal.halfUp (exactReturn referencePrice resolutionPrice * 10 ^ 4) : ℚ) / 10 ^ 4

/-- The return in the arithmetic of the context, before it is rounded to four places. -/
def computedReturn (referencePrice resolutionPrice : ℚ) : ℚ :=
  Decimal.mul (Decimal.div (Decimal.sub resolutionPrice referencePrice) referencePrice) 100

section Return

variable {referencePrice resolutionPrice : ℚ}

/-- Two rounded operations, against the exact ones. -/
theorem computed_near (change : ℚ) :
    |Decimal.mul (Decimal.fix change) 100 - change * 100| ≤ |change| * (2 / 10 ^ 25) := by
  have near := ((Decimal.near_fix change).mul_right 100).trans Decimal.roundoff
    (Decimal.near_fix _)
  have grown : 100 * growth unitRoundoff 2 ≤ 2 / 10 ^ 25 := by norm_num [growth, unitRoundoff]
  calc
    |Decimal.mul (Decimal.fix change) 100 - change * 100|
      ≤ |change * 100| * growth unitRoundoff 2 := near.abs_sub_le Decimal.roundoff
    _ = |change| * (100 * growth unitRoundoff 2) := by
        rw [abs_mul, abs_of_pos (by norm_num : (0 : ℚ) < 100), mul_assoc]
    _ ≤ |change| * (2 / 10 ^ 25) := mul_le_mul_of_nonneg_left grown (abs_nonneg change)

/-- A return on the edge of a rounding has few digits, and is computed exactly. -/
theorem computed_exact {change : ℚ} (scaled : Scaled 7 change) (small : |change| < 10 ^ 19) :
    Decimal.mul (Decimal.fix change) 100 = change * 100 := by
  have fixed : Decimal.fix change = change :=
    Decimal.fix_of_scaled scaled (by norm_num [Decimal.prec]; linarith)
  obtain ⟨n, n_eq⟩ := scaled
  rw [fixed, Decimal.mul]
  have shifted : Scaled 5 (change * 100) := ⟨n, by rw [n_eq]; ring⟩
  apply Decimal.fix_of_scaled shifted
  rw [abs_mul, abs_of_pos (by norm_num : (0 : ℚ) < 100)]
  norm_num [Decimal.prec]
  linarith

theorem sub_prices (referenceScaled : Scaled 4 referencePrice)
    (resolutionScaled : Scaled 4 resolutionPrice) (referencePos : 0 < referencePrice)
    (referenceFits : referencePrice < 10 ^ 14) (resolutionFits : |resolutionPrice| < 10 ^ 14) :
    Decimal.sub resolutionPrice referencePrice = resolutionPrice - referencePrice := by
  obtain ⟨low, high⟩ := abs_lt.mp resolutionFits
  apply Decimal.fix_of_scaled (resolutionScaled.sub referenceScaled)
  norm_num [Decimal.prec]
  rw [abs_lt]
  constructor <;> linarith

/-- Prices of fourteen digits differ by at most twice as much. -/
theorem abs_change_lt (referencePos : 0 < referencePrice) (referenceFits : referencePrice < 10 ^ 14)
    (resolutionFits : |resolutionPrice| < 10 ^ 14) :
    |(resolutionPrice - referencePrice) / referencePrice| < 2 * 10 ^ 14 / referencePrice := by
  obtain ⟨low, high⟩ := abs_lt.mp resolutionFits
  rw [abs_div, abs_of_pos referencePos]
  refine div_lt_div_of_pos_right (abs_lt.mpr ⟨?_, ?_⟩) referencePos <;> linarith

theorem abs_change_small (referenceScaled : Scaled 4 referencePrice)
    (referencePos : 0 < referencePrice) (referenceFits : referencePrice < 10 ^ 14)
    (resolutionFits : |resolutionPrice| < 10 ^ 14) :
    |(resolutionPrice - referencePrice) / referencePrice| < 2 * 10 ^ 18 := by
  have least := referenceScaled.unit_le referencePos
  refine (abs_change_lt referencePos referenceFits resolutionFits).trans_le ?_
  rw [div_le_iff₀ referencePos]
  linarith

/-- The return is a quotient of whole numbers: ten-thousandths of the prices. -/
theorem exactReturn_units {reference resolution : ℤ}
    (reference_eq : referencePrice = reference / 10 ^ 4)
    (resolution_eq : resolutionPrice = resolution / 10 ^ 4) :
    exactReturn referencePrice resolutionPrice * 10 ^ 4 =
      ((10 ^ 6 * (resolution - reference) : ℤ) : ℚ) / reference := by
  rw [exactReturn, reference_eq, resolution_eq, ← sub_div,
    div_div_div_cancel_right₀ (by norm_num)]
  push_cast
  ring

/-- The error of the context does not change the rounding to four places. -/
theorem halfUp_computedReturn (referenceScaled : Scaled 4 referencePrice)
    (resolutionScaled : Scaled 4 resolutionPrice) (referencePos : 0 < referencePrice)
    (referenceFits : referencePrice < 10 ^ 14) (resolutionFits : |resolutionPrice| < 10 ^ 14) :
    Decimal.halfUp (computedReturn referencePrice resolutionPrice * 10 ^ 4) =
      Decimal.halfUp (exactReturn referencePrice resolutionPrice * 10 ^ 4) := by
  have difference := sub_prices referenceScaled resolutionScaled referencePos referenceFits
    resolutionFits
  have changeBound := abs_change_lt referencePos referenceFits resolutionFits
  have changeSmall := abs_change_small referenceScaled referencePos referenceFits resolutionFits
  obtain ⟨reference, reference_eq⟩ := referenceScaled
  obtain ⟨resolution, resolution_eq⟩ := resolutionScaled
  have units := exactReturn_units reference_eq resolution_eq
  have unitsPos : (0 : ℚ) < reference := by
    rw [reference_eq] at referencePos
    exact (div_pos_iff_of_pos_right (by norm_num)).mp referencePos
  have bound_eq : 2 * 10 ^ 14 / referencePrice = 2 * 10 ^ 18 / (reference : ℚ) := by
    rw [reference_eq, div_div_eq_mul_div]
    norm_num
  rw [bound_eq] at changeBound
  set change : ℚ := (resolutionPrice - referencePrice) / referencePrice with changeDef
  have computed_eq : computedReturn referencePrice resolutionPrice =
      Decimal.mul (Decimal.fix change) 100 := by
    rw [computedReturn, difference]
    rfl
  rw [units, computed_eq]
  refine Decimal.halfUp_near_quotient (by exact_mod_cast unitsPos) ?_ ?_
  · have near := computed_near change
    rw [← units, exactReturn, ← changeDef, ← sub_mul, abs_mul,
      abs_of_pos (by norm_num : (0 : ℚ) < 10 ^ 4)]
    calc
      |Decimal.mul (Decimal.fix change) 100 - change * 100| * 10 ^ 4
        ≤ 2 * 10 ^ 18 / (reference : ℚ) * (2 / 10 ^ 25) * 10 ^ 4 := by
          refine mul_le_mul_of_nonneg_right (near.trans ?_) (by norm_num)
          exact mul_le_mul_of_nonneg_right changeBound.le (by norm_num)
      _ = 4 / 10 ^ 3 / (reference : ℚ) := by ring
      _ < 1 / 2 / (reference : ℚ) := (div_lt_div_iff_of_pos_right unitsPos).mpr (by norm_num)
      _ = 1 / (2 * (reference : ℚ)) := by rw [div_div]
  · intro k half
    rw [← units, exactReturn, ← changeDef] at half ⊢
    have scaled : Scaled 7 change := ⟨10 * k + 5, by push_cast; linarith⟩
    rw [computed_exact scaled (by linarith)]

theorem abs_exactReturn_lt (referenceScaled : Scaled 4 referencePrice)
    (referencePos : 0 < referencePrice) (referenceFits : referencePrice < 10 ^ 14)
    (resolutionFits : |resolutionPrice| < 10 ^ 14) :
    |exactReturn referencePrice resolutionPrice| < 10 ^ 21 := by
  have change := abs_change_small referenceScaled referencePos referenceFits resolutionFits
  rw [exactReturn, abs_mul, abs_of_pos (by norm_num : (0 : ℚ) < 100)]
  linarith

/-- The rounded return is a return that fits the context. -/
theorem q_computedReturn (referenceScaled : Scaled 4 referencePrice)
    (resolutionScaled : Scaled 4 resolutionPrice) (referencePos : 0 < referencePrice)
    (referenceFits : referencePrice < 10 ^ 14) (resolutionFits : |resolutionPrice| < 10 ^ 14) :
    q (computedReturn referencePrice resolutionPrice) 4 .halfUp =
      .ok (roundedReturn referencePrice resolutionPrice) := by
  have rounded : Decimal.Rounding.halfUp.toInt
      (computedReturn referencePrice resolutionPrice * 10 ^ 4) =
        Decimal.halfUp (exactReturn referencePrice resolutionPrice * 10 ^ 4) :=
    halfUp_computedReturn referenceScaled resolutionScaled referencePos referenceFits resolutionFits
  have fits : (Decimal.Rounding.halfUp.toInt
      (computedReturn referencePrice resolutionPrice * 10 ^ 4)).natAbs < 10 ^ Decimal.prec := by
    obtain ⟨sizeLow, sizeHigh⟩ := abs_lt.mp
      (abs_exactReturn_lt referenceScaled referencePos referenceFits resolutionFits)
    obtain ⟨low, high⟩ := abs_le.mp (Decimal.abs_halfUp_sub_le
      (exactReturn referencePrice resolutionPrice * 10 ^ 4))
    rw [rounded, Decimal.prec]
    generalize Decimal.halfUp (exactReturn referencePrice resolutionPrice * 10 ^ 4) = units
      at low high ⊢
    have above : (-10 ^ 28 : ℚ) < units := by linarith
    have below : (units : ℚ) < 10 ^ 28 := by linarith
    have aboveInt : -10 ^ 28 < units := by exact_mod_cast above
    have belowInt : units < 10 ^ 28 := by exact_mod_cast below
    omega
  rw [q, Decimal.quantize_of_fits fits, rounded]
  rfl

/-- A return that reaches a threshold of few digits also does so when it is rounded. -/
theorem le_roundedReturn {threshold : ℚ} (scaled : Scaled 4 threshold)
    (reached : threshold ≤ exactReturn referencePrice resolutionPrice) :
    threshold ≤ roundedReturn referencePrice resolutionPrice := by
  obtain ⟨n, rfl⟩ := scaled
  rw [roundedReturn]
  refine div_le_div_of_nonneg_right ?_ (by norm_num)
  obtain ⟨low, _⟩ := abs_le.mp (Decimal.abs_halfUp_sub_le
    (exactReturn referencePrice resolutionPrice * 10 ^ 4))
  generalize Decimal.halfUp (exactReturn referencePrice resolutionPrice * 10 ^ 4) = units at low ⊢
  have above : (n - 1 : ℚ) < units := by linarith
  have whole : n - 1 < units := by exact_mod_cast above
  exact_mod_cast Int.le_of_sub_one_lt whole

theorem roundedReturn_le {threshold : ℚ} (scaled : Scaled 4 threshold)
    (reached : exactReturn referencePrice resolutionPrice ≤ threshold) :
    roundedReturn referencePrice resolutionPrice ≤ threshold := by
  obtain ⟨n, rfl⟩ := scaled
  rw [roundedReturn]
  refine div_le_div_of_nonneg_right ?_ (by norm_num)
  obtain ⟨_, high⟩ := abs_le.mp (Decimal.abs_halfUp_sub_le
    (exactReturn referencePrice resolutionPrice * 10 ^ 4))
  generalize Decimal.halfUp (exactReturn referencePrice resolutionPrice * 10 ^ 4) = units at high ⊢
  have below : (units : ℚ) < n + 1 := by linarith
  have whole : units < n + 1 := by exact_mod_cast below
  exact_mod_cast Int.le_of_lt_add_one whole

theorem roundedReturn_near (referencePrice resolutionPrice : ℚ) :
    |roundedReturn referencePrice resolutionPrice - exactReturn referencePrice resolutionPrice| ≤
      5 / 10 ^ 5 := by
  obtain ⟨low, high⟩ := abs_le.mp (Decimal.abs_halfUp_sub_le
    (exactReturn referencePrice resolutionPrice * 10 ^ 4))
  rw [roundedReturn]
  generalize Decimal.halfUp (exactReturn referencePrice resolutionPrice * 10 ^ 4) = units
    at low high ⊢
  rw [abs_le]
  constructor <;> linarith

end Return

section Verdict

variable {referencePrice resolutionPrice buyThresholdPct sellThresholdPct : ℚ}

theorem resolveOutcome_eq (referencePos : 0 < referencePrice) {returnPct : ℚ}
    (rounded : q (computedReturn referencePrice resolutionPrice) 4 .halfUp = .ok returnPct) :
    resolveOutcome referencePrice resolutionPrice buyThresholdPct sellThresholdPct =
      .ok (if buyThresholdPct ≤ returnPct then .buy
        else if returnPct ≤ sellThresholdPct then .sell else .hold, returnPct) := by
  rw [resolveOutcome, raiseIf_bind_eq_ok]
  refine ⟨not_le.mpr referencePos, bind_eq_ok.mpr ⟨returnPct, rounded, ?_⟩⟩
  split
  · rfl
  · split <;> rfl

/-- The verdict is that of the exact return rounded to four places. It misses the verdict
of the exact return only where that is short of a threshold by half a unit or less. -/
theorem resolveOutcome_rounded (referenceScaled : Scaled 4 referencePrice)
    (resolutionScaled : Scaled 4 resolutionPrice) (referencePos : 0 < referencePrice)
    (referenceFits : referencePrice < 10 ^ 14) (resolutionFits : |resolutionPrice| < 10 ^ 14)
    (buyScaled : Scaled 2 buyThresholdPct) (sellScaled : Scaled 2 sellThresholdPct)
    (ordered : sellThresholdPct < buyThresholdPct) :
    ∃ outcome, resolveOutcome referencePrice resolutionPrice buyThresholdPct sellThresholdPct =
        .ok (outcome, roundedReturn referencePrice resolutionPrice) ∧
      (outcome = .buy ↔ buyThresholdPct ≤ roundedReturn referencePrice resolutionPrice) ∧
      (outcome = .sell ↔ roundedReturn referencePrice resolutionPrice ≤ sellThresholdPct) ∧
      (outcome = .hold ↔ sellThresholdPct < roundedReturn referencePrice resolutionPrice ∧
        roundedReturn referencePrice resolutionPrice < buyThresholdPct) ∧
      (buyThresholdPct ≤ exactReturn referencePrice resolutionPrice → outcome = .buy) ∧
      (outcome = .buy →
        buyThresholdPct - 5 / 10 ^ 5 ≤ exactReturn referencePrice resolutionPrice) ∧
      (exactReturn referencePrice resolutionPrice ≤ sellThresholdPct → outcome = .sell) ∧
      (outcome = .sell →
        exactReturn referencePrice resolutionPrice ≤ sellThresholdPct + 5 / 10 ^ 5) := by
  have computed := q_computedReturn referenceScaled resolutionScaled referencePos referenceFits
    resolutionFits
  obtain ⟨low, high⟩ := abs_le.mp (roundedReturn_near referencePrice resolutionPrice)
  have buyFine : Scaled 4 buyThresholdPct := buyScaled.mono (by norm_num)
  have sellFine : Scaled 4 sellThresholdPct := sellScaled.mono (by norm_num)
  have reachesBuy := @le_roundedReturn referencePrice resolutionPrice _ buyFine
  have reachesSell := @roundedReturn_le referencePrice resolutionPrice _ sellFine
  refine ⟨_, resolveOutcome_eq referencePos computed, ?_⟩
  by_cases buys : buyThresholdPct ≤ roundedReturn referencePrice resolutionPrice
  · have notSell : ¬ roundedReturn referencePrice resolutionPrice ≤ sellThresholdPct := by linarith
    have above : ¬ exactReturn referencePrice resolutionPrice ≤ sellThresholdPct :=
      fun below => notSell (reachesSell below)
    simp [buys, notSell, above]
    linarith
  · have short : ¬ buyThresholdPct ≤ exactReturn referencePrice resolutionPrice :=
      fun reached => buys (reachesBuy reached)
    by_cases sells : roundedReturn referencePrice resolutionPrice ≤ sellThresholdPct
    · simp [buys, sells, short]
      linarith
    · have above : ¬ exactReturn referencePrice resolutionPrice ≤ sellThresholdPct :=
        fun below => sells (reachesSell below)
      simp [buys, sells, short, above, not_le.mp buys, not_le.mp sells]

theorem resolveOutcome_rounded_threshold :
    ∃ outcome, resolveOutcome 10000 10300 3 (-3) = .ok (outcome, roundedReturn 10000 10300) ∧
      outcome = .buy := by
  obtain ⟨outcome, resolved, buys, _⟩ := @resolveOutcome_rounded 10000 10300 3 (-3)
    ⟨10 ^ 8, by norm_num⟩ ⟨103 * 10 ^ 6, by norm_num⟩ (by norm_num) (by norm_num)
    (by norm_num [abs_of_pos]) ⟨300, by norm_num⟩ ⟨-300, by norm_num⟩ (by norm_num)
  exact ⟨outcome, resolved, buys.mpr (by decide +kernel)⟩

/-- A return that is short of three percent is judged as three percent, and a return of
more digits than the context has is not judged at all. -/
theorem resolveOutcome_not_exact :
    resolveOutcome 1000000 (10299999999 / 10000) 3 (-3) = .ok (.buy, 3) ∧
      ¬ 3 * (1000000 : ℚ) ≤ (10299999999 / 10000 - 1000000) * 100 ∧
      resolveOutcome (1 / 10000) (10 ^ 22) 3 (-3) = .error .invalidOperation := by
  decide +kernel

end Verdict

end FundPolymarket
