import FundPolymarket.Parimutuel

set_option autoImplicit false

/- The published probabilities: three shares rounded on their own, and what is missing
from one, or too much, put on the leader. -/
namespace FundPolymarket

open Decimal (Scaled unitRoundoff)

/-- An outcome's share in ten-thousandths, rounded half-up. -/
def roundedUnits (byOutcome : Outcome → ℚ) (total : ℚ) (outcome : Outcome) : ℤ :=
  Decimal.halfUp (Decimal.div (byOutcome outcome) total * 10 ^ 4)

/-- What the rounded shares leave to be absorbed, in ten-thousandths. -/
def driftUnits (byOutcome : Outcome → ℚ) (total : ℚ) : ℤ :=
  10 ^ 4 - (roundedUnits byOutcome total .buy + roundedUnits byOutcome total .sell +
    roundedUnits byOutcome total .hold)

/-- The rounded share, and the drift where the outcome leads. -/
def publishedUnits (byOutcome : Outcome → ℚ) (total : ℚ) (outcome : Outcome) : ℤ :=
  roundedUnits byOutcome total outcome +
    if outcome = leader byOutcome then driftUnits byOutcome total else 0

section Leader

theorem leader_spec (weight : Outcome → ℚ) (outcome : Outcome) :
    weight outcome ≤ weight (leader weight) := by
  obtain ⟨first, found⟩ : ∃ first, allOutcomes.argmax weight = some first := by
    rw [← Option.ne_none_iff_exists', Ne, List.argmax_eq_none]
    simp [allOutcomes]
  have leads : leader weight = first := by rw [leader, found, Option.getD_some]
  rw [leads]
  exact List.le_of_mem_argmax (mem_allOutcomes outcome) found

theorem winners_cons (s : Stake) (rest : List Stake) (outcome : Outcome) :
    winners (s :: rest) outcome =
      if s.outcome = outcome ∧ 0 < s.amount then s :: winners rest outcome
      else winners rest outcome := by
  rw [winners, List.filter_cons]
  simp only [decide_eq_true_eq, winners]

/-- An outcome holds the decimal sum of its positive rows. -/
theorem stakeByOutcome_eq (stakes : List Stake) (outcome : Outcome) :
    stakeByOutcome stakes outcome = winningPool stakes outcome := by
  have general : ∀ start : Outcome → ℚ,
      stakes.foldl (fun byOutcome s =>
        if s.amount ≤ 0 then byOutcome
        else fun outcome =>
          if outcome = s.outcome then Decimal.add (byOutcome outcome) s.amount
          else byOutcome outcome) start outcome =
        ((winners stakes outcome).map Stake.amount).foldl Decimal.add (start outcome) := by
    induction stakes with
    | nil => exact fun _ => rfl
    | cons s rest ih =>
        intro start
        rw [List.foldl_cons, ih, winners_cons]
        by_cases skipped : s.amount ≤ 0
        · rw [if_pos skipped, if_neg fun counts => absurd counts.2 (not_lt.mpr skipped)]
        · rw [if_neg skipped]
          by_cases own : s.outcome = outcome
          · rw [if_pos own.symm, if_pos ⟨own, not_le.mp skipped⟩, List.map_cons, List.foldl_cons]
          · rw [if_neg fun same => own same.symm, if_neg fun counts => own counts.1]
  exact general fun _ => 0

theorem stakeByOutcome_nonneg (stakes : List Stake) (outcome : Outcome) :
    0 ≤ stakeByOutcome stakes outcome := by
  rw [stakeByOutcome_eq]
  apply Decimal.sum_nonneg
  intro amount member
  obtain ⟨s, won, rfl⟩ := List.mem_map.mp member
  exact (winners_pos won).le

theorem stakeByOutcome_pos {stakes : List Stake} {s : Stake} (member : s ∈ stakes)
    (positive : 0 < s.amount) : 0 < stakeByOutcome stakes s.outcome := by
  have won : s ∈ winners stakes s.outcome := by
    rw [winners, List.mem_filter, decide_eq_true_eq]
    exact ⟨member, rfl, positive⟩
  have nonneg : ∀ x ∈ (winners stakes s.outcome).map Stake.amount, 0 ≤ x := by
    intro amount listed
    obtain ⟨other, otherWon, rfl⟩ := List.mem_map.mp listed
    exact (winners_pos otherWon).le
  have exact_pos : 0 < ((winners stakes s.outcome).map Stake.amount).sum :=
    positive.trans_le (List.single_le_sum nonneg _ (List.mem_map_of_mem won))
  have summed := Decimal.near_foldl_add le_rfl nonneg
  rw [zero_add] at summed
  rw [stakeByOutcome_eq]
  exact lt_of_lt_of_le (mul_pos exact_pos (RelativeError.pow_one_sub_pos Decimal.roundoff _))
    (summed.le_mul_pow exact_pos.le).1

end Leader

section Shares

variable {byOutcome : Outcome → ℚ}

/-- The three outcomes together, without rounding. -/
def allStaked (byOutcome : Outcome → ℚ) : ℚ :=
  byOutcome .buy + byOutcome .sell + byOutcome .hold

/-- Three rounded additions move the total by very little. -/
theorem total_near (nonneg : ∀ o, 0 ≤ byOutcome o) :
    allStaked byOutcome * (1 - 1 / 10 ^ 26) ≤ Decimal.sum (allOutcomes.map byOutcome) ∧
      Decimal.sum (allOutcomes.map byOutcome) ≤ allStaked byOutcome * (1 + 1 / 10 ^ 26) := by
  have each : ∀ x ∈ allOutcomes.map byOutcome, 0 ≤ x := by
    intro x member
    obtain ⟨outcome, _, rfl⟩ := List.mem_map.mp member
    exact nonneg outcome
  have total_eq : 0 + (allOutcomes.map byOutcome).sum = allStaked byOutcome := by
    simp [allOutcomes, allStaked, add_assoc]
  have stakedNonneg : 0 ≤ allStaked byOutcome :=
    add_nonneg (add_nonneg (nonneg _) (nonneg _)) (nonneg _)
  have summed := Decimal.near_foldl_add le_rfl each
  rw [total_eq] at summed
  obtain ⟨low, high⟩ := summed.le_mul_pow stakedNonneg
  constructor
  · refine le_trans (mul_le_mul_of_nonneg_left ?_ stakedNonneg) low
    norm_num [allOutcomes, unitRoundoff]
  · refine high.trans (mul_le_mul_of_nonneg_left ?_ stakedNonneg)
    norm_num [allOutcomes, unitRoundoff]

/-- The quotients add up to one but for the rounding. -/
theorem quotients_near (nonneg : ∀ o, 0 ≤ byOutcome o)
    (positive : 0 < Decimal.sum (allOutcomes.map byOutcome)) :
    |Decimal.div (byOutcome .buy) (Decimal.sum (allOutcomes.map byOutcome)) +
        Decimal.div (byOutcome .sell) (Decimal.sum (allOutcomes.map byOutcome)) +
        Decimal.div (byOutcome .hold) (Decimal.sum (allOutcomes.map byOutcome)) - 1| <
      1 / 10 ^ 20 := by
  obtain ⟨low, high⟩ := total_near nonneg
  set total : ℚ := Decimal.sum (allOutcomes.map byOutcome)
  have ratio : ∀ o, 0 ≤ byOutcome o / total := fun o => div_nonneg (nonneg o) positive.le
  have each_le : ∀ o, Decimal.div (byOutcome o) total ≤ byOutcome o / total * (1 + unitRoundoff) :=
    fun o => Decimal.fix_le (ratio o)
  have le_each : ∀ o, byOutcome o / total * (1 - unitRoundoff) ≤ Decimal.div (byOutcome o) total :=
    fun o => Decimal.le_fix (ratio o)
  have parts : byOutcome .buy / total + byOutcome .sell / total + byOutcome .hold / total =
      allStaked byOutcome / total := by
    rw [allStaked]
    ring
  have upper : allStaked byOutcome / total ≤ 1 + 1 / 10 ^ 25 := by
    rw [div_le_iff₀ positive]
    linarith
  have lower : 1 - 1 / 10 ^ 25 ≤ allStaked byOutcome / total := by
    rw [le_div_iff₀ positive]
    linarith
  have unit_eq : unitRoundoff = 5 / 10 ^ 28 := rfl
  rw [unit_eq] at each_le le_each
  have buyLow := le_each .buy
  have sellLow := le_each .sell
  have holdLow := le_each .hold
  have buyHigh := each_le .buy
  have sellHigh := each_le .sell
  have holdHigh := each_le .hold
  rw [abs_lt]
  constructor <;> linarith

/-- Three roundings to the nearest miss one by at most a ten-thousandth. -/
theorem driftUnits_bounds (nonneg : ∀ o, 0 ≤ byOutcome o)
    (positive : 0 < Decimal.sum (allOutcomes.map byOutcome)) :
    -1 ≤ driftUnits byOutcome (Decimal.sum (allOutcomes.map byOutcome)) ∧
      driftUnits byOutcome (Decimal.sum (allOutcomes.map byOutcome)) ≤ 1 := by
  obtain ⟨low, high⟩ := abs_lt.mp (quotients_near nonneg positive)
  set total : ℚ := Decimal.sum (allOutcomes.map byOutcome)
  have rounded : ∀ o, Decimal.div (byOutcome o) total * 10 ^ 4 - 1 / 2 <
        (roundedUnits byOutcome total o : ℚ) ∧
      (roundedUnits byOutcome total o : ℚ) ≤ Decimal.div (byOutcome o) total * 10 ^ 4 + 1 / 2 :=
    fun o => Decimal.halfUp_bounds
      (mul_nonneg (Decimal.fix_nonneg (div_nonneg (nonneg o) positive.le)) (by norm_num))
  obtain ⟨buyLow, buyHigh⟩ := rounded .buy
  obtain ⟨sellLow, sellHigh⟩ := rounded .sell
  obtain ⟨holdLow, holdHigh⟩ := rounded .hold
  have above : (-2 : ℚ) < driftUnits byOutcome total := by
    rw [driftUnits]
    push_cast
    linarith
  have below : (driftUnits byOutcome total : ℚ) < 2 := by
    rw [driftUnits]
    push_cast
    linarith
  have aboveInt : -2 < driftUnits byOutcome total := by exact_mod_cast above
  have belowInt : driftUnits byOutcome total < 2 := by exact_mod_cast below
  omega

theorem roundedUnits_nonneg (nonneg : ∀ o, 0 ≤ byOutcome o) {total : ℚ} (positive : 0 < total)
    (outcome : Outcome) : 0 ≤ roundedUnits byOutcome total outcome :=
  Decimal.halfUp_nonneg_of_nonneg
    (mul_nonneg (Decimal.fix_nonneg (div_nonneg (nonneg outcome) positive.le)) (by norm_num))

/-- Bigger stakes have bigger rounded shares. -/
theorem roundedUnits_mono (nonneg : ∀ o, 0 ≤ byOutcome o) {total : ℚ} (positive : 0 < total)
    {smaller larger : Outcome} (le : byOutcome smaller ≤ byOutcome larger) :
    roundedUnits byOutcome total smaller ≤ roundedUnits byOutcome total larger := by
  have ratio := div_nonneg (nonneg smaller) positive.le
  have quotient : Decimal.div (byOutcome smaller) total ≤ Decimal.div (byOutcome larger) total :=
    Decimal.fix_mono ratio (div_le_div_of_nonneg_right le positive.le)
  exact Decimal.halfUp_mono (mul_nonneg (Decimal.fix_nonneg ratio) (by norm_num))
    (mul_le_mul_of_nonneg_right quotient (by norm_num))

theorem roundedUnits_le (nonneg : ∀ o, 0 ≤ byOutcome o)
    (positive : 0 < Decimal.sum (allOutcomes.map byOutcome)) (outcome : Outcome) :
    roundedUnits byOutcome (Decimal.sum (allOutcomes.map byOutcome)) outcome ≤ 10001 := by
  have drift := driftUnits_bounds nonneg positive
  have unitsNonneg := fun o => roundedUnits_nonneg nonneg positive o
  have buy := unitsNonneg .buy
  have sell := unitsNonneg .sell
  have hold := unitsNonneg .hold
  rw [driftUnits] at drift
  cases outcome <;> omega

theorem fix_units {x : ℤ} (small : |x| < 10 ^ 20) :
    Decimal.fix ((x : ℚ) / 10 ^ 4) = x / 10 ^ 4 := by
  apply Decimal.fix_of_scaled ⟨x, rfl⟩
  have bound : |(x : ℚ)| < 10 ^ 20 := by exact_mod_cast small
  rw [abs_div, abs_of_pos (by norm_num : (0 : ℚ) < 10 ^ 4)]
  norm_num [Decimal.prec]
  linarith

theorem q_share (nonneg : ∀ o, 0 ≤ byOutcome o)
    (positive : 0 < Decimal.sum (allOutcomes.map byOutcome)) (outcome : Outcome) :
    q (Decimal.div (byOutcome outcome) (Decimal.sum (allOutcomes.map byOutcome))) 4 .halfUp =
      .ok ((roundedUnits byOutcome (Decimal.sum (allOutcomes.map byOutcome)) outcome : ℚ) /
        10 ^ 4) := by
  have le := roundedUnits_le nonneg positive outcome
  have unitsNonneg := roundedUnits_nonneg nonneg positive outcome
  have fits : (Decimal.Rounding.halfUp.toInt
      (Decimal.div (byOutcome outcome) (Decimal.sum (allOutcomes.map byOutcome)) *
        10 ^ 4)).natAbs < 10 ^ Decimal.prec := by
    have room : 10001 < 10 ^ Decimal.prec := by norm_num [Decimal.prec]
    have units : Decimal.Rounding.halfUp.toInt
        (Decimal.div (byOutcome outcome) (Decimal.sum (allOutcomes.map byOutcome)) * 10 ^ 4) =
      roundedUnits byOutcome (Decimal.sum (allOutcomes.map byOutcome)) outcome := rfl
    omega
  rw [q, Decimal.quantize_of_fits fits]
  rfl

/-- The drift is what the exact sum of the rounded shares misses. -/
theorem sub_rounded (nonneg : ∀ o, 0 ≤ byOutcome o)
    (positive : 0 < Decimal.sum (allOutcomes.map byOutcome)) :
    Decimal.sub 1 (Decimal.sum (allOutcomes.map fun outcome =>
      (roundedUnits byOutcome (Decimal.sum (allOutcomes.map byOutcome)) outcome : ℚ) / 10 ^ 4)) =
      (driftUnits byOutcome (Decimal.sum (allOutcomes.map byOutcome)) : ℚ) / 10 ^ 4 := by
  have drift := driftUnits_bounds nonneg positive
  have unitsNonneg := fun o => roundedUnits_nonneg nonneg positive o
  set total : ℚ := Decimal.sum (allOutcomes.map byOutcome)
  have together : (allOutcomes.map fun outcome =>
      (roundedUnits byOutcome total outcome : ℚ) / 10 ^ 4).sum =
        1 - (driftUnits byOutcome total : ℚ) / 10 ^ 4 := by
    rw [driftUnits]
    push_cast
    simp only [allOutcomes, List.map_cons, List.map_nil, List.sum_cons, List.sum_nil]
    ring
  have scaled : ∀ x ∈ allOutcomes.map fun outcome =>
      (roundedUnits byOutcome total outcome : ℚ) / 10 ^ 4, Scaled 4 x := by
    intro x member
    obtain ⟨outcome, _, rfl⟩ := List.mem_map.mp member
    exact ⟨_, rfl⟩
  have eachNonneg : ∀ x ∈ allOutcomes.map fun outcome =>
      (roundedUnits byOutcome total outcome : ℚ) / 10 ^ 4, 0 ≤ x := by
    intro x member
    obtain ⟨outcome, _, rfl⟩ := List.mem_map.mp member
    exact div_nonneg (by exact_mod_cast unitsNonneg outcome) (by norm_num)
  rw [Decimal.sum_scaled scaled eachNonneg, together, Decimal.sub, sub_sub_cancel]
  · exact fix_units (abs_lt.mpr (by omega))
  · have least : (-1 : ℚ) ≤ driftUnits byOutcome total := by exact_mod_cast drift.1
    rw [together]
    norm_num [Decimal.prec]
    linarith

theorem add_drift (nonneg : ∀ o, 0 ≤ byOutcome o)
    (positive : 0 < Decimal.sum (allOutcomes.map byOutcome)) (outcome : Outcome) :
    Decimal.add
        ((roundedUnits byOutcome (Decimal.sum (allOutcomes.map byOutcome)) outcome : ℚ) / 10 ^ 4)
        ((driftUnits byOutcome (Decimal.sum (allOutcomes.map byOutcome)) : ℚ) / 10 ^ 4) =
      ((roundedUnits byOutcome (Decimal.sum (allOutcomes.map byOutcome)) outcome +
        driftUnits byOutcome (Decimal.sum (allOutcomes.map byOutcome)) : ℤ) : ℚ) / 10 ^ 4 := by
  have drift := driftUnits_bounds nonneg positive
  have le := roundedUnits_le nonneg positive outcome
  have unitsNonneg := roundedUnits_nonneg nonneg positive outcome
  rw [Decimal.add, ← add_div, ← Int.cast_add]
  exact fix_units (abs_lt.mpr (by omega))

/-- The probabilities over any three rounded shares. -/
theorem probabilities_of_rounded {total : ℚ} {rounded : Outcome → ℚ}
    (quantized : ∀ o, q (Decimal.div (byOutcome o) total) 4 .halfUp = .ok (rounded o)) :
    probabilities byOutcome total =
      let drift := Decimal.sub 1 (Decimal.sum (allOutcomes.map rounded))
      .ok fun outcome =>
        if drift ≠ 0 ∧ outcome = leader byOutcome then Decimal.add (rounded outcome) drift
        else rounded outcome := by
  rw [probabilities, quantized, quantized, quantized]
  exact congrArg (fun r : Outcome → ℚ =>
    let drift := Decimal.sub 1 (Decimal.sum (allOutcomes.map r))
    (.ok fun outcome =>
      if drift ≠ 0 ∧ outcome = leader byOutcome then Decimal.add (r outcome) drift
      else r outcome : Except AppError (Outcome → ℚ)))
    (funext fun outcome => by cases outcome <;> rfl)

/-- The probabilities that are published, in closed form. -/
theorem probabilities_eq (nonneg : ∀ o, 0 ≤ byOutcome o)
    (positive : 0 < Decimal.sum (allOutcomes.map byOutcome)) :
    probabilities byOutcome (Decimal.sum (allOutcomes.map byOutcome)) =
      .ok fun outcome =>
        (publishedUnits byOutcome (Decimal.sum (allOutcomes.map byOutcome)) outcome : ℚ) /
          10 ^ 4 := by
  have add_eq := add_drift nonneg positive
  rw [probabilities_of_rounded (q_share nonneg positive), sub_rounded nonneg positive]
  set total : ℚ := Decimal.sum (allOutcomes.map byOutcome)
  refine congrArg Except.ok (funext fun outcome => ?_)
  rw [publishedUnits]
  by_cases leads : outcome = leader byOutcome
  · by_cases none : driftUnits byOutcome total = 0
    · simp [none]
    · simp [leads, none, add_eq]
  · simp [leads]

end Shares

section Order

variable {byOutcome : Outcome → ℚ}

/-- Two outcomes round to one share, and the drift lowers the larger or lifts the smaller. -/
def DriftReverses (byOutcome : Outcome → ℚ) (total : ℚ) (smaller larger : Outcome) : Prop :=
  smaller ≠ larger ∧ roundedUnits byOutcome total smaller = roundedUnits byOutcome total larger ∧
    (leader byOutcome = smaller ∧ 0 < driftUnits byOutcome total ∨
      leader byOutcome = larger ∧ driftUnits byOutcome total < 0)

instance (byOutcome : Outcome → ℚ) (total : ℚ) (smaller larger : Outcome) :
    Decidable (DriftReverses byOutcome total smaller larger) :=
  inferInstanceAs (Decidable (_ ∧ _ ∧ (_ ∧ _ ∨ _ ∧ _)))

/-- The drift is one unit at most, so it reverses no more than a tie of rounded shares. -/
theorem publishedUnits_le_iff (nonneg : ∀ o, 0 ≤ byOutcome o)
    (positive : 0 < Decimal.sum (allOutcomes.map byOutcome)) {smaller larger : Outcome}
    (le : byOutcome smaller ≤ byOutcome larger) :
    publishedUnits byOutcome (Decimal.sum (allOutcomes.map byOutcome)) smaller ≤
        publishedUnits byOutcome (Decimal.sum (allOutcomes.map byOutcome)) larger ↔
      ¬ DriftReverses byOutcome (Decimal.sum (allOutcomes.map byOutcome)) smaller larger := by
  have drift := driftUnits_bounds nonneg positive
  have rounded_le := roundedUnits_mono nonneg positive le
  have tie : smaller = leader byOutcome →
      roundedUnits byOutcome (Decimal.sum (allOutcomes.map byOutcome)) larger ≤
        roundedUnits byOutcome (Decimal.sum (allOutcomes.map byOutcome)) smaller := fun leads =>
    roundedUnits_mono nonneg positive (leads ▸ leader_spec byOutcome larger)
  set total : ℚ := Decimal.sum (allOutcomes.map byOutcome)
  rw [publishedUnits, publishedUnits, DriftReverses]
  generalize leader byOutcome = first at tie ⊢
  by_cases same : smaller = larger
  · simp [same]
  have differs : larger ≠ smaller := fun swapped => same swapped.symm
  by_cases smallerLeads : first = smaller
  · subst smallerLeads
    have rounded_ge := tie rfl
    simp only [same, differs, ↓reduceIte, ne_eq, not_false_eq_true, true_and, false_and, or_false,
      add_zero]
    omega
  · by_cases largerLeads : first = larger
    · subst largerLeads
      simp only [same, differs, ↓reduceIte, ne_eq, not_false_eq_true, true_and, false_and,
        false_or, add_zero]
      omega
    · have smallerNot : smaller ≠ first := fun leads => smallerLeads leads.symm
      have largerNot : larger ≠ first := fun leads => largerLeads leads.symm
      simp only [smallerLeads, largerLeads, smallerNot, largerNot, ↓reduceIte, add_zero, false_and,
        or_self, and_false, not_false_eq_true, iff_true]
      exact rounded_le

theorem publishedUnits_le_succ (nonneg : ∀ o, 0 ≤ byOutcome o)
    (positive : 0 < Decimal.sum (allOutcomes.map byOutcome)) {smaller larger : Outcome}
    (le : byOutcome smaller ≤ byOutcome larger) :
    publishedUnits byOutcome (Decimal.sum (allOutcomes.map byOutcome)) smaller ≤
      publishedUnits byOutcome (Decimal.sum (allOutcomes.map byOutcome)) larger + 1 := by
  have drift := driftUnits_bounds nonneg positive
  have rounded_le := roundedUnits_mono nonneg positive le
  by_cases same : smaller = larger
  · rw [same]
    omega
  · rw [publishedUnits, publishedUnits]
    split
    · rename_i leads
      rw [if_neg fun other => same (leads.trans other.symm)]
      omega
    · split <;> omega

end Order

section Published

variable {stakes : List Stake}

/-- The consensus depends on the stake of every outcome and on the number of participants. -/
theorem computeConsensus_congr {others : List Stake}
    (byOutcome : stakeByOutcome stakes = stakeByOutcome others)
    (participants : participantCount stakes = participantCount others) :
    computeConsensus stakes = computeConsensus others := by
  rw [computeConsensus, computeConsensus, byOutcome, participants]

theorem total_pos (staked : 0 < pool (positiveStakes stakes)) :
    0 < Decimal.sum (allOutcomes.map (stakeByOutcome stakes)) := by
  obtain ⟨s, member, positive⟩ : ∃ s ∈ stakes, 0 < s.amount := by
    by_contra nobody
    have empty : positiveStakes stakes = [] := by
      rw [positiveStakes, List.filter_eq_nil_iff]
      intro s member
      rw [decide_eq_true_eq]
      exact fun positive => nobody ⟨s, member, positive⟩
    rw [empty] at staked
    exact absurd staked (by simp [pool])
  have nonneg := stakeByOutcome_nonneg stakes
  have some_pos := stakeByOutcome_pos member positive
  have all_pos : 0 < allStaked (stakeByOutcome stakes) := by
    have buy := nonneg .buy
    have sell := nonneg .sell
    have hold := nonneg .hold
    rw [allStaked]
    revert some_pos
    cases s.outcome <;> intro some_pos <;> linarith
  exact lt_of_lt_of_le (mul_pos all_pos (by norm_num)) (total_near nonneg).1

/-- The consensus of a market with a stake, in closed form. -/
theorem computeConsensus_eq (staked : 0 < pool (positiveStakes stakes)) :
    computeConsensus stakes = .ok
      { stakeByOutcome := stakeByOutcome stakes
        totalStake := Decimal.sum (allOutcomes.map (stakeByOutcome stakes))
        participantCount := participantCount stakes
        probabilities := fun outcome => (publishedUnits (stakeByOutcome stakes)
          (Decimal.sum (allOutcomes.map (stakeByOutcome stakes))) outcome : ℚ) / 10 ^ 4 } := by
  have positive := total_pos staked
  rw [computeConsensus, shares, if_pos positive,
    probabilities_eq (stakeByOutcome_nonneg stakes) positive]
  rfl

theorem leadingProbability_eq {consensus : Consensus} (positive : 0 < consensus.totalStake) :
    consensus.leadingProbability =
      consensus.probabilities (leader consensus.stakeByOutcome) := by
  rw [Consensus.leadingProbability, Consensus.leadingOutcome, if_neg (not_le.mpr positive)]

theorem computeConsensus_none (nothing : ¬ 0 < Decimal.sum (allOutcomes.map
    (stakeByOutcome stakes))) :
    computeConsensus stakes = .ok
      { stakeByOutcome := stakeByOutcome stakes
        totalStake := Decimal.sum (allOutcomes.map (stakeByOutcome stakes))
        participantCount := participantCount stakes
        probabilities := fun _ => 0 } := by
  rw [computeConsensus, shares, if_neg nothing]
  rfl

/-- Published probabilities are ordered like the stakes but for a drift that decides
between equal rounded shares, and then they are a ten-thousandth apart. -/
theorem probabilities_ordered (staked : 0 < pool (positiveStakes stakes)) :
    ∃ consensus, computeConsensus stakes = .ok consensus ∧
      (∀ smaller larger, consensus.stakeByOutcome smaller ≤ consensus.stakeByOutcome larger →
        (consensus.probabilities smaller ≤ consensus.probabilities larger ↔
          ¬ DriftReverses consensus.stakeByOutcome consensus.totalStake smaller larger) ∧
        consensus.probabilities smaller ≤ consensus.probabilities larger + 1 / 10 ^ 4) ∧
      ((∀ outcome, consensus.probabilities outcome ≤ consensus.leadingProbability) ↔
        ∀ outcome, ¬ DriftReverses consensus.stakeByOutcome consensus.totalStake outcome
          (leader consensus.stakeByOutcome)) := by
  have positive := total_pos staked
  have nonneg := stakeByOutcome_nonneg stakes
  have published_le : ∀ smaller larger,
      stakeByOutcome stakes smaller ≤ stakeByOutcome stakes larger →
      ((publishedUnits (stakeByOutcome stakes) (Decimal.sum (allOutcomes.map
          (stakeByOutcome stakes))) smaller : ℚ) / 10 ^ 4 ≤
        (publishedUnits (stakeByOutcome stakes) (Decimal.sum (allOutcomes.map
          (stakeByOutcome stakes))) larger : ℚ) / 10 ^ 4 ↔
        ¬ DriftReverses (stakeByOutcome stakes) (Decimal.sum (allOutcomes.map
          (stakeByOutcome stakes))) smaller larger) := by
    intro smaller larger le
    rw [div_le_div_iff_of_pos_right (by norm_num), Int.cast_le]
    exact publishedUnits_le_iff nonneg positive le
  refine ⟨_, computeConsensus_eq staked, fun smaller larger le =>
    ⟨published_le smaller larger le, ?_⟩, ?_⟩
  · have le_succ := publishedUnits_le_succ nonneg positive le
    rw [← add_div, div_le_div_iff_of_pos_right (by norm_num)]
    exact_mod_cast le_succ
  · rw [leadingProbability_eq positive]
    exact forall_congr' fun outcome =>
      published_le outcome (leader (stakeByOutcome stakes)) (leader_spec _ outcome)

theorem probabilities_ordered_uneven :
    ∃ consensus, computeConsensus [⟨1, .buy, 620⟩, ⟨2, .sell, 110⟩, ⟨3, .hold, 270⟩] =
        .ok consensus ∧ consensus.probabilities .sell ≤ consensus.probabilities .hold := by
  obtain ⟨consensus, computed, ordered, _⟩ :=
    @probabilities_ordered [⟨1, .buy, 620⟩, ⟨2, .sell, 110⟩, ⟨3, .hold, 270⟩] (by decide +kernel)
  refine ⟨consensus, computed, ?_⟩
  rw [computeConsensus_eq (by decide +kernel)] at computed
  cases computed
  exact ((ordered .sell .hold (by decide +kernel)).1).mpr (by decide +kernel)

/-- A tie of three is not published as a tie, and two leaders on the edge of a rounding
are published with the first below the second. -/
theorem probabilities_not_ordered_ties :
    (∃ consensus, computeConsensus [⟨1, .buy, 100⟩, ⟨2, .sell, 100⟩, ⟨3, .hold, 100⟩] =
        .ok consensus ∧ consensus.stakeByOutcome .buy ≤ consensus.stakeByOutcome .sell ∧
      ¬ consensus.probabilities .buy ≤ consensus.probabilities .sell) ∧
    ∃ consensus, computeConsensus [⟨1, .buy, 33335⟩, ⟨2, .sell, 33335⟩, ⟨3, .hold, 33330⟩] =
        .ok consensus ∧ ¬ consensus.probabilities .sell ≤ consensus.leadingProbability := by
  constructor
  · exact ⟨_, computeConsensus_eq (by decide +kernel), by decide +kernel, by decide +kernel⟩
  · exact ⟨_, computeConsensus_eq (by decide +kernel), by decide +kernel⟩

end Published

section Exact

variable {stakes : List Stake}

/-- Every row that counts is staked on one of the three outcomes. -/
theorem pool_outcomes (stakes : List Stake) :
    allStaked (fun outcome => pool (winners stakes outcome)) = pool (positiveStakes stakes) := by
  induction stakes with
  | nil => simp [allStaked, pool, winners, positiveStakes]
  | cons s rest ih =>
      simp only [allStaked, positiveStakes, winners_cons, List.filter_cons, pool] at ih ⊢
      by_cases positive : 0 < s.amount
      · cases own : s.outcome <;> simp [positive] <;> linarith
      · simp only [positive, and_false, ↓reduceIte, decide_false, Bool.false_eq_true]
        exact ih

/-- Stakes in cents add up without rounding. -/
theorem stakeByOutcome_exact (cents : CentStakes (positiveStakes stakes)) :
    stakeByOutcome stakes = fun outcome => pool (winners stakes outcome) := by
  funext outcome
  rw [stakeByOutcome_eq, ← winners_positiveStakes, ← winningPool_eq cents, winningPool, winningPool,
    winners_positiveStakes]

theorem total_exact (cents : CentStakes (positiveStakes stakes)) :
    Decimal.sum (allOutcomes.map (stakeByOutcome stakes)) = pool (positiveStakes stakes) := by
  have together : (allOutcomes.map fun outcome => pool (winners stakes outcome)).sum =
      pool (positiveStakes stakes) := by
    rw [← pool_outcomes]
    simp [allOutcomes, allStaked, add_assoc]
  have part : ∀ outcome, CentStakes (winners stakes outcome) := by
    intro outcome
    rw [← winners_positiveStakes]
    exact (cents.filter _).1
  rw [stakeByOutcome_exact cents, Decimal.sum_exact, together]
  · intro x member
    obtain ⟨outcome, _, rfl⟩ := List.mem_map.mp member
    exact (part outcome).pool_scaled
  · intro x member
    obtain ⟨outcome, _, rfl⟩ := List.mem_map.mp member
    exact (part outcome).pool_nonneg
  · have small := cents.small
    rw [together]
    linarith

/-- A total that overflows its column also does so when it is rounded. -/
theorem total_large (cents : ∀ s ∈ stakes, Scaled 2 s.amount)
    (large : 10 ^ 16 ≤ pool (positiveStakes stakes)) :
    10 ^ 16 ≤ Decimal.sum (allOutcomes.map (stakeByOutcome stakes)) := by
  have fixed : Decimal.fix (10 ^ 16) = 10 ^ 16 :=
    Decimal.fix_of_cents ⟨10 ^ 18, by norm_num⟩ (by norm_num)
  rcases lt_or_ge (pool (positiveStakes stakes)) (10 ^ 24) with small | huge
  · rw [total_exact (positiveStakes_cents cents small)]
    exact large
  · obtain ⟨outcome, most⟩ : ∃ outcome, 10 ^ 16 ≤ pool (winners stakes outcome) := by
      by_contra few
      push Not at few
      have buy := few .buy
      have sell := few .sell
      have hold := few .hold
      rw [← pool_outcomes, allStaked] at huge
      linarith
    refine Decimal.le_foldl_add_of_mem fixed (by norm_num) le_rfl ?_
      (List.mem_map_of_mem (mem_allOutcomes outcome)) ?_
    · intro x member
      obtain ⟨other, _, rfl⟩ := List.mem_map.mp member
      exact stakeByOutcome_nonneg stakes other
    · rw [stakeByOutcome_eq]
      refine Decimal.le_foldl_add_of_sum fixed (by norm_num) (by norm_num) Scaled.zero le_rfl
        ?_ ?_ ?_
      · intro x member
        obtain ⟨s, won, rfl⟩ := List.mem_map.mp member
        exact cents s (List.mem_filter.mp won).1
      · intro x member
        obtain ⟨s, won, rfl⟩ := List.mem_map.mp member
        exact (winners_pos won).le
      · rw [zero_add]
        exact most

/-- A total that its column accepts is stored as it is. -/
theorem storedTotal_exact (cents : ∀ s ∈ stakes, Scaled 2 s.amount)
    {stored : Decimal.Numeric 18 2} (result : Decimal.Numeric.ofDecimal 18 2
      (Decimal.sum (allOutcomes.map (stakeByOutcome stakes))) = some stored) :
    stored.val = Decimal.sum (allOutcomes.map (stakeByOutcome stakes)) := by
  rcases lt_or_ge (pool (positiveStakes stakes)) (10 ^ 16) with small | large
  · have exact := positiveStakes_cents cents (small.trans (by norm_num))
    apply Decimal.Numeric.val_ofDecimal _ result
    rw [total_exact exact]
    exact exact.pool_scaled
  · have total_ge := total_large cents large
    have below := Decimal.Numeric.lt_of_ofDecimal (by linarith) result
    norm_num at below
    linarith

/-- Twenty-eight digits are enough to round a share of a stored total to four places. -/
theorem roundedUnits_exact {byOutcome : Outcome → ℚ} {total : ℚ} {outcome : Outcome}
    (stakeScaled : Scaled 2 (byOutcome outcome)) (totalScaled : Scaled 2 total)
    (nonneg : 0 ≤ byOutcome outcome) (part : byOutcome outcome ≤ total) (positive : 0 < total)
    (small : total < 10 ^ 16) :
    roundedUnits byOutcome total outcome = ⌊byOutcome outcome / total * 10 ^ 4 + 1 / 2⌋ := by
  set ratio : ℚ := byOutcome outcome / total with ratioDef
  have ratioNonneg : 0 ≤ ratio := div_nonneg nonneg positive.le
  have ratio_le : ratio ≤ 1 := (div_le_one positive).mpr part
  obtain ⟨a, a_eq⟩ := stakeScaled
  obtain ⟨t, t_eq⟩ := totalScaled
  have tRatPos : (0 : ℚ) < t := by
    rw [t_eq] at positive
    exact (div_pos_iff_of_pos_right (by norm_num)).mp positive
  have t_lt : (t : ℚ) < 10 ^ 18 := by
    rw [t_eq] at small
    linarith
  have quotient_eq : ratio * 10 ^ 4 = ((10 ^ 4 * a : ℤ) : ℚ) / t := by
    rw [ratioDef, a_eq, t_eq, div_div_div_cancel_right₀ (by norm_num)]
    push_cast
    ring
  rw [← Decimal.halfUp_nonneg (mul_nonneg ratioNonneg (by norm_num)), quotient_eq, roundedUnits]
  refine Decimal.halfUp_near_quotient (by exact_mod_cast tRatPos) ?_ ?_
  · have error := Decimal.abs_fix_sub_le ratio
    rw [abs_of_nonneg ratioNonneg] at error
    have apart : (1 : ℚ) / 10 ^ 19 < 1 / (2 * t) :=
      one_div_lt_one_div_of_lt (by linarith) (by linarith)
    have unit_eq : unitRoundoff = 5 / 10 ^ 28 := rfl
    rw [unit_eq] at error
    rw [← quotient_eq, ← sub_mul, abs_mul, abs_of_pos (by norm_num : (0 : ℚ) < 10 ^ 4)]
    refine lt_trans ?_ apart
    rw [Decimal.div]
    linarith
  · intro k tie
    rw [← quotient_eq] at tie ⊢
    have short : Scaled 5 ratio := by
      refine ⟨5 * (2 * k + 1), ?_⟩
      rw [eq_div_iff (by norm_num)]
      push_cast
      linarith
    have same : Decimal.div (byOutcome outcome) total = ratio := by
      apply Decimal.fix_of_scaled short
      rw [abs_of_nonneg ratioNonneg]
      norm_num [Decimal.prec]
      linarith
    rw [same]

/-- One minus the other outcomes' shares, each rounded half-up to four places. -/
def publishedProbability (weight : Outcome → ℚ) (total : ℚ) (outcome : Outcome) : ℚ :=
  1 - ((allOutcomes.filter fun other => other ≠ outcome).map fun other =>
    (⌊weight other / total * 10 ^ 4 + 1 / 2⌋ : ℚ) / 10 ^ 4).sum

/-- The leader is published with what the others leave. -/
theorem publishedUnits_leader (byOutcome : Outcome → ℚ) (total : ℚ) :
    (publishedUnits byOutcome total (leader byOutcome) : ℚ) / 10 ^ 4 =
      1 - ((allOutcomes.filter fun other => other ≠ leader byOutcome).map fun other =>
        (roundedUnits byOutcome total other : ℚ) / 10 ^ 4).sum := by
  rw [publishedUnits, if_pos rfl, driftUnits]
  push_cast
  cases leader byOutcome <;> simp [allOutcomes] <;> ring

/-- What is published is at most a ten-thousandth from the share. -/
theorem publishedProbability_near {weight : Outcome → ℚ} {total : ℚ}
    (together : allStaked weight = total) (positive : 0 < total) (outcome : Outcome) :
    |publishedProbability weight total outcome - weight outcome / total| ≤ 1 / 10 ^ 4 := by
  have parts : weight .buy / total + weight .sell / total + weight .hold / total = 1 := by
    rw [← add_div, ← add_div, div_eq_one_iff_eq positive.ne', ← together, allStaked]
  have rounded : ∀ other, weight other / total * 10 ^ 4 - 1 / 2 <
        (⌊weight other / total * 10 ^ 4 + 1 / 2⌋ : ℚ) ∧
      (⌊weight other / total * 10 ^ 4 + 1 / 2⌋ : ℚ) ≤ weight other / total * 10 ^ 4 + 1 / 2 := by
    intro other
    have low := Int.floor_le (weight other / total * 10 ^ 4 + 1 / 2)
    have high := Int.lt_floor_add_one (weight other / total * 10 ^ 4 + 1 / 2)
    constructor <;> linarith
  obtain ⟨buyLow, buyHigh⟩ := rounded .buy
  obtain ⟨sellLow, sellHigh⟩ := rounded .sell
  obtain ⟨holdLow, holdHigh⟩ := rounded .hold
  generalize buyUnits : ⌊weight .buy / total * 10 ^ 4 + 1 / 2⌋ = buy at buyLow buyHigh
  generalize sellUnits : ⌊weight .sell / total * 10 ^ 4 + 1 / 2⌋ = sell at sellLow sellHigh
  generalize holdUnits : ⌊weight .hold / total * 10 ^ 4 + 1 / 2⌋ = hold at holdLow holdHigh
  rw [publishedProbability, abs_le]
  cases outcome <;>
    simp only [allOutcomes, List.filter_cons, List.filter_nil, ne_eq, reduceCtorEq,
      not_true_eq_false, not_false_eq_true, decide_true, decide_false, Bool.false_eq_true,
      ↓reduceIte, List.map_cons, List.map_nil, List.sum_cons, List.sum_nil, buyUnits, sellUnits,
      holdUnits] <;>
    constructor <;> linarith

end Exact

end FundPolymarket
