import FundPolymarket.Probabilities

set_option autoImplicit false

/- Stakes in cents are published as a distribution: the shares of the pool, each rounded
to four places, with the leader closing the sum. -/
namespace FundPolymarket

open Decimal (Scaled)

section Exact

variable {stakes : List Stake}

/-- The part of the pool that is staked on an outcome. -/
def stakeShare (stakes : List Stake) (outcome : Outcome) : ℚ :=
  pool (winners stakes outcome) / pool (positiveStakes stakes)

/-- The consensus of stakes in cents, in exact arithmetic. -/
theorem computeConsensus_exact (cents : CentStakes (positiveStakes stakes))
    (staked : 0 < pool (positiveStakes stakes)) :
    computeConsensus stakes = .ok
      { stakeByOutcome := fun outcome => pool (winners stakes outcome)
        totalStake := pool (positiveStakes stakes)
        participantCount := participantCount stakes
        probabilities := fun outcome => (publishedUnits (fun o => pool (winners stakes o))
          (pool (positiveStakes stakes)) outcome : ℚ) / 10 ^ 4 } := by
  rw [computeConsensus_eq staked, total_exact cents, stakeByOutcome_exact cents]

theorem winners_part (cents : CentStakes (positiveStakes stakes)) (outcome : Outcome) :
    CentStakes (winners stakes outcome) ∧
      pool (winners stakes outcome) ≤ pool (positiveStakes stakes) := by
  rw [← winners_positiveStakes]
  exact cents.filter _

theorem stakeShare_sum (staked : 0 < pool (positiveStakes stakes)) :
    stakeShare stakes .buy + stakeShare stakes .sell + stakeShare stakes .hold = 1 := by
  simp only [stakeShare]
  rw [← add_div, ← add_div, div_eq_one_iff_eq staked.ne', ← pool_outcomes, allStaked]

/-- The first of three shares is no less than a third. -/
theorem third_le_stakeShare (staked : 0 < pool (positiveStakes stakes)) :
    1 / 3 ≤ stakeShare stakes (leader fun outcome => pool (winners stakes outcome)) := by
  set first := leader fun outcome => pool (winners stakes outcome)
  have most : ∀ outcome, stakeShare stakes outcome ≤ stakeShare stakes first := fun outcome =>
    div_le_div_of_nonneg_right (leader_spec (fun o => pool (winners stakes o)) outcome) staked.le
  have buy := most .buy
  have sell := most .sell
  have hold := most .hold
  have together := stakeShare_sum staked
  linarith

end Exact

section Distribution

variable {stakes : List Stake}

/-- The published probabilities add up to one, in any state of the rounding. -/
theorem publishedUnits_sum (byOutcome : Outcome → ℚ) (total : ℚ) :
    publishedUnits byOutcome total .buy + publishedUnits byOutcome total .sell +
      publishedUnits byOutcome total .hold = 10 ^ 4 := by
  simp only [publishedUnits, driftUnits]
  cases leader byOutcome <;> simp only [reduceCtorEq, ↓reduceIte] <;> ring

/-- Shares of a storable pool are rounded half-up from their exact values. -/
theorem roundedUnits_stakeShare (cents : CentStakes (positiveStakes stakes))
    (staked : 0 < pool (positiveStakes stakes)) (small : pool (positiveStakes stakes) < 10 ^ 16)
    (outcome : Outcome) :
    roundedUnits (fun o => pool (winners stakes o)) (pool (positiveStakes stakes)) outcome =
      ⌊stakeShare stakes outcome * 10 ^ 4 + 1 / 2⌋ :=
  have part := winners_part cents outcome
  roundedUnits_exact part.1.pool_scaled cents.pool_scaled part.1.pool_nonneg part.2 staked small

theorem published_near (cents : CentStakes (positiveStakes stakes))
    (staked : 0 < pool (positiveStakes stakes)) (small : pool (positiveStakes stakes) < 10 ^ 16)
    {outcome : Outcome} (follows : outcome ≠ leader fun o => pool (winners stakes o)) :
    |(publishedUnits (fun o => pool (winners stakes o)) (pool (positiveStakes stakes)) outcome : ℚ)
        / 10 ^ 4 - stakeShare stakes outcome| ≤ 5 / 10 ^ 5 := by
  have low := Int.floor_le (stakeShare stakes outcome * 10 ^ 4 + 1 / 2)
  have high := Int.lt_floor_add_one (stakeShare stakes outcome * 10 ^ 4 + 1 / 2)
  rw [publishedUnits, if_neg follows, add_zero, roundedUnits_stakeShare cents staked small, abs_le]
  constructor <;> linarith

/-- What the others leave to the leader is at most a ten-thousandth from its share. -/
theorem published_leader_near (cents : CentStakes (positiveStakes stakes))
    (staked : 0 < pool (positiveStakes stakes)) (small : pool (positiveStakes stakes) < 10 ^ 16) :
    |(publishedUnits (fun o => pool (winners stakes o)) (pool (positiveStakes stakes))
        (leader fun o => pool (winners stakes o)) : ℚ) / 10 ^ 4 -
      stakeShare stakes (leader fun o => pool (winners stakes o))| ≤ 1 / 10 ^ 4 := by
  rw [publishedUnits_leader]
  simp only [roundedUnits_stakeShare cents staked small]
  exact publishedProbability_near (pool_outcomes stakes) staked _

theorem published_nonneg (cents : CentStakes (positiveStakes stakes))
    (staked : 0 < pool (positiveStakes stakes)) (small : pool (positiveStakes stakes) < 10 ^ 16)
    (outcome : Outcome) :
    0 ≤ publishedUnits (fun o => pool (winners stakes o)) (pool (positiveStakes stakes))
      outcome := by
  by_cases leads : outcome = leader fun o => pool (winners stakes o)
  · -- The leader holds a third, which no correction uses up.
    have near := (abs_le.mp (published_leader_near cents staked small)).1
    have third := third_le_stakeShare staked
    rw [leads]
    have positive : (0 : ℚ) ≤ publishedUnits (fun o => pool (winners stakes o))
        (pool (positiveStakes stakes)) (leader fun o => pool (winners stakes o)) := by linarith
    exact_mod_cast positive
  · rw [publishedUnits, if_neg leads, add_zero]
    exact roundedUnits_nonneg (fun o => (winners_part cents o).1.pool_nonneg) staked outcome

theorem published_le (cents : CentStakes (positiveStakes stakes))
    (staked : 0 < pool (positiveStakes stakes)) (small : pool (positiveStakes stakes) < 10 ^ 16)
    (outcome : Outcome) :
    publishedUnits (fun o => pool (winners stakes o)) (pool (positiveStakes stakes)) outcome ≤
      10 ^ 4 := by
  have together := publishedUnits_sum (fun o => pool (winners stakes o))
    (pool (positiveStakes stakes))
  have nonneg := published_nonneg cents staked small
  have buy := nonneg .buy
  have sell := nonneg .sell
  have hold := nonneg .hold
  cases outcome <;> omega

theorem participantCount_eq (stakes : List Stake) :
    participantCount stakes = ((positiveStakes stakes).map Stake.memberId).toFinset.card := by
  rw [List.card_toFinset]
  rfl

/-- A market with something staked on it publishes a distribution over the outcomes, as
close to the shares of the pool as four places allow. -/
theorem computeConsensus_distribution
    (cents : ∀ s ∈ stakes, 0 < s.amount → Scaled 2 s.amount)
    (staked : 0 < pool (positiveStakes stakes)) (small : pool (positiveStakes stakes) < 10 ^ 16) :
    ∃ consensus first, computeConsensus stakes = .ok consensus ∧
      consensus.leadingOutcome = some first ∧
      consensus.probabilities .buy + consensus.probabilities .sell +
        consensus.probabilities .hold = 1 ∧
      (∀ outcome, 0 ≤ consensus.probabilities outcome ∧ consensus.probabilities outcome ≤ 1 ∧
        Scaled 4 (consensus.probabilities outcome)) ∧
      (∀ outcome, outcome ≠ first →
        |consensus.probabilities outcome - stakeShare stakes outcome| ≤ 5 / 10 ^ 5) ∧
      |consensus.probabilities first - stakeShare stakes first| ≤ 15 / 10 ^ 5 ∧
      (∀ outcome, consensus.stakeByOutcome outcome = pool (winners stakes outcome)) ∧
      consensus.totalStake = consensus.stakeByOutcome .buy + consensus.stakeByOutcome .sell +
        consensus.stakeByOutcome .hold ∧
      consensus.totalStake = pool (positiveStakes stakes) ∧
      consensus.participantCount =
        ((positiveStakes stakes).map Stake.memberId).toFinset.card := by
  have exact : CentStakes (positiveStakes stakes) := by
    refine ⟨fun s member => ?_, fun s member => ?_, small.trans (by norm_num)⟩ <;>
      rw [positiveStakes, List.mem_filter, decide_eq_true_eq] at member
    · exact cents s member.1 member.2
    · exact member.2.le
  refine ⟨_, leader fun outcome => pool (winners stakes outcome),
    computeConsensus_exact exact staked, if_neg (not_le.mpr staked), ?_, ?_, ?_, ?_,
    fun _ => rfl, (pool_outcomes stakes).symm, rfl, participantCount_eq stakes⟩
  · have together := publishedUnits_sum (fun o => pool (winners stakes o))
      (pool (positiveStakes stakes))
    rw [← add_div, ← add_div, div_eq_one_iff_eq (by norm_num)]
    exact_mod_cast together
  · intro outcome
    have nonneg := published_nonneg exact staked small outcome
    have le := published_le exact staked small outcome
    refine ⟨div_nonneg (by exact_mod_cast nonneg) (by norm_num), ?_, ⟨_, rfl⟩⟩
    rw [div_le_one (by norm_num)]
    exact_mod_cast le
  · exact fun outcome follows => published_near exact staked small follows
  · exact (published_leader_near exact staked small).trans (by norm_num)

theorem computeConsensus_distribution_even :
    ∃ consensus first, computeConsensus [⟨1, .buy, 1⟩, ⟨2, .sell, 1⟩, ⟨3, .hold, 1⟩] =
        .ok consensus ∧
      consensus.probabilities .buy + consensus.probabilities .sell +
        consensus.probabilities .hold = 1 ∧
      |consensus.probabilities first - stakeShare [⟨1, .buy, 1⟩, ⟨2, .sell, 1⟩, ⟨3, .hold, 1⟩]
        first| ≤ 15 / 10 ^ 5 := by
  obtain ⟨consensus, first, computed, _, together, _, _, near, _⟩ :=
    @computeConsensus_distribution [⟨1, .buy, 1⟩, ⟨2, .sell, 1⟩, ⟨3, .hold, 1⟩]
      (by
        intro s member _
        simp only [List.mem_cons, List.not_mem_nil, or_false] at member
        obtain rfl | rfl | rfl := member <;> exact ⟨100, by norm_num⟩)
      (by decide +kernel) (by decide +kernel)
  exact ⟨consensus, first, computed, together, near⟩

end Distribution

end FundPolymarket
