import FundPolymarket.Solvency
import FundPolymarket.Scoring

set_option autoImplicit false

/- The Brier scores of the leaderboard. A score adds up one term for each outcome, and each
term grows with the distance between the share on that outcome and the verdict. -/
namespace FundPolymarket

open Decimal (unitRoundoff)

section Terms

theorem square_neg (x : ℚ) : square (-x) = square x := by rw [square, square, neg_mul_neg]

theorem square_mono {x y : ℚ} (nonneg : 0 ≤ x) (le : x ≤ y) : square x ≤ square y := by
  have squares := mul_self_le_mul_self nonneg le
  have room : 0 < Decimal.prec + 3 := by decide
  exact Decimal.fix_mono (Decimal.roundSig_nonneg room (mul_self_nonneg x))
    (Decimal.roundSig_mono room (mul_self_nonneg x) squares)

theorem square_nonneg (x : ℚ) : 0 ≤ square x :=
  Decimal.fix_nonneg (Decimal.roundSig_nonneg (by decide) (mul_self_nonneg x))

/-- The term of one outcome: `(p - actual) ** 2`. -/
def brierTerm (winningOutcome : Outcome) (share : ℚ) (outcome : Outcome) : ℚ :=
  square (Decimal.sub share (if outcome = winningOutcome then 1 else 0))

variable {winningOutcome outcome : Outcome} {x y : ℚ}

theorem brierTerm_loser (loses : outcome ≠ winningOutcome) (share : ℚ) :
    brierTerm winningOutcome share outcome = square (Decimal.fix share) := by
  rw [brierTerm, if_neg loses, Decimal.sub, sub_zero]

theorem brierTerm_winner (share : ℚ) :
    brierTerm winningOutcome share winningOutcome = square (Decimal.fix (1 - share)) := by
  rw [brierTerm, if_pos rfl, Decimal.sub, ← neg_sub, Decimal.fix_neg, square_neg]

/-- More weight on a losing outcome costs more. -/
theorem brierTerm_loser_mono (loses : outcome ≠ winningOutcome) (nonneg : 0 ≤ x) (le : x ≤ y) :
    brierTerm winningOutcome x outcome ≤ brierTerm winningOutcome y outcome := by
  rw [brierTerm_loser loses, brierTerm_loser loses]
  exact square_mono (Decimal.fix_nonneg nonneg) (Decimal.fix_mono nonneg le)

/-- More weight on the winning outcome costs less. -/
theorem brierTerm_winner_anti (le : x ≤ y) (le_one : y ≤ 1) :
    brierTerm winningOutcome y winningOutcome ≤ brierTerm winningOutcome x winningOutcome := by
  have rest : 0 ≤ 1 - y := by linarith
  rw [brierTerm_winner, brierTerm_winner]
  exact square_mono (Decimal.fix_nonneg rest) (Decimal.fix_mono rest (by linarith))

theorem brierTerm_winner_le_one (nonneg : 0 ≤ x) (le_one : x ≤ 1) :
    brierTerm winningOutcome x winningOutcome ≤ 1 := by
  have none : brierTerm winningOutcome 0 winningOutcome = 1 := by
    rw [brierTerm_winner, sub_zero]
    decide +kernel
  exact none ▸ brierTerm_winner_anti nonneg le_one

/-- The square of a share is not above the share, but for the rounding. -/
theorem square_le {x : ℚ} (nonneg : 0 ≤ x) (le_one : x ≤ 1) :
    square x ≤ x * (1 + unitRoundoff) ^ 2 := by
  have below : x * x ≤ x := mul_le_of_le_one_left nonneg le_one
  have nearest := (abs_le.mp (Decimal.abs_roundSig_sub_le (Decimal.prec + 3) (x * x))).2
  rw [abs_of_nonneg (mul_self_nonneg x)] at nearest
  have unit : (10 : ℚ) ^ (1 - (Decimal.prec + 3 : ℕ) : ℤ) / 2 ≤ unitRoundoff := by
    norm_num [Decimal.prec, unitRoundoff]
  have error := mul_le_mul_of_nonneg_left unit (mul_self_nonneg x)
  have unitNonneg : 0 ≤ unitRoundoff := by norm_num [unitRoundoff]
  have rounded : Decimal.roundSig (Decimal.prec + 3) (x * x) ≤ x * (1 + unitRoundoff) := by
    nlinarith
  calc
    square x ≤ Decimal.roundSig (Decimal.prec + 3) (x * x) * (1 + unitRoundoff) :=
      Decimal.fix_le (Decimal.roundSig_nonneg (by decide) (mul_self_nonneg x))
    _ ≤ x * (1 + unitRoundoff) * (1 + unitRoundoff) :=
      mul_le_mul_of_nonneg_right rounded (by linarith)
    _ = x * (1 + unitRoundoff) ^ 2 := by ring

theorem brierTerm_loser_le (loses : outcome ≠ winningOutcome) (nonneg : 0 ≤ x) (le_one : x ≤ 1) :
    brierTerm winningOutcome x outcome ≤ x * (1 + unitRoundoff) ^ 3 := by
  have unitNonneg : 0 ≤ unitRoundoff := by norm_num [unitRoundoff]
  have rounded_le_one : Decimal.fix x ≤ 1 := by
    have one : Decimal.fix 1 = 1 := by decide +kernel
    exact one ▸ Decimal.fix_mono nonneg le_one
  rw [brierTerm_loser loses]
  calc
    square (Decimal.fix x) ≤ Decimal.fix x * (1 + unitRoundoff) ^ 2 :=
      square_le (Decimal.fix_nonneg nonneg) rounded_le_one
    _ ≤ x * (1 + unitRoundoff) * (1 + unitRoundoff) ^ 2 :=
      mul_le_mul_of_nonneg_right (Decimal.fix_le nonneg) (by positivity)
    _ = x * (1 + unitRoundoff) ^ 3 := by ring

end Terms

section Score

variable {winningOutcome : Outcome}

def brierTerms (shares : Outcome → ℚ) (winningOutcome : Outcome) : List ℚ :=
  allOutcomes.map fun outcome => brierTerm winningOutcome (shares outcome) outcome

/-- A score before it is rounded to six places. -/
def brierTotal (shares : Outcome → ℚ) (winningOutcome : Outcome) : ℚ :=
  Decimal.sum (brierTerms shares winningOutcome)

theorem brierScore_eq (shares : Outcome → ℚ) (winningOutcome : Outcome) :
    brierScore shares winningOutcome = q (brierTotal shares winningOutcome) 6 .halfUp := rfl

theorem brierTerms_nonneg (shares : Outcome → ℚ) (winningOutcome : Outcome) :
    ∀ x ∈ brierTerms shares winningOutcome, 0 ≤ x := by
  intro x member
  obtain ⟨outcome, _, rfl⟩ := List.mem_map.mp member
  exact square_nonneg _

theorem brierTotal_nonneg (shares : Outcome → ℚ) (winningOutcome : Outcome) :
    0 ≤ brierTotal shares winningOutcome :=
  Decimal.sum_nonneg (brierTerms_nonneg shares winningOutcome)

/-- Three additions are off by three roundings. -/
theorem brierTotal_le (shares : Outcome → ℚ) (winningOutcome : Outcome) :
    brierTotal shares winningOutcome ≤
      (brierTerms shares winningOutcome).sum * (1 + unitRoundoff) ^ 3 := by
  have nonneg := brierTerms_nonneg shares winningOutcome
  have near := Decimal.near_foldl_add le_rfl nonneg
  rw [zero_add] at near
  exact (near.le_mul_pow (List.sum_nonneg nonneg)).2

/-- A total is no larger where every term is no larger. -/
theorem brierTotal_mono {shares others : Outcome → ℚ}
    (terms : ∀ outcome, brierTerm winningOutcome (shares outcome) outcome ≤
      brierTerm winningOutcome (others outcome) outcome) :
    brierTotal shares winningOutcome ≤ brierTotal others winningOutcome := by
  refine Decimal.sum_mono (brierTerms_nonneg shares winningOutcome) ?_
  rw [brierTerms, brierTerms, List.forall₂_map_left_iff, List.forall₂_map_right_iff,
    List.forall₂_same]
  exact fun outcome _ => terms outcome

/-- A value that is rounded to between zero and some small number of units is found. -/
theorem q_within {x : ℚ} {places : ℕ} {mode : Decimal.Rounding} {most : ℕ}
    (small : most < 10 ^ Decimal.prec) (low : 0 ≤ mode.toInt (x * 10 ^ places))
    (high : mode.toInt (x * 10 ^ places) ≤ most) :
    q x places mode = .ok ((mode.toInt (x * 10 ^ places) : ℚ) / 10 ^ places) ∧
      0 ≤ (mode.toInt (x * 10 ^ places) : ℚ) / 10 ^ places ∧
      (mode.toInt (x * 10 ^ places) : ℚ) / 10 ^ places ≤ most / 10 ^ places := by
  have fits : (mode.toInt (x * 10 ^ places)).natAbs < 10 ^ Decimal.prec := by omega
  refine ⟨?_, ?_, ?_⟩
  · rw [q, Decimal.quantize_of_fits fits]
    rfl
  · exact div_nonneg (by exact_mod_cast low) (by positivity)
  · exact div_le_div_of_nonneg_right (by exact_mod_cast high) (by positivity)

/-- A total of at most two, but for a ten-millionth, is rounded to at most two. -/
theorem halfUp_total {total : ℚ} (nonneg : 0 ≤ total) (near_two : total ≤ 2 + 1 / 10 ^ 7) :
    0 ≤ Decimal.halfUp (total * 10 ^ 6) ∧ Decimal.halfUp (total * 10 ^ 6) ≤ 2000000 := by
  have nearest := (Decimal.halfUp_bounds (by positivity : 0 ≤ total * 10 ^ 6)).2
  have below : (Decimal.halfUp (total * 10 ^ 6) : ℚ) < 2000001 :=
    nearest.trans_lt (by linarith)
  have units : Decimal.halfUp (total * 10 ^ 6) < 2000001 := by exact_mod_cast below
  exact ⟨Decimal.halfUp_nonneg_of_nonneg (by positivity), by omega⟩

/-- A mean of scores of at most two is at most two, however many they are. -/
theorem q_mean {scores : List ℚ} (some_score : scores ≠ [])
    (bounded : ∀ score ∈ scores, 0 ≤ score ∧ score ≤ 2) :
    ∃ mean, q (Decimal.div (Decimal.sum scores) scores.length) 6 .halfEven = .ok mean ∧
      0 ≤ mean ∧ mean ≤ 2 := by
  have count : (0 : ℚ) < scores.length := by exact_mod_cast List.length_pos_iff.mpr some_score
  have total := @Decimal.sum_le_mul_length 2 (by decide) scores
    (fun x member => (bounded x member).1) fun x member => (bounded x member).2
  have total_nonneg := Decimal.sum_nonneg fun x member => (bounded x member).1
  have quotient_nonneg : 0 ≤ Decimal.sum scores / scores.length := div_nonneg total_nonneg count.le
  have mean_nonneg : 0 ≤ Decimal.div (Decimal.sum scores) scores.length :=
    Decimal.fix_nonneg quotient_nonneg
  have mean_le : Decimal.div (Decimal.sum scores) scores.length ≤ 2 := by
    have two : Decimal.fix 2 = 2 := by decide +kernel
    rw [← two]
    exact Decimal.fix_mono quotient_nonneg ((div_le_iff₀ count).mpr (by exact_mod_cast total))
  have low := Decimal.halfEven_mono (by positivity :
    ((0 : ℤ) : ℚ) ≤ Decimal.div (Decimal.sum scores) scores.length * 10 ^ 6)
  have high := Decimal.halfEven_mono (by push_cast; linarith :
    Decimal.div (Decimal.sum scores) scores.length * 10 ^ 6 ≤ ((2000000 : ℤ) : ℚ))
  rw [Decimal.halfEven_intCast] at low high
  obtain ⟨quantized, nonneg, le⟩ := @q_within _ _ .halfEven 2000000 (by decide) low high
  exact ⟨_, quantized, nonneg, le.trans (by norm_num)⟩

end Score

section Allocation

/-- What is staked on one outcome. -/
def stakedOn (bets : List Bet) (outcome : Outcome) : ℚ :=
  staked (bets.filter fun bet => bet.outcome = outcome)

theorem stakedOn_cons (bet : Bet) (bets : List Bet) (outcome : Outcome) :
    stakedOn (bet :: bets) outcome =
      (if bet.outcome = outcome then bet.stake.val else 0) + stakedOn bets outcome := by
  rw [stakedOn, stakedOn, List.filter_cons]
  by_cases on : bet.outcome = outcome <;> simp [on, staked]

theorem stakedOn_absent {bets : List Bet} {outcome : Outcome}
    (absent : outcome ∉ bets.map Bet.outcome) : stakedOn bets outcome = 0 := by
  have none : (bets.filter fun bet => bet.outcome = outcome) = [] := by
    rw [List.filter_eq_nil_iff]
    intro bet member on
    exact absent (of_decide_eq_true on ▸ List.mem_map_of_mem member)
  rw [stakedOn, none, staked_nil]

/-- The three outcomes share everything that is staked. -/
theorem stakedOn_sum (bets : List Bet) :
    stakedOn bets .buy + stakedOn bets .sell + stakedOn bets .hold = staked bets := by
  induction bets with
  | nil => simp [stakedOn]
  | cons bet bets ih =>
      have split : staked (bet :: bets) = bet.stake.val + staked bets := by simp [staked]
      rw [stakedOn_cons, stakedOn_cons, stakedOn_cons, split, ← ih]
      cases bet.outcome <;> simp <;> ring

/-- The rows of one member on one market: at most one for each outcome, none of them
negative, and together more than nothing. -/
structure MemberBets where
  rows : List Bet
  distinct : (rows.map Bet.outcome).Nodup
  nonneg : ∀ bet ∈ rows, 0 ≤ bet.stake.val
  positive : 0 < staked rows

namespace MemberBets

variable (bets : MemberBets)

def share (outcome : Outcome) : ℚ := stakedOn bets.rows outcome / staked bets.rows

theorem stakedOn_nonneg (outcome : Outcome) : 0 ≤ stakedOn bets.rows outcome :=
  staked_nonneg fun bet member => bets.nonneg bet (List.mem_filter.mp member).1

theorem share_nonneg (outcome : Outcome) : 0 ≤ bets.share outcome :=
  div_nonneg (bets.stakedOn_nonneg outcome) bets.positive.le

theorem share_sum : bets.share .buy + bets.share .sell + bets.share .hold = 1 := by
  rw [share, share, share, ← add_div, ← add_div, stakedOn_sum, div_self bets.positive.ne']

theorem share_le_one (outcome : Outcome) : bets.share outcome ≤ 1 := by
  have total := bets.share_sum
  have buy := bets.share_nonneg .buy
  have sell := bets.share_nonneg .sell
  have hold := bets.share_nonneg .hold
  cases outcome <;> linarith

theorem total_exact : Decimal.sum (bets.rows.map fun bet => bet.stake.val) = staked bets.rows := by
  have short := length_le_of_nodup_outcomes bets.distinct
  rw [List.length_map] at short
  rw [staked]
  refine Decimal.sum_exact (fun x member => ?_) (fun x member => ?_)
    (sum_lt_of_short (by rwa [List.length_map]) fun x member => ?_)
  all_goals obtain ⟨bet, listed, rfl⟩ := List.mem_map.mp member
  · exact bet.stake.val_scaled
  · exact bets.nonneg bet listed
  · exact points_lt bet.stake

/-- One pass over the rows adds the share of each to its outcome. -/
theorem foldl_allocation {rows : List Bet} (distinct : (rows.map Bet.outcome).Nodup) (total : ℚ)
    (dist : Outcome → ℚ) (outcome : Outcome) :
    rows.foldl (fun (dist : Outcome → ℚ) bet outcome =>
        if outcome = bet.outcome then
          Decimal.add (dist outcome) (Decimal.div bet.stake.val total)
        else dist outcome) dist outcome =
      if outcome ∈ rows.map Bet.outcome then
        Decimal.add (dist outcome) (Decimal.div (stakedOn rows outcome) total)
      else dist outcome := by
  induction rows generalizing dist with
  | nil => rfl
  | cons bet rows ih =>
      rw [List.map_cons, List.nodup_cons] at distinct
      rw [List.foldl_cons, ih distinct.2, stakedOn_cons, List.map_cons]
      by_cases on : outcome = bet.outcome
      · subst on
        simp [distinct.1, stakedOn_absent distinct.1]
      · simp [on, Ne.symm on]

/-- The distribution of `_member_allocation`: the quotient of two exact sums, rounded by
the division and by the addition to zero. -/
theorem memberAllocation_eq (outcome : Outcome) :
    memberAllocation bets.rows outcome = Decimal.fix (Decimal.fix (bets.share outcome)) := by
  rw [memberAllocation, bets.total_exact, if_neg (not_le.mpr bets.positive),
    foldl_allocation bets.distinct]
  split
  · rw [Decimal.add, zero_add, Decimal.div, share]
  · rename_i absent
    rw [share, stakedOn_absent absent, zero_div]
    decide +kernel

theorem allocation_nonneg (outcome : Outcome) : 0 ≤ memberAllocation bets.rows outcome := by
  rw [memberAllocation_eq]
  exact Decimal.fix_nonneg (Decimal.fix_nonneg (bets.share_nonneg outcome))

theorem allocation_le_one (outcome : Outcome) : memberAllocation bets.rows outcome ≤ 1 := by
  have one : Decimal.fix (Decimal.fix 1) = 1 := by decide +kernel
  rw [memberAllocation_eq, ← one]
  exact Decimal.fix_mono (Decimal.fix_nonneg (bets.share_nonneg outcome))
    (Decimal.fix_mono (bets.share_nonneg outcome) (bets.share_le_one outcome))

/-- A larger share is a larger part of the distribution. -/
theorem allocation_mono {others : MemberBets} {outcome : Outcome}
    (le : bets.share outcome ≤ others.share outcome) :
    memberAllocation bets.rows outcome ≤ memberAllocation others.rows outcome := by
  rw [memberAllocation_eq, memberAllocation_eq]
  exact Decimal.fix_mono (Decimal.fix_nonneg (bets.share_nonneg outcome))
    (Decimal.fix_mono (bets.share_nonneg outcome) le)

theorem allocation_le (outcome : Outcome) :
    memberAllocation bets.rows outcome ≤ bets.share outcome * (1 + unitRoundoff) ^ 2 := by
  have unitNonneg : 0 ≤ unitRoundoff := by norm_num [unitRoundoff]
  rw [memberAllocation_eq]
  calc
    Decimal.fix (Decimal.fix (bets.share outcome))
      ≤ Decimal.fix (bets.share outcome) * (1 + unitRoundoff) :=
        Decimal.fix_le (Decimal.fix_nonneg (bets.share_nonneg outcome))
    _ ≤ bets.share outcome * (1 + unitRoundoff) * (1 + unitRoundoff) :=
        mul_le_mul_of_nonneg_right (Decimal.fix_le (bets.share_nonneg outcome)) (by linarith)
    _ = bets.share outcome * (1 + unitRoundoff) ^ 2 := by ring

def total (winningOutcome : Outcome) : ℚ := brierTotal (memberAllocation bets.rows) winningOutcome

/-- The winning outcome costs at most one, the others at most their shares. -/
theorem term_le (winningOutcome outcome : Outcome) :
    brierTerm winningOutcome (memberAllocation bets.rows outcome) outcome ≤
      if outcome = winningOutcome then 1 else bets.share outcome * (1 + unitRoundoff) ^ 5 := by
  have unitNonneg : 0 ≤ unitRoundoff := by norm_num [unitRoundoff]
  split
  · rename_i wins
    rw [wins]
    exact brierTerm_winner_le_one (bets.allocation_nonneg _) (bets.allocation_le_one _)
  · rename_i loses
    calc
      brierTerm winningOutcome (memberAllocation bets.rows outcome) outcome
        ≤ memberAllocation bets.rows outcome * (1 + unitRoundoff) ^ 3 :=
          brierTerm_loser_le loses (bets.allocation_nonneg _) (bets.allocation_le_one _)
      _ ≤ bets.share outcome * (1 + unitRoundoff) ^ 2 * (1 + unitRoundoff) ^ 3 :=
          mul_le_mul_of_nonneg_right (bets.allocation_le outcome) (by positivity)
      _ = bets.share outcome * (1 + unitRoundoff) ^ 5 := by ring

theorem total_le (winningOutcome : Outcome) : bets.total winningOutcome ≤ 2 + 1 / 10 ^ 7 := by
  have exact_le : (brierTerms (memberAllocation bets.rows) winningOutcome).sum ≤
      1 + (1 + unitRoundoff) ^ 5 := by
    have terms := bets.term_le winningOutcome
    have buy := terms .buy
    have sell := terms .sell
    have hold := terms .hold
    have sum := bets.share_sum
    have growth : 0 ≤ (1 + unitRoundoff) ^ 5 := by norm_num [unitRoundoff]
    have spare := mul_nonneg (bets.share_nonneg winningOutcome) growth
    simp only [brierTerms, allOutcomes, List.map_cons, List.map_nil, List.sum_cons, List.sum_nil]
    cases winningOutcome <;> simp only [reduceCtorEq, if_true, if_false] at buy sell hold <;>
      nlinarith
  calc
    bets.total winningOutcome
      ≤ (brierTerms (memberAllocation bets.rows) winningOutcome).sum * (1 + unitRoundoff) ^ 3 :=
        brierTotal_le _ _
    _ ≤ (1 + (1 + unitRoundoff) ^ 5) * (1 + unitRoundoff) ^ 3 :=
        mul_le_mul_of_nonneg_right exact_le (by norm_num [unitRoundoff])
    _ ≤ 2 + 1 / 10 ^ 7 := by norm_num [unitRoundoff]

def score (winningOutcome : Outcome) : Except AppError ℚ :=
  brierScore (memberAllocation bets.rows) winningOutcome

/-- The score in closed form: every allocation has one, from zero to two. -/
theorem score_eq (winningOutcome : Outcome) :
    bets.score winningOutcome =
        .ok ((Decimal.halfUp (bets.total winningOutcome * 10 ^ 6) : ℚ) / 10 ^ 6) ∧
      0 ≤ (Decimal.halfUp (bets.total winningOutcome * 10 ^ 6) : ℚ) / 10 ^ 6 ∧
      (Decimal.halfUp (bets.total winningOutcome * 10 ^ 6) : ℚ) / 10 ^ 6 ≤ 2 := by
  obtain ⟨low, high⟩ := halfUp_total (brierTotal_nonneg _ _) (bets.total_le winningOutcome)
  obtain ⟨quantized, nonneg, le⟩ := @q_within _ 6 .halfUp 2000000 (by decide) low high
  exact ⟨(brierScore_eq _ _).trans quantized, nonneg, le.trans (by norm_num)⟩

theorem exists_score (winningOutcome : Outcome) :
    ∃ score, bets.score winningOutcome = .ok score ∧ 0 ≤ score ∧ score ≤ 2 :=
  ⟨_, bets.score_eq winningOutcome⟩

/-- A smaller total is not rounded to a higher score. -/
theorem score_le {others : MemberBets} {winningOutcome : Outcome}
    (le : bets.total winningOutcome ≤ others.total winningOutcome) :
    ∃ score other, bets.score winningOutcome = .ok score ∧
      others.score winningOutcome = .ok other ∧ score ≤ other := by
  refine ⟨_, _, (bets.score_eq winningOutcome).1, (others.score_eq winningOutcome).1, ?_⟩
  have units := Decimal.halfUp_le_halfUp (mul_le_mul_of_nonneg_right le (by positivity : (0 : ℚ) ≤
    10 ^ 6))
  exact div_le_div_of_nonneg_right (by exact_mod_cast units) (by positivity)

/-- Everything is staked on one outcome. -/
def AllOn (outcome : Outcome) : Prop := stakedOn bets.rows outcome = staked bets.rows

instance (outcome : Outcome) : Decidable (bets.AllOn outcome) :=
  inferInstanceAs (Decidable (_ = _))

variable {bets}

theorem AllOn.allocation {outcome : Outcome} (all : bets.AllOn outcome) :
    memberAllocation bets.rows = fun other => if other = outcome then 1 else 0 := by
  have whole : bets.share outcome = 1 := by rw [share, all, div_self bets.positive.ne']
  have sum := bets.share_sum
  have buy := bets.share_nonneg .buy
  have sell := bets.share_nonneg .sell
  have hold := bets.share_nonneg .hold
  have nothing : ∀ other, other ≠ outcome → bets.share other = 0 := by
    intro other differs
    cases outcome <;> cases other <;> first | exact absurd rfl differs | linarith
  funext other
  rw [memberAllocation_eq]
  split
  · rename_i same
    rw [same, whole]
    decide +kernel
  · rename_i differs
    rw [nothing other differs]
    decide +kernel

/-- All on one wrong outcome is the worst score there is. -/
theorem AllOn.score_two {wrong winningOutcome : Outcome} (all : bets.AllOn wrong)
    (isWrong : wrong ≠ winningOutcome) : bets.score winningOutcome = .ok 2 := by
  rw [score, all.allocation]
  cases wrong <;> cases winningOutcome <;> first | exact absurd rfl isWrong | decide +kernel

end MemberBets

/-- Some stake is moved from one outcome to another, and everything else stays. -/
def Shifts (first second : MemberBets) (source target : Outcome) (amount : ℚ) : Prop :=
  ∀ outcome, stakedOn second.rows outcome = stakedOn first.rows outcome +
    if outcome = target then amount else if outcome = source then -amount else 0

instance (first second : MemberBets) (source target : Outcome) (amount : ℚ) :
    Decidable (Shifts first second source target amount) :=
  decidable_of_iff (∀ outcome ∈ allOutcomes, stakedOn second.rows outcome =
      stakedOn first.rows outcome +
        if outcome = target then amount else if outcome = source then -amount else 0)
    ⟨fun each outcome => each outcome (mem_allOutcomes outcome), fun each outcome _ => each outcome⟩

section Shifts

variable {first second : MemberBets} {loser winningOutcome : Outcome} {amount : ℚ}

theorem Shifts.staked_eq (shifts : Shifts first second loser winningOutcome amount)
    (loses : loser ≠ winningOutcome) : staked second.rows = staked first.rows := by
  have buy := shifts .buy
  have sell := shifts .sell
  have hold := shifts .hold
  rw [← stakedOn_sum, ← stakedOn_sum, buy, sell, hold]
  cases loser <;> cases winningOutcome <;> first | exact absurd rfl loses | (simp; ring)

/-- Weight that moves to the winning outcome lowers the term that it leaves and the term
that it joins. -/
theorem Shifts.total_le (shifts : Shifts first second loser winningOutcome amount)
    (loses : loser ≠ winningOutcome) (nonneg : 0 ≤ amount) :
    second.total winningOutcome ≤ first.total winningOutcome := by
  refine brierTotal_mono fun outcome => ?_
  have same := shifts.staked_eq loses
  have moved := shifts outcome
  by_cases wins : outcome = winningOutcome
  · subst wins
    refine brierTerm_winner_anti (first.allocation_mono ?_) (second.allocation_le_one _)
    rw [MemberBets.share, MemberBets.share, moved, same, if_pos rfl]
    exact div_le_div_of_nonneg_right (by linarith) first.positive.le
  · refine brierTerm_loser_mono wins (second.allocation_nonneg _) (second.allocation_mono ?_)
    rw [MemberBets.share, MemberBets.share, moved, same, if_neg wins]
    refine div_le_div_of_nonneg_right ?_ first.positive.le
    split <;> linarith

end Shifts

end Allocation

section Leaderboard

variable {db : Db}

/-- Every market that a member has taken part in has a score, also where the stakes add
up to nothing. -/
theorem participations_score (nonneg : StakesNonneg db) {memberId : ℕ}
    {entry : Outcome × List Bet} (member : entry ∈ participations db memberId) :
    ∃ score, brierScore (memberAllocation entry.2) entry.1 = .ok score ∧ 0 ≤ score ∧ score ≤ 2 := by
  obtain ⟨row, _, listed⟩ := List.mem_filterMap.mp member
  dsimp only at listed
  split at listed
  · cases listed
  obtain ⟨winner, _, rfl⟩ := Option.map_eq_some_iff.mp listed
  dsimp only
  have stakes : ∀ bet ∈ (existingBets db row.1 memberId).map Prod.snd, 0 ≤ bet.stake.val := by
    intro bet betMember
    obtain ⟨existing, existingMember, rfl⟩ := List.mem_map.mp betMember
    exact nonneg _ (existingBets_mem existingMember).1
  have distinct := existing_outcomes_nodup db row.1 memberId
  rcases (staked_nonneg stakes).eq_or_lt with nothing | positive
  · have zero : Decimal.sum (((existingBets db row.1 memberId).map Prod.snd).map
        fun bet => bet.stake.val) ≤ 0 := by
      have exact := previousTotal_eq nonneg row.1 memberId
      rw [previousTotal, ← existingBets_values, ← nothing] at exact
      rw [List.map_map]
      exact exact.le
    rw [memberAllocation, if_pos zero]
    refine ⟨1, ?_, by norm_num, by norm_num⟩
    cases winner <;> decide +kernel
  · exact MemberBets.exists_score ⟨_, by rwa [List.map_map], stakes, positive⟩ winner

/-- A part of the verdicts is a rate of at most one. -/
theorem exists_hitRate {hits participated : ℕ} (part : hits ≤ participated)
    (some_market : participated ≠ 0) :
    ∃ rate, q (Decimal.div hits participated) 4 .halfEven = .ok rate := by
  have count : (0 : ℚ) < participated := by exact_mod_cast Nat.pos_of_ne_zero some_market
  have quotient_nonneg : (0 : ℚ) ≤ hits / participated := by positivity
  have rate_nonneg : 0 ≤ Decimal.div hits participated := Decimal.fix_nonneg quotient_nonneg
  have rate_le : Decimal.div hits participated ≤ 1 := by
    have one : Decimal.fix 1 = 1 := by decide +kernel
    rw [← one]
    exact Decimal.fix_mono quotient_nonneg ((div_le_one count).mpr (by exact_mod_cast part))
  have low := Decimal.halfEven_mono (by positivity :
    ((0 : ℤ) : ℚ) ≤ Decimal.div hits participated * 10 ^ 4)
  have high := Decimal.halfEven_mono (by push_cast; linarith :
    Decimal.div hits participated * 10 ^ 4 ≤ ((10000 : ℤ) : ℚ))
  rw [Decimal.halfEven_intCast] at low high
  exact ⟨_, (@q_within _ _ .halfEven 10000 (by decide) low high).1⟩

/-- Every member has a score, with the balance and the profit that were looked up. -/
theorem exists_memberScore (nonneg : StakesNonneg db) (balances profits : List (ℕ × ℚ))
    (row : ℕ × Member) :
    ∃ score, memberScore db balances profits row = .ok score ∧ score.memberId = row.1 ∧
      score.balance = Tally.get balances row.1 ∧ score.netProfit = Tally.get profits row.1 ∧
      ∀ brier ∈ score.brier, 0 ≤ brier ∧ brier ≤ 2 := by
  obtain ⟨briers, scored⟩ := exists_mapM_eq_ok fun entry member =>
    (participations_score nonneg (member : entry ∈ participations db row.1)).imp fun _ h => h.1
  have pairs := mapM_forall₂ scored
  have bounded : ∀ score ∈ briers, 0 ≤ score ∧ score ≤ 2 := by
    intro score member
    obtain ⟨entry, entryMember, result⟩ := forall₂_exists_left pairs member
    obtain ⟨other, otherResult, bounds⟩ := participations_score nonneg entryMember
    rw [result] at otherResult
    cases otherResult
    exact bounds
  rw [memberScore, scored]
  by_cases nothing : participations db row.1 = []
  · refine ⟨_, by simp only [if_pos nothing]; rfl, rfl, rfl, rfl, fun brier none => ?_⟩
    cases none
  · have count : (participations db row.1).length = briers.length := pairs.length_eq
    have some_score : briers ≠ [] := by
      rw [← List.length_pos_iff, ← count]
      exact List.length_pos_iff.mpr nothing
    obtain ⟨mean, meanOk, meanBounds⟩ := q_mean some_score bounded
    rw [← count] at meanOk
    obtain ⟨rate, rateOk⟩ := exists_hitRate (List.length_filter_le (fun entry =>
      decide (leader (memberAllocation entry.2) = entry.1)) (participations db row.1))
      (List.length_pos_iff.mpr nothing).ne'
    simp only [if_neg nothing]
    refine ⟨_, bind_eq_ok.mpr ⟨briers, rfl, bind_eq_ok.mpr ⟨rate, rateOk,
      bind_eq_ok.mpr ⟨some mean, map_eq_ok.mpr ⟨mean, meanOk, rfl⟩, rfl⟩⟩⟩, rfl, rfl, rfl,
      fun brier same => ?_⟩
    cases same
    exact meanBounds

/-- The leaderboard lists every active member once, in the order of the keys. -/
theorem leaderboard_eq_ok (nonneg : StakesNonneg db) :
    ∃ scores, leaderboard db =
        .ok (scores.insertionSort fun first second => first.key ≤ second.key) ∧
      List.Forall₂ (fun row score => score.memberId = row.1 ∧
          score.balance = Tally.get (getBalances db
            ((db.members.select Member.isActive).map Prod.fst)) row.1 ∧
          score.netProfit = Tally.get (netProfits db
            ((db.members.select Member.isActive).map Prod.fst)) row.1 ∧
          ∀ brier ∈ score.brier, 0 ≤ brier ∧ brier ≤ 2)
        (db.members.select Member.isActive) scores := by
  have each := exists_memberScore nonneg
    (getBalances db ((db.members.select Member.isActive).map Prod.fst))
    (netProfits db ((db.members.select Member.isActive).map Prod.fst))
  obtain ⟨scores, scored⟩ := exists_mapM_eq_ok
    fun row (_ : row ∈ db.members.select Member.isActive) => (each row).imp fun _ facts => facts.1
  refine ⟨scores, by rw [leaderboard, scored]; rfl, (mapM_forall₂ scored).imp ?_⟩
  intro row score result
  obtain ⟨other, otherResult, facts⟩ := each row
  rw [result] at otherResult
  cases otherResult
  exact facts

theorem sorted_keys (scores : List MemberScore) :
    (scores.insertionSort fun first second => first.key ≤ second.key).Pairwise
      fun first second => first.key ≤ second.key := by
  have total : Std.Total fun first second : MemberScore => first.key ≤ second.key :=
    ⟨fun first second => le_total first.key second.key⟩
  have trans : IsTrans MemberScore fun first second => first.key ≤ second.key :=
    ⟨fun _ _ _ => le_trans⟩
  exact List.pairwise_insertionSort _ scores

/-- Of equal profit, who has a score comes before who has none. -/
theorem key_le_sentinel {first second : MemberScore} (ordered : first.key ≤ second.key)
    (profits : first.netProfit = second.netProfit) (bounded : ∀ brier ∈ second.brier, brier ≤ 2)
    (newcomer : first.brier = none) : second.brier = none := by
  cases found : second.brier with
  | none => rfl
  | some brier =>
      have above := bounded brier found
      rw [MemberScore.key, MemberScore.key, Prod.Lex.toLex_le_toLex, profits, newcomer,
        found] at ordered
      rcases ordered with less | ⟨_, le⟩
      · exact absurd less (lt_irrefl _)
      · rw [Option.getD_none, Option.getD_some] at le
        linarith

end Leaderboard

/-- Every allocation scores from zero to two, and so does a mean of such scores. All on one
wrong outcome is the worst, and a stake that moves to the winning outcome never costs
anything. The leaderboard lists those without a score last among equal profits. -/
theorem brier_scores_bounded (winningOutcome : Outcome) :
    (∀ bets : MemberBets, ∃ score, bets.score winningOutcome = .ok score ∧
      0 ≤ score ∧ score ≤ 2) ∧
    (∀ (confident other : MemberBets) (wrong : Outcome), wrong ≠ winningOutcome →
      confident.AllOn wrong → ∃ score worst, other.score winningOutcome = .ok score ∧
        confident.score winningOutcome = .ok worst ∧ score ≤ worst) ∧
    (∀ (first second : MemberBets) (loser : Outcome) (amount : ℚ), loser ≠ winningOutcome →
      0 ≤ amount → Shifts first second loser winningOutcome amount →
        ∃ score before, second.score winningOutcome = .ok score ∧
          first.score winningOutcome = .ok before ∧ score ≤ before) ∧
    (∀ scores : List ℚ, scores ≠ [] → (∀ score ∈ scores, 0 ≤ score ∧ score ≤ 2) →
      ∃ mean, q (Decimal.div (Decimal.sum scores) scores.length) 6 .halfEven = .ok mean ∧
        0 ≤ mean ∧ mean ≤ 2) ∧
    ∀ db, StakesNonneg db → ∃ scores, leaderboard db = .ok scores ∧
      (∀ score ∈ scores, ∀ brier ∈ score.brier, 0 ≤ brier ∧ brier ≤ 2) ∧
      scores.Pairwise fun first second => first.netProfit = second.netProfit →
        first.brier = none → second.brier = none := by
  refine ⟨fun bets => bets.exists_score winningOutcome, fun confident other wrong isWrong all => ?_,
    fun first second loser amount loses nonneg shifts => ?_, fun _ => q_mean, fun db nonneg => ?_⟩
  · obtain ⟨score, scored, _, le⟩ := other.exists_score winningOutcome
    exact ⟨score, 2, scored, all.score_two isWrong, le⟩
  · exact second.score_le (shifts.total_le loses nonneg)
  · obtain ⟨scores, sorted, listed⟩ := leaderboard_eq_ok nonneg
    have bounded : ∀ score ∈ scores.insertionSort (fun first second => first.key ≤ second.key),
        ∀ brier ∈ score.brier, 0 ≤ brier ∧ brier ≤ 2 := by
      intro score member
      obtain ⟨row, _, _, _, _, bounds⟩ :=
        forall₂_exists_left listed ((List.perm_insertionSort _ _).mem_iff.mp member)
      exact bounds
    refine ⟨_, sorted, bounded, (sorted_keys scores).imp_of_mem ?_⟩
    intro first second _ member ordered profits newcomer
    exact key_le_sentinel ordered profits
      (fun brier found => (bounded _ member brier found).2) newcomer

/-- Half of the points on BUY, half on SELL. -/
def evenBets : MemberBets where
  rows := [⟨1, 1, .buy, ⟨3500, by decide⟩, none, none⟩,
    ⟨1, 1, .sell, ⟨3500, by decide⟩, none, none⟩]
  distinct := by decide
  nonneg := by decide +kernel
  positive := by decide +kernel

def sellBets : MemberBets where
  rows := [⟨1, 1, .sell, ⟨7000, by decide⟩, none, none⟩]
  distinct := by decide
  nonneg := by decide +kernel
  positive := by decide +kernel

theorem brier_scores_bounded_even :
    (∃ score worst, evenBets.score .buy = .ok score ∧ sellBets.score .buy = .ok worst ∧
      score ≤ worst) ∧
    (∃ score before, evenBets.score .buy = .ok score ∧ sellBets.score .buy = .ok before ∧
      score ≤ before) ∧
    (∃ mean, q (Decimal.div (Decimal.sum [2, 1 / 2]) 2) 6 .halfEven = .ok mean ∧
      0 ≤ mean ∧ mean ≤ 2) ∧
    ∃ scores, leaderboard (stateAfter Db.empty openedMarket) = .ok scores ∧
      (∀ score ∈ scores, ∀ brier ∈ score.brier, 0 ≤ brier ∧ brier ≤ 2) ∧
      scores.Pairwise fun first second => first.netProfit = second.netProfit →
        first.brier = none → second.brier = none :=
  ⟨(brier_scores_bounded .buy).2.1 sellBets evenBets .sell (by decide) (by decide +kernel),
    (brier_scores_bounded .buy).2.2.1 sellBets evenBets .sell 35 (by decide) (by decide)
      (by decide +kernel),
    (brier_scores_bounded .buy).2.2.2.1 [2, 1 / 2] (by decide) (by decide +kernel),
    (brier_scores_bounded .buy).2.2.2.2 _ (stakesNonneg_stateAfter stakesNonneg_empty _)⟩

end FundPolymarket
