import FundPolymarket.BrierScores
import FundPolymarket.DecisionGate
import FundPolymarket.QuadraticScore
import Mathlib.Algebra.BigOperators.Fin

set_option autoImplicit false

/- What a member should bet for the Brier score. The score is a quadratic one of the shares of
the stakes, but for the roundings, so that bets that follow a belief expect the best score. -/
namespace FundPolymarket

open Decimal (unitRoundoff)
open QuadraticScore (Belief cost distance distance_self distance_nonneg)

theorem allOutcomes_nodup : allOutcomes.Nodup := by decide

instance : Fintype Outcome where
  elems := ⟨allOutcomes, allOutcomes_nodup⟩
  complete := mem_allOutcomes

theorem sum_outcomes (value : Outcome → ℚ) :
    ∑ outcome, value outcome = value .buy + value .sell + value .hold := by
  have listed : ∑ outcome, value outcome = (allOutcomes.map value).sum := rfl
  rw [listed]
  simp only [allOutcomes, List.map_cons, List.map_nil, List.sum_cons, List.sum_nil]
  ring

section Roundings

variable {x y bound error : ℚ}

/-- One more rounding of a value that stands for another. -/
theorem abs_fix_sub_le_add (close : |y - x| ≤ error) (bounded : |y| ≤ bound) :
    |Decimal.fix y - x| ≤ error + bound * unitRoundoff := by
  have unit : (0 : ℚ) ≤ unitRoundoff := Decimal.roundoff.nonneg
  calc
    |Decimal.fix y - x| ≤ |Decimal.fix y - y| + |y - x| := abs_sub_le _ _ _
    _ ≤ |y| * unitRoundoff + error := add_le_add (Decimal.abs_fix_sub_le y) close
    _ ≤ bound * unitRoundoff + error := by gcongr
    _ = error + bound * unitRoundoff := add_comm _ _

/-- A value that stands for one of known size. -/
theorem abs_le_add (close : |y - x| ≤ error) (bounded : |x| ≤ bound) : |y| ≤ bound + error := by
  calc
    |y| = |x + (y - x)| := by rw [add_sub_cancel]
    _ ≤ |x| + |y - x| := abs_add_le _ _
    _ ≤ bound + error := add_le_add bounded close

theorem abs_square_sub_le (close : |y - x| ≤ 5 * unitRoundoff) (bounded : |x| ≤ 1) :
    |square y - x ^ 2| ≤ 30 * unitRoundoff := by
  have small : 5 * unitRoundoff ≤ 1 := by norm_num [unitRoundoff]
  have size : |y| ≤ 2 := (abs_le_add close bounded).trans (by linarith)
  have squared : |y * y| ≤ 4 := by
    rw [abs_mul]
    exact (mul_le_mul size size (abs_nonneg y) (by norm_num)).trans (by norm_num)
  have exact : |y * y - x ^ 2| ≤ 15 * unitRoundoff := by
    have factors : y * y - x ^ 2 = (y - x) * (y + x) := by ring
    have sum : |y + x| ≤ 3 := (abs_add_le _ _).trans (by linarith)
    rw [factors, abs_mul]
    calc
      |y - x| * |y + x| ≤ 5 * unitRoundoff * 3 :=
        mul_le_mul close sum (abs_nonneg _) ((abs_nonneg _).trans close)
      _ = 15 * unitRoundoff := by ring
  have digits : |Decimal.roundSig (Decimal.prec + 3) (y * y) - y * y| ≤ unitRoundoff := by
    refine (Decimal.abs_roundSig_sub_le _ _).trans ?_
    have unit : (10 : ℚ) ^ (1 - ((Decimal.prec + 3 : ℕ) : ℤ)) / 2 ≤ unitRoundoff / 4 := by
      norm_num [Decimal.prec, unitRoundoff]
    exact (mul_le_mul squared unit (by positivity) (by norm_num)).trans (by linarith)
  have rounded : |Decimal.roundSig (Decimal.prec + 3) (y * y) - x ^ 2| ≤ 16 * unitRoundoff :=
    (abs_sub_le _ _ _).trans (by linarith)
  have most : |Decimal.roundSig (Decimal.prec + 3) (y * y)| ≤ 5 :=
    (abs_le_add digits squared).trans (by linarith)
  exact (abs_fix_sub_le_add rounded most).trans (by linarith [Decimal.roundoff.nonneg])

end Roundings

namespace MemberBets

variable (bets : MemberBets)

/-- The shares of the stakes, as a belief. -/
def belief : Belief Outcome ℚ where
  weight := bets.share
  nonneg := bets.share_nonneg
  total := (sum_outcomes _).trans bets.share_sum

theorem allocation_close (outcome : Outcome) :
    |memberAllocation bets.rows outcome - bets.share outcome| ≤ 3 * unitRoundoff := by
  have size : |bets.share outcome| ≤ 1 := by
    rw [abs_of_nonneg (bets.share_nonneg outcome)]
    exact bets.share_le_one outcome
  have divided := abs_fix_sub_le_add (sub_self (bets.share outcome) ▸ abs_zero.le) size
  have added := abs_fix_sub_le_add divided (abs_le_add divided size)
  rw [bets.memberAllocation_eq]
  refine added.trans ?_
  norm_num [unitRoundoff]

theorem abs_share_sub_le (winningOutcome outcome : Outcome) :
    |bets.share outcome - if outcome = winningOutcome then 1 else 0| ≤ 1 := by
  have nonneg := bets.share_nonneg outcome
  have le_one := bets.share_le_one outcome
  rw [abs_le]
  split <;> constructor <;> linarith

theorem term_close (winningOutcome outcome : Outcome) :
    |brierTerm winningOutcome (memberAllocation bets.rows outcome) outcome -
      (bets.share outcome - if outcome = winningOutcome then 1 else 0) ^ 2| ≤
      30 * unitRoundoff := by
  have size := bets.abs_share_sub_le winningOutcome outcome
  have close : |(memberAllocation bets.rows outcome - if outcome = winningOutcome then 1 else 0) -
      (bets.share outcome - if outcome = winningOutcome then 1 else 0)| ≤ 3 * unitRoundoff := by
    rw [sub_sub_sub_cancel_right]
    exact bets.allocation_close outcome
  have small : 3 * unitRoundoff ≤ 1 := by norm_num [unitRoundoff]
  have most := (abs_le_add close size).trans (by linarith : _ ≤ (2 : ℚ))
  exact abs_square_sub_le ((abs_fix_sub_le_add close most).trans (by linarith)) size

theorem abs_cost_le (winningOutcome : Outcome) : |cost bets.share winningOutcome| ≤ 3 := by
  have square (outcome : Outcome) := (sq_le_one_iff_abs_le_one _).mpr
    (bets.abs_share_sub_le winningOutcome outcome)
  have nonneg := sq_nonneg (bets.share .buy - if Outcome.buy = winningOutcome then 1 else 0)
  rw [cost, abs_of_nonneg (Finset.sum_nonneg fun outcome _ => sq_nonneg _), sum_outcomes]
  linarith [square .buy, square .sell, square .hold]

/-- The three terms, and then the roundings of their sum. -/
theorem total_close (winningOutcome : Outcome) :
    |bets.total winningOutcome - cost bets.share winningOutcome| ≤ 200 * unitRoundoff := by
  have terms : |(brierTerms (memberAllocation bets.rows) winningOutcome).sum -
      cost bets.share winningOutcome| ≤ 90 * unitRoundoff := by
    have buy := abs_le.mp (bets.term_close winningOutcome .buy)
    have sell := abs_le.mp (bets.term_close winningOutcome .sell)
    have hold := abs_le.mp (bets.term_close winningOutcome .hold)
    rw [cost, sum_outcomes]
    simp only [brierTerms, allOutcomes, List.map_cons, List.map_nil, List.sum_cons, List.sum_nil]
    rw [abs_le]
    constructor <;> linarith
  have most := (abs_le_add terms (bets.abs_cost_le winningOutcome)).trans
    (by norm_num [unitRoundoff] : (3 : ℚ) + 90 * unitRoundoff ≤ 4)
  have near : RelativeError.Near unitRoundoff 3
      (brierTerms (memberAllocation bets.rows) winningOutcome).sum (bets.total winningOutcome) := by
    have added := Decimal.near_foldl_add le_rfl
      (brierTerms_nonneg (memberAllocation bets.rows) winningOutcome)
    rwa [zero_add] at added
  have growth : RelativeError.growth unitRoundoff 3 ≤ 4 * unitRoundoff := by
    norm_num [RelativeError.growth, unitRoundoff]
  have summed := (near.abs_sub_le Decimal.roundoff).trans
    (mul_le_mul most growth (by norm_num [RelativeError.growth, unitRoundoff]) (by norm_num))
  refine (abs_sub_le _ _ _).trans ((add_le_add summed terms).trans ?_)
  linarith [Decimal.roundoff.nonneg]

/-- The score is the cost of the shares, rounded to six places. -/
theorem score_close (winningOutcome : Outcome) :
    ∃ score, bets.score winningOutcome = .ok score ∧ 0 ≤ score ∧ score ≤ 2 ∧
      Decimal.Scaled 6 score ∧
      |score - cost bets.share winningOutcome| ≤ 1 / (2 * 10 ^ 6) + 1 / 10 ^ 24 := by
  obtain ⟨scored, nonneg, le_two⟩ := bets.score_eq winningOutcome
  refine ⟨_, scored, nonneg, le_two, ⟨_, rfl⟩, ?_⟩
  have total := bets.total_close winningOutcome
  have rounded : |(Decimal.halfUp (bets.total winningOutcome * 10 ^ 6) : ℚ) / 10 ^ 6 -
      bets.total winningOutcome| ≤ 1 / (2 * 10 ^ 6) := by
    have units := abs_le.mp (Decimal.abs_halfUp_sub_le (bets.total winningOutcome * 10 ^ 6))
    rw [abs_le]
    constructor <;> linarith
  have tiny : 200 * unitRoundoff ≤ 1 / 10 ^ 24 := by norm_num [unitRoundoff]
  exact (abs_sub_le _ _ _).trans (add_le_add rounded (total.trans tiny))

end MemberBets

section Mean

variable {n : ℕ} {score exact : Fin n → ℚ}

theorem q_halfEven_close {x y : ℚ} (rounded : q x 6 .halfEven = .ok y) :
    |y - x| ≤ 1 / (2 * 10 ^ 6) := by
  obtain ⟨_, rfl⟩ := Decimal.quantize_eq_some.mp (orRaise_eq_ok.mp rounded)
  have units := abs_le.mp (Decimal.abs_halfEven_sub_le (x * 10 ^ 6))
  rw [Decimal.Rounding.toInt, abs_le]
  constructor <;> linarith

/-- The mean that the leaderboard shows, against the exact one. -/
theorem shown_mean_close (some_market : n ≠ 0) (few : n ≤ 10 ^ 21)
    (nonneg : ∀ k, 0 ≤ score k) (le_two : ∀ k, score k ≤ 2)
    (scaled : ∀ k, Decimal.Scaled 6 (score k))
    (close : ∀ k, |score k - exact k| ≤ 1 / (2 * 10 ^ 6) + 1 / 10 ^ 24) :
    ∃ mean, q (Decimal.div (Decimal.sum ((List.finRange n).map score)) n) 6 .halfEven = .ok mean ∧
      |mean - (∑ k, exact k) / n| ≤ 1 / 10 ^ 6 + 1 / 10 ^ 23 := by
  have count : (0 : ℚ) < n := by exact_mod_cast Nat.pos_of_ne_zero some_market
  have bounded : ∀ x ∈ (List.finRange n).map score, 0 ≤ x ∧ x ≤ 2 ∧ Decimal.Scaled 6 x := by
    intro x member
    obtain ⟨k, _, rfl⟩ := List.mem_map.mp member
    exact ⟨nonneg k, le_two k, scaled k⟩
  have sum_le : ∑ k, score k ≤ n * 2 := by
    have each := Finset.sum_le_card_nsmul Finset.univ score 2 fun k _ => le_two k
    rwa [Finset.card_fin, nsmul_eq_mul] at each
  have total : Decimal.sum ((List.finRange n).map score) = ∑ k, score k := by
    have most : (n : ℚ) ≤ 10 ^ 21 := by exact_mod_cast few
    rw [Fin.sum_univ_def] at sum_le ⊢
    refine Decimal.sum_scaled (fun x member => (bounded x member).2.2)
      (fun x member => (bounded x member).1) ?_
    norm_num [Decimal.prec]
    linarith
  have listed : (List.finRange n).map score ≠ [] := by simpa using some_market
  obtain ⟨mean, shown, _, _⟩ :=
    q_mean listed fun x member => ⟨(bounded x member).1, (bounded x member).2.1⟩
  rw [List.length_map, List.length_finRange, total] at shown
  rw [total]
  refine ⟨mean, shown, ?_⟩
  have size : |(∑ k, score k) / n| ≤ 2 := by
    rw [abs_of_nonneg (div_nonneg (Finset.sum_nonneg fun k _ => nonneg k) count.le)]
    exact (div_le_iff₀ count).mpr (by linarith)
  have terms : |(∑ k, score k) / n - (∑ k, exact k) / n| ≤ 1 / (2 * 10 ^ 6) + 1 / 10 ^ 24 := by
    have each := (Finset.abs_sum_le_sum_abs (fun k => score k - exact k) Finset.univ).trans
      (Finset.sum_le_card_nsmul _ _ _ fun k _ => close k)
    rw [Finset.card_fin, nsmul_eq_mul, Finset.sum_sub_distrib] at each
    rw [← sub_div, abs_div, abs_of_pos count]
    exact (div_le_iff₀ count).mpr (by linarith)
  have divided := abs_fix_sub_le_add terms size
  have rounded := q_halfEven_close shown
  have tiny : 2 * unitRoundoff ≤ 1 / 10 ^ 24 := by norm_num [unitRoundoff]
  exact (abs_sub_le _ _ _).trans ((add_le_add rounded divided).trans (by linarith))

end Mean

/-- How a member bets on markets that are all settled: the same bets whatever the verdicts. -/
structure Strategy (n : ℕ) where
  member : ℕ × Member
  bets : Fin n → MemberBets
  db : (Fin n → Outcome) → Db
  placed : ∀ verdicts, participations (db verdicts) member.1 =
    (List.finRange n).map fun k => (verdicts k, (bets k).rows)

namespace Strategy

variable {n : ℕ} (strategy : Strategy n)

/-- The Brier scores that the leaderboard shows of the member. -/
def Shows (score : (Fin n → Outcome) → ℚ) : Prop :=
  ∀ verdicts balances profits, ∃ line,
    memberScore (strategy.db verdicts) balances profits strategy.member = .ok line ∧
      line.brier = some (score verdicts)

/-- The distance of the shares from a belief, on average over the markets. -/
def meanDistance (belief : Belief (Fin n → Outcome) ℚ) : ℚ :=
  (∑ k, distance (strategy.bets k).share (belief.map fun verdicts => verdicts k).weight) / n

/-- What a line shows is the mean cost of the shares, up to the roundings. -/
theorem exists_shown (some_market : n ≠ 0) (few : n ≤ 10 ^ 21) (verdicts : Fin n → Outcome) :
    ∃ brier, (∀ balances profits, ∃ line,
        memberScore (strategy.db verdicts) balances profits strategy.member = .ok line ∧
          line.brier = some brier) ∧
      |brier - (∑ k, cost (strategy.bets k).share (verdicts k)) / n| ≤
        1 / 10 ^ 6 + 1 / 10 ^ 23 := by
  choose score scored nonneg le_two scaled close using
    fun k => (strategy.bets k).score_close (verdicts k)
  obtain ⟨mean, shown, near⟩ := shown_mean_close some_market few nonneg le_two scaled close
  refine ⟨mean, fun balances profits => ?_, near⟩
  have briers : (participations (strategy.db verdicts) strategy.member.1).mapM
      (fun entry => brierScore (memberAllocation entry.2) entry.1) =
        .ok ((List.finRange n).map score) := by
    rw [strategy.placed, List.mapM_map]
    exact mapM_eq_map fun k _ => scored k
  have count : (participations (strategy.db verdicts) strategy.member.1).length = n := by
    rw [strategy.placed, List.length_map, List.length_finRange]
  have filled : participations (strategy.db verdicts) strategy.member.1 ≠ [] := by
    rw [← List.length_pos_iff, count]
    exact Nat.pos_of_ne_zero some_market
  obtain ⟨rate, rateOk⟩ := exists_hitRate (List.length_filter_le (fun entry =>
    decide (leader (memberAllocation entry.2) = entry.1))
    (participations (strategy.db verdicts) strategy.member.1)) (by rwa [count])
  rw [memberScore, briers]
  simp only [if_neg filled]
  exact ⟨_, bind_eq_ok.mpr ⟨_, rfl, bind_eq_ok.mpr ⟨rate, rateOk, bind_eq_ok.mpr ⟨some mean,
    map_eq_ok.mpr ⟨mean, by rwa [count], rfl⟩, rfl⟩⟩⟩, rfl⟩

/-- The mean cost, in expectation: that of the belief itself, and the distance from it. -/
theorem expected_mean_cost (belief : Belief (Fin n → Outcome) ℚ) :
    belief.expected (fun verdicts => (∑ k, cost (strategy.bets k).share (verdicts k)) / n) =
      (∑ k, (belief.map fun verdicts => verdicts k).expected
        (cost (belief.map fun verdicts => verdicts k).weight)) / n +
        strategy.meanDistance belief := by
  have market : ∀ k, belief.expected (fun verdicts => cost (strategy.bets k).share (verdicts k)) =
      (belief.map fun verdicts => verdicts k).expected
          (cost (belief.map fun verdicts => verdicts k).weight) +
        distance (strategy.bets k).share (belief.map fun verdicts => verdicts k).weight := by
    intro k
    rw [← Belief.expected_map belief (fun verdicts => verdicts k) (cost (strategy.bets k).share)]
    exact Belief.expected_cost_eq _ _
  rw [belief.expected_div, belief.expected_sum, Finset.sum_congr rfl fun k _ => market k,
    Finset.sum_add_distrib, add_div]
  rfl

/-- The shown score, in expectation. -/
theorem exists_expected (some_market : n ≠ 0) (few : n ≤ 10 ^ 21)
    (belief : Belief (Fin n → Outcome) ℚ) :
    ∃ score, strategy.Shows score ∧
      |belief.expected score - ((∑ k, (belief.map fun verdicts => verdicts k).expected
        (cost (belief.map fun verdicts => verdicts k).weight)) / n +
        strategy.meanDistance belief)| ≤ 1 / 10 ^ 6 + 1 / 10 ^ 23 := by
  choose score shown close using strategy.exists_shown some_market few
  refine ⟨score, shown, ?_⟩
  rw [← strategy.expected_mean_cost]
  exact belief.abs_expected_sub_le close

end Strategy

/-- In expectation under any joint belief about the verdicts, the Brier score that the
leaderboard shows grows with the distance of the shares from the belief. Bets that follow the
belief on every market expect the best score, up to the roundings. -/
theorem honest_bets_score_best {n : ℕ} (some_market : n ≠ 0) (few : n ≤ 10 ^ 21)
    (belief : Belief (Fin n → Outcome) ℚ) (first second : Strategy n) :
    ∃ score other, first.Shows score ∧ second.Shows other ∧
      |belief.expected other - belief.expected score -
        (second.meanDistance belief - first.meanDistance belief)| ≤ 21 / 10 ^ 7 ∧
      ((∀ k, (first.bets k).share = (belief.map fun verdicts => verdicts k).weight) →
        belief.expected score ≤ belief.expected other + 21 / 10 ^ 7) := by
  obtain ⟨score, shown, near⟩ := first.exists_expected some_market few belief
  obtain ⟨other, otherShown, otherNear⟩ := second.exists_expected some_market few belief
  have apart : |belief.expected other - belief.expected score -
      (second.meanDistance belief - first.meanDistance belief)| ≤ 21 / 10 ^ 7 := by
    rw [abs_le] at near otherNear ⊢
    constructor <;> linarith
  refine ⟨score, other, shown, otherShown, apart, fun follows => ?_⟩
  have own : first.meanDistance belief = 0 := by
    rw [Strategy.meanDistance, Finset.sum_eq_zero fun k _ => by rw [follows k, distance_self],
      zero_div]
  have others : 0 ≤ second.meanDistance belief :=
    div_nonneg (Finset.sum_nonneg fun k _ => distance_nonneg _ _) (Nat.cast_nonneg n)
  linarith [(abs_le.mp apart).1]

/-- One market, settled with each verdict, and one member with bets on it. -/
def settledDesk (bets : MemberBets) (verdicts : Fin 1 → Outcome) : Db :=
  let market := { gateMarket with status := .settled, winningOutcome := some (verdicts 0) }
  (applyWrites Db.empty (.insertMember { email := "a", name := "a" } :: .insertMarket market ::
    bets.rows.map Write.insertBet)).toOption.getD Db.empty

def oneMarket (bets : MemberBets)
    (placed : ∀ verdicts, participations (settledDesk bets verdicts) 1 =
      [(verdicts 0, bets.rows)]) : Strategy 1 where
  member := (1, { email := "a", name := "a" })
  bets _ := bets
  db := settledDesk bets
  placed := placed

/-- Half of the points on BUY and half on SELL, for a member who believes in both alike. -/
theorem honest_bets_score_best_even :
    ∃ score other, (oneMarket evenBets fun _ => rfl).Shows score ∧
      (oneMarket sellBets fun _ => rfl).Shows other ∧
      (evenBets.belief.map fun outcome (_ : Fin 1) => outcome).expected score ≤
        (evenBets.belief.map fun outcome (_ : Fin 1) => outcome).expected other + 21 / 10 ^ 7 := by
  obtain ⟨score, other, shown, otherShown, _, best⟩ :=
    honest_bets_score_best one_ne_zero (by norm_num)
      (evenBets.belief.map fun outcome (_ : Fin 1) => outcome)
      (oneMarket evenBets fun _ => rfl) (oneMarket sellBets fun _ => rfl)
  refine ⟨score, other, shown, otherShown, best fun k => ?_⟩
  obtain rfl := Subsingleton.elim k 0
  funext outcome
  cases outcome <;> decide +kernel

end FundPolymarket
