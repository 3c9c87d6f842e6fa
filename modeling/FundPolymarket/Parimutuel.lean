import FundPolymarket.Consensus

set_option autoImplicit false

/- The parimutuel settlement gives back the whole pool but for the rake. Stakes are
whole hundredths, and the pool is small enough for the 28 digits of the context. -/
namespace FundPolymarket

open Decimal (Scaled unitRoundoff)

/-- Everything that was staked. -/
def pool (stakes : List Stake) : ℚ := (stakes.map Stake.amount).sum

/-- The rows that count. -/
def positiveStakes (stakes : List Stake) : List Stake := stakes.filter fun s => 0 < s.amount

/-- The rake of a settlement: nothing where nobody has won. -/
def withheld (stakes : List Stake) (winningOutcome : Outcome) (rakeBps : ℤ) : ℚ :=
  if winningPool stakes winningOutcome ≤ 0 then 0
  else (rake stakes winningOutcome rakeBps).toOption.getD 0

/-- Stakes that the database can hold, in a pool that the context can. -/
structure CentStakes (stakes : List Stake) : Prop where
  scaled : ∀ s ∈ stakes, Scaled 2 s.amount
  nonneg : ∀ s ∈ stakes, 0 ≤ s.amount
  small : pool stakes < 10 ^ 24

theorem q_down_eq_ok {x y : ℚ} (nonneg : 0 ≤ x) (success : q x 2 .down = .ok y) :
    Scaled 2 y ∧ 0 ≤ y ∧ y ≤ x := by
  have quantized := orRaise_eq_ok.mp success
  exact ⟨Decimal.quantize_scaled quantized, Decimal.quantize_down_nonneg nonneg quantized,
    Decimal.quantize_down_le nonneg quantized⟩

/-- Two rounded operations lose or win less than this factor. -/
def slack : ℚ := (1 + unitRoundoff) ^ 2

theorem slack_lt : slack < 1 + 1 / 10 ^ 26 := by norm_num [slack, unitRoundoff]

section Pools

variable {stakes : List Stake} {winningOutcome : Outcome}

namespace CentStakes

theorem pool_nonneg (cents : CentStakes stakes) : 0 ≤ pool stakes := by
  apply List.sum_nonneg
  intro amount member
  obtain ⟨s, staked, rfl⟩ := List.mem_map.mp member
  exact cents.nonneg s staked

/-- Any part of the stakes is a smaller pool. -/
theorem filter (cents : CentStakes stakes) (keep : Stake → Bool) :
    CentStakes (stakes.filter keep) ∧ pool (stakes.filter keep) ≤ pool stakes := by
  have below : pool (stakes.filter keep) ≤ pool stakes := by
    apply List.Sublist.sum_le_sum (List.filter_sublist.map _)
    intro amount member
    obtain ⟨s, staked, rfl⟩ := List.mem_map.mp member
    exact cents.nonneg s staked
  exact ⟨⟨fun s member => cents.scaled s (List.mem_filter.mp member).1,
    fun s member => cents.nonneg s (List.mem_filter.mp member).1,
    below.trans_lt cents.small⟩, below⟩

theorem sum_eq (cents : CentStakes stakes) :
    Decimal.sum (stakes.map Stake.amount) = pool stakes := by
  refine Decimal.sum_exact ?_ ?_ ?_
  · intro x member
    obtain ⟨s, staked, rfl⟩ := List.mem_map.mp member
    exact cents.scaled s staked
  · intro x member
    obtain ⟨s, staked, rfl⟩ := List.mem_map.mp member
    exact cents.nonneg s staked
  · have small := cents.small
    rw [pool] at small
    linarith

theorem pool_scaled (cents : CentStakes stakes) : Scaled 2 (pool stakes) := by
  refine Scaled.sum fun x member => ?_
  obtain ⟨s, staked, rfl⟩ := List.mem_map.mp member
  exact cents.scaled s staked

/-- Grouped per member, the stakes add up to the pool. -/
theorem tally (cents : CentStakes stakes) :
    Tally.Cents (Tally.ofList (stakes.map fun s => (s.memberId, s.amount))) ∧
      Tally.total (Tally.ofList (stakes.map fun s => (s.memberId, s.amount))) = pool stakes := by
  have total : Tally.total (stakes.map fun s => (s.memberId, s.amount)) = pool stakes := by
    rw [Tally.total, pool, List.map_map]
    rfl
  have entryCents : Tally.Cents (stakes.map fun s => (s.memberId, s.amount)) := by
    refine ⟨?_, ?_⟩
    · intro entry member
      obtain ⟨s, staked, rfl⟩ := List.mem_map.mp member
      exact cents.scaled s staked
    · intro entry member
      obtain ⟨s, staked, rfl⟩ := List.mem_map.mp member
      exact cents.nonneg s staked
  have small := cents.small
  rw [← total]
  exact Tally.cents_ofList entryCents (by linarith)

end CentStakes

/-- A pool splits into any part and the rest. -/
theorem pool_filter_add (stakes : List Stake) (keep : Stake → Bool) :
    pool (stakes.filter keep) + pool (stakes.filter fun s => !keep s) = pool stakes := by
  have split := List.sum_map_filter_add_sum_map_filter_not (keep · = true) Stake.amount stakes
  simpa [pool] using split

/-- Rows that are not positive add nothing. -/
theorem pool_positive (nonneg : ∀ s ∈ stakes, 0 ≤ s.amount) :
    pool (stakes.filter fun s => 0 < s.amount) = pool stakes := by
  induction stakes with
  | nil => rfl
  | cons s rest ih =>
      have head := nonneg s (by simp)
      have rest := ih fun other member => nonneg other (by simp [member])
      simp only [pool] at rest ⊢
      by_cases positive : 0 < s.amount
      · simp [positive, rest]
      · have zero : s.amount = 0 := le_antisymm (not_lt.mp positive) head
        simp [zero, rest]

theorem winners_pos {s : Stake} (member : s ∈ winners stakes winningOutcome) : 0 < s.amount := by
  rw [winners, List.mem_filter, decide_eq_true_eq] at member
  exact member.2.2

theorem winners_positiveStakes (stakes : List Stake) (winningOutcome : Outcome) :
    winners (positiveStakes stakes) winningOutcome = winners stakes winningOutcome := by
  rw [winners, positiveStakes, List.filter_filter, winners]
  congr 1
  funext s
  by_cases positive : 0 < s.amount <;> simp [positive]

theorem positiveStakes_cents (cents : ∀ s ∈ stakes, Scaled 2 s.amount)
    (small : pool (positiveStakes stakes) < 10 ^ 24) : CentStakes (positiveStakes stakes) := by
  refine ⟨?_, ?_, small⟩
  · intro s member
    exact cents s (List.mem_filter.mp member).1
  · intro s member
    have positive := (List.mem_filter.mp member).2
    rw [decide_eq_true_eq] at positive
    exact positive.le

theorem totalPool_eq (cents : CentStakes stakes) : totalPool stakes = pool stakes := by
  rw [totalPool, (cents.filter _).1.sum_eq, pool_positive cents.nonneg]

theorem winningPool_eq (cents : CentStakes stakes) (winningOutcome : Outcome) :
    winningPool stakes winningOutcome = pool (winners stakes winningOutcome) :=
  (cents.filter _).1.sum_eq

theorem winners_pool_le (cents : CentStakes stakes) (winningOutcome : Outcome) :
    pool (winners stakes winningOutcome) ≤ pool stakes := (cents.filter _).2

/-- Less than ten thousand basis points are less than the whole, also when rounded. -/
theorem raked_le {losing : ℚ} {rakeBps : ℤ} (losingNonneg : 0 ≤ losing) (lower : 0 ≤ rakeBps)
    (upper : rakeBps < 10000) :
    0 ≤ Decimal.div (Decimal.mul losing rakeBps) 10000 ∧
      Decimal.div (Decimal.mul losing rakeBps) 10000 ≤ losing * (99991 / 100000) := by
  have bpsNonneg : (0 : ℚ) ≤ rakeBps := by exact_mod_cast lower
  have bpsBound : (rakeBps : ℚ) ≤ 9999 := by exact_mod_cast Int.le_of_lt_add_one upper
  have product : 0 ≤ losing * rakeBps := mul_nonneg losingNonneg bpsNonneg
  have exactNonneg : 0 ≤ losing * rakeBps / 10000 := div_nonneg product (by norm_num)
  have near := Decimal.near_div_mul losing rakeBps 10000
  refine ⟨near.nonneg Decimal.roundoff exactNonneg, ?_⟩
  calc
    Decimal.div (Decimal.mul losing rakeBps) 10000
      ≤ losing * rakeBps / 10000 * slack := (near.le_mul_pow exactNonneg).2
    _ ≤ losing * 9999 / 10000 * slack := by
        have positive : 0 ≤ slack := by norm_num [slack, unitRoundoff]
        gcongr
    _ = losing * (9999 / 10000 * slack) := by ring
    _ ≤ losing * (99991 / 100000) := by
        gcongr
        norm_num [slack, unitRoundoff]

/-- What nobody has won, in the arithmetic of the context. -/
theorem losingPool_eq (cents : CentStakes stakes) :
    Decimal.sub (totalPool stakes) (winningPool stakes winningOutcome) =
      pool stakes - pool (winners stakes winningOutcome) := by
  have below := winners_pool_le cents winningOutcome
  have small := cents.small
  have winnersNonneg : 0 ≤ pool (winners stakes winningOutcome) := (cents.filter _).1.pool_nonneg
  rw [totalPool_eq cents, winningPool_eq cents winningOutcome]
  exact Decimal.sub_exact cents.pool_scaled (cents.filter _).1.pool_scaled below (by linarith)

/-- A part of the losing pool is always left. -/
theorem rake_le {rakeBps : ℤ} {amount : ℚ} (cents : CentStakes stakes) (lower : 0 ≤ rakeBps)
    (upper : rakeBps < 10000) (success : rake stakes winningOutcome rakeBps = .ok amount) :
    Scaled 2 amount ∧ 0 ≤ amount ∧
      amount ≤ (pool stakes - pool (winners stakes winningOutcome)) * (99991 / 100000) := by
  have below := winners_pool_le cents winningOutcome
  rw [rake, losingPool_eq cents] at success
  obtain ⟨rakedNonneg, raked_le⟩ := raked_le (sub_nonneg.mpr below) lower upper
  obtain ⟨scaled, nonneg, le⟩ := q_down_eq_ok rakedNonneg success
  exact ⟨scaled, nonneg, le.trans raked_le⟩

/-- The rake stays within the losing pool. -/
theorem rake_bounds {rakeBps : ℤ} {amount : ℚ} (cents : CentStakes stakes) (lower : 0 ≤ rakeBps)
    (upper : rakeBps < 10000) (success : rake stakes winningOutcome rakeBps = .ok amount) :
    Scaled 2 amount ∧ 0 ≤ amount ∧
      amount ≤ pool stakes - pool (winners stakes winningOutcome) := by
  obtain ⟨scaled, nonneg, le⟩ := rake_le cents lower upper success
  have below := winners_pool_le cents winningOutcome
  exact ⟨scaled, nonneg, by linarith⟩

end Pools

section Shares

variable {distributable total : ℚ}

/-- A rounded quotient times a rounded product, against the exact part. -/
theorem mul_div_le {amount : ℚ} (distributableNonneg : 0 ≤ distributable) (totalPos : 0 < total)
    (staked : 0 ≤ amount) :
    0 ≤ Decimal.mul distributable (Decimal.div amount total) ∧
      Decimal.mul distributable (Decimal.div amount total) ≤
        distributable * slack / total * amount := by
  have exactNonneg : 0 ≤ distributable * (amount / total) :=
    mul_nonneg distributableNonneg (div_nonneg staked totalPos.le)
  have near := Decimal.near_mul_div distributable amount total
  refine ⟨near.nonneg Decimal.roundoff exactNonneg, ?_⟩
  calc
    Decimal.mul distributable (Decimal.div amount total)
      ≤ distributable * (amount / total) * slack := (near.le_mul_pow exactNonneg).2
    _ = distributable * slack / total * amount := by ring

/-- One share is at most the exact share, up to the rounding of two operations. -/
theorem share_bounds {s : Stake} {paid : ℕ × ℚ} (distributableNonneg : 0 ≤ distributable)
    (totalPos : 0 < total) (staked : 0 ≤ s.amount)
    (success : share distributable total s = .ok paid) :
    Scaled 2 paid.2 ∧ 0 ≤ paid.2 ∧ paid.2 ≤ distributable * slack / total * s.amount := by
  obtain ⟨amount, quantized, same⟩ := bind_eq_ok.mp success
  cases same
  obtain ⟨valueNonneg, value_le⟩ := mul_div_le distributableNonneg totalPos staked
  obtain ⟨scaled, nonneg, le⟩ := q_down_eq_ok valueNonneg quantized
  exact ⟨scaled, nonneg, le.trans value_le⟩

/-- The truncated shares add up to at most the exact total, up to the rounding. -/
theorem shares_bounds {winning : List Stake} {paid : List (ℕ × ℚ)}
    (distributableNonneg : 0 ≤ distributable) (totalPos : 0 < total)
    (staked : ∀ s ∈ winning, 0 ≤ s.amount)
    (success : winning.mapM (share distributable total) = .ok paid) :
    Tally.Cents paid ∧ Tally.total paid ≤ distributable * slack / total * pool winning := by
  induction winning generalizing paid with
  | nil =>
      cases success
      exact ⟨Tally.Cents.nil, by simp [pool]⟩
  | cons s winning ih =>
      obtain ⟨first, rest, firstOk, restOk, rfl⟩ := mapM_eq_ok_cons.mp success
      obtain ⟨scaled, nonneg, bound⟩ :=
        share_bounds distributableNonneg totalPos (staked s (by simp)) firstOk
      obtain ⟨restCents, restBound⟩ :=
        ih (fun other member => staked other (by simp [member])) restOk
      refine ⟨⟨?_, ?_⟩, ?_⟩
      · intro entry member
        rcases List.mem_cons.mp member with rfl | member
        · exact scaled
        · exact restCents.scaled entry member
      · intro entry member
        rcases List.mem_cons.mp member with rfl | member
        · exact nonneg
        · exact restCents.nonneg entry member
      · rw [Tally.total_cons, pool, List.map_cons, List.sum_cons, mul_add]
        exact add_le_add bound restBound

/-- The rounding is worth less than a hundredth, and hundredths are all there is. -/
theorem shares_le {winning : List Stake} {paid : List (ℕ × ℚ)}
    (distributableNonneg : 0 ≤ distributable) (scaled : Scaled 2 distributable)
    (small : distributable < 10 ^ 24) (somebody : 0 < pool winning)
    (staked : ∀ s ∈ winning, 0 ≤ s.amount)
    (success : winning.mapM (share distributable (pool winning)) = .ok paid) :
    Tally.Cents paid ∧ Tally.total paid ≤ distributable := by
  obtain ⟨paidCents, paidBound⟩ := shares_bounds distributableNonneg somebody staked success
  rw [div_mul_cancel₀ _ somebody.ne'] at paidBound
  have near : Tally.total paid < distributable + 1 / 10 ^ 2 := by
    have slackBound := slack_lt
    have gap : distributable * slack ≤ distributable * (1 + 1 / 10 ^ 26) := by gcongr
    have tiny : distributable * (1 / 10 ^ 26) < 1 / 10 ^ 2 := by
      rw [mul_one_div, div_lt_iff₀ (by norm_num)]
      linarith
    linarith
  exact ⟨paidCents, paidCents.total_scaled.le_of_lt_add scaled near⟩

end Shares

section Conservation

variable {stakes : List Stake} {winningOutcome : Outcome} {rakeBps : ℤ} {payouts : List (ℕ × ℚ)}

/-- What a settlement hands out, member by member, and what it keeps. -/
structure Conserves (stakes : List Stake) (winningOutcome : Outcome) (rakeBps : ℤ)
    (payouts : List (ℕ × ℚ)) : Prop where
  cents : Tally.Cents payouts
  members : (payouts.map Prod.fst).Nodup
  kept : 0 ≤ withheld stakes winningOutcome rakeBps
  total : Tally.total payouts + withheld stakes winningOutcome rakeBps = pool stakes

theorem refunds_conserve (cents : CentStakes stakes)
    (nobody : winningPool stakes winningOutcome ≤ 0) :
    Conserves stakes winningOutcome rakeBps (refunds stakes) := by
  obtain ⟨refundCents, total⟩ := (cents.filter fun s => 0 < s.amount).1.tally
  refine ⟨refundCents, Tally.nodup_ofList _, ?_, ?_⟩
  · rw [withheld, if_pos nobody]
  · rw [withheld, if_pos nobody, add_zero, refunds, total, pool_positive cents.nonneg]

/-- The remainder closes the gap that truncation has left. -/
theorem payRemainder_total {distributable : ℚ} {winning : List Stake} (tally : Tally.Cents payouts)
    (scaled : Scaled 2 distributable) (below : Tally.total payouts ≤ distributable)
    (small : distributable < 10 ^ 26) (somebody : winning ≠ []) :
    Tally.Cents (payRemainder (distributable - Tally.total payouts) winning payouts) ∧
      Tally.total (payRemainder (distributable - Tally.total payouts) winning payouts) =
        distributable := by
  obtain ⟨top, topWinner_eq⟩ : ∃ top, topWinner winning = some top := by
    rw [topWinner]
    exact Option.isSome_iff_exists.mp (List.isSome_maxOn?_iff.mpr somebody)
  rw [payRemainder, topWinner_eq]
  dsimp only
  split
  · have added := Tally.cents_add tally top.memberId (scaled.sub tally.total_scaled)
      (sub_nonneg.mpr below) (by linarith)
    exact ⟨added.1, by rw [added.2]; ring⟩
  · rename_i nothing
    exact ⟨tally, le_antisymm below (by linarith [not_lt.mp nothing])⟩

theorem payRemainder_nodup {remainder : ℚ} {winning : List Stake}
    (nodup : (payouts.map Prod.fst).Nodup) :
    ((payRemainder remainder winning payouts).map Prod.fst).Nodup := by
  rw [payRemainder]
  split
  · split
    · exact Tally.nodup_add nodup _ _
    · exact nodup
  · exact nodup

theorem winnings_conserve {amount : ℚ} {paid : List (ℕ × ℚ)} (cents : CentStakes stakes)
    (lower : 0 ≤ rakeBps) (upper : rakeBps < 10000)
    (somebody : 0 < winningPool stakes winningOutcome)
    (raked : rake stakes winningOutcome rakeBps = .ok amount)
    (shared : (winners stakes winningOutcome).mapM
      (share (Decimal.sub (totalPool stakes) amount) (winningPool stakes winningOutcome)) =
        .ok paid) :
    Conserves stakes winningOutcome rakeBps
      (payRemainder (Decimal.sub (Decimal.sub (totalPool stakes) amount)
        (Decimal.sum ((Tally.ofList paid).map Prod.snd))) (winners stakes winningOutcome)
        (Tally.ofList paid)) := by
  obtain ⟨rakeScaled, rakeNonneg, rakeLe⟩ := rake_bounds cents lower upper raked
  have winnersCents := (cents.filter fun s => s.outcome = winningOutcome ∧ 0 < s.amount).1
  have winnersNonneg : 0 ≤ pool (winners stakes winningOutcome) := winnersCents.pool_nonneg
  have small := cents.small
  set distributable : ℚ := pool stakes - amount with distributableDef
  have nonneg : 0 ≤ distributable := by linarith
  have scaled : Scaled 2 distributable := cents.pool_scaled.sub rakeScaled
  have distributable_eq : Decimal.sub (totalPool stakes) amount = distributable := by
    rw [totalPool_eq cents]
    exact Decimal.sub_exact cents.pool_scaled rakeScaled (by linarith) (by linarith)
  have pool_eq := winningPool_eq cents winningOutcome
  rw [distributable_eq] at shared ⊢
  rw [pool_eq] at shared somebody
  obtain ⟨paidCents, below⟩ :=
    shares_le nonneg scaled (by linarith) somebody winnersCents.nonneg shared
  obtain ⟨tallyCents, tallyTotal⟩ := Tally.cents_ofList paidCents (by linarith)
  rw [← tallyTotal] at below
  have remainder_eq : Decimal.sub distributable (Decimal.sum ((Tally.ofList paid).map Prod.snd)) =
      distributable - Tally.total (Tally.ofList paid) := by
    have paidNonneg := tallyCents.total_nonneg
    rw [tallyCents.sum_eq (by linarith)]
    exact Decimal.sub_exact scaled tallyCents.total_scaled below (by linarith)
  have nonempty : winners stakes winningOutcome ≠ [] := by
    intro nobody
    rw [nobody] at somebody
    exact absurd somebody (by simp [pool])
  obtain ⟨finalCents, finalTotal⟩ :=
    payRemainder_total tallyCents scaled below (by linarith) nonempty
  have kept_eq : withheld stakes winningOutcome rakeBps = amount := by
    rw [withheld, if_neg (by rw [pool_eq]; exact not_le.mpr somebody), raked]
    rfl
  rw [remainder_eq]
  refine ⟨finalCents, payRemainder_nodup (Tally.nodup_ofList paid), ?_, ?_⟩
  · rw [kept_eq]
    exact rakeNonneg
  · rw [finalTotal, kept_eq]
    ring

/-- Whatever is staked is paid out or withheld, to the cent. -/
theorem settleParimutuel_conserves (cents : CentStakes stakes)
    (success : settleParimutuel stakes winningOutcome rakeBps = .ok payouts) :
    Conserves stakes winningOutcome rakeBps payouts := by
  obtain ⟨inRange, rest⟩ := raiseIf_bind_eq_ok.mp success
  push Not at inRange
  split at rest
  · rename_i nobody
    cases rest
    exact refunds_conserve cents nobody
  · rename_i somebody
    obtain ⟨amount, raked, rest⟩ := bind_eq_ok.mp rest
    obtain ⟨paid, shared, same⟩ := bind_eq_ok.mp rest
    cases same
    exact winnings_conserve cents inRange.1 inRange.2 (not_le.mp somebody) raked shared

theorem sum_stakes_scaled (cents : ∀ s ∈ stakes, Scaled 2 s.amount) (keep : Stake → Bool) :
    Scaled 2 (Decimal.sum ((stakes.filter keep).map Stake.amount)) := by
  refine Decimal.scaled_foldl_add Scaled.zero fun amount member => ?_
  obtain ⟨s, kept, rfl⟩ := List.mem_map.mp member
  exact cents s (List.mem_filter.mp kept).1

/-- Stakes of any size are settled in whole cents, with one payout for a member. -/
theorem settleParimutuel_whole (cents : ∀ s ∈ stakes, Scaled 2 s.amount)
    (success : settleParimutuel stakes winningOutcome rakeBps = .ok payouts) :
    (payouts.map Prod.fst).Nodup ∧ ∀ entry ∈ payouts, Scaled 2 entry.2 := by
  have closed : ∀ x y, Scaled 2 x → Scaled 2 y → Scaled 2 (Decimal.add x y) :=
    fun _ _ => Decimal.scaled_add
  obtain ⟨_, rest⟩ := raiseIf_bind_eq_ok.mp success
  split at rest
  · cases rest
    refine ⟨Tally.nodup_ofList _, Tally.forall_ofList Scaled.zero closed fun entry member => ?_⟩
    obtain ⟨s, kept, rfl⟩ := List.mem_map.mp member
    exact cents s (List.mem_filter.mp kept).1
  · obtain ⟨amount, raked, rest⟩ := bind_eq_ok.mp rest
    obtain ⟨paid, shared, same⟩ := bind_eq_ok.mp rest
    cases same
    have paidScaled : ∀ entry ∈ Tally.ofList paid, Scaled 2 entry.2 := by
      refine Tally.forall_ofList Scaled.zero closed fun entry member => ?_
      obtain ⟨s, _, shareOk⟩ := forall₂_exists_left (mapM_forall₂ shared) member
      obtain ⟨part, quantized, same⟩ := bind_eq_ok.mp shareOk
      cases same
      exact Decimal.quantize_scaled (orRaise_eq_ok.mp quantized)
    have distributable : Scaled 2 (Decimal.sub (totalPool stakes) amount) :=
      Decimal.scaled_sub (sum_stakes_scaled cents _)
        (Decimal.quantize_scaled (orRaise_eq_ok.mp raked))
    refine ⟨payRemainder_nodup (Tally.nodup_ofList paid), ?_⟩
    rw [payRemainder]
    split
    · split
      · refine Tally.forall_add Scaled.zero closed paidScaled (Decimal.scaled_sub distributable ?_)
        refine Decimal.scaled_foldl_add Scaled.zero fun x member => ?_
        obtain ⟨entry, listed, rfl⟩ := List.mem_map.mp member
        exact paidScaled entry listed
      · exact paidScaled
    · exact paidScaled

end Conservation

end FundPolymarket
