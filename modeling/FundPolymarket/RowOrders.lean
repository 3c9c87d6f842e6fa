import FundPolymarket.PayoutLaws
import FundPolymarket.Probabilities
import FundPolymarket.Resumption

set_option autoImplicit false

/- A select without an order may return the bets in any order. The consensus, the decision
and the settlement do not depend on it. -/
namespace FundPolymarket

open Decimal (Scaled)

section Stakes

variable {stakes reordered : List Stake} {winningOutcome : Outcome} {rakeBps : ℤ}

theorem pool_perm (perm : stakes.Perm reordered) : pool stakes = pool reordered :=
  (perm.map Stake.amount).sum_eq

theorem CentStakes.perm (perm : stakes.Perm reordered) (cents : CentStakes stakes) :
    CentStakes reordered :=
  ⟨fun s member => cents.scaled s (perm.mem_iff.mpr member),
    fun s member => cents.nonneg s (perm.mem_iff.mpr member), pool_perm perm ▸ cents.small⟩

theorem positiveStakes_perm (perm : stakes.Perm reordered) :
    (positiveStakes stakes).Perm (positiveStakes reordered) := perm.filter _

theorem winners_perm (perm : stakes.Perm reordered) (winningOutcome : Outcome) :
    (winners stakes winningOutcome).Perm (winners reordered winningOutcome) := perm.filter _

theorem participantCount_perm (perm : stakes.Perm reordered) :
    participantCount stakes = participantCount reordered :=
  ((positiveStakes_perm perm).map Stake.memberId).dedup.length_eq

theorem computeConsensus_perm (cents : CentStakes (positiveStakes stakes))
    (perm : stakes.Perm reordered) : computeConsensus stakes = computeConsensus reordered := by
  refine computeConsensus_congr ?_ (participantCount_perm perm)
  rw [stakeByOutcome_exact cents, stakeByOutcome_exact (cents.perm (positiveStakes_perm perm))]
  exact funext fun outcome => pool_perm (winners_perm perm outcome)

/-- Rows that tie for the remainder are one member's rows on one outcome: equal ones. -/
theorem topWinner_perm {winning others : List Stake} (perm : winning.Perm others)
    (alike : ∀ s ∈ winning, s.outcome = winningOutcome) : topWinner winning = topWinner others := by
  have key_le : ∀ {rows : List Stake} {top s : Stake}, topWinner rows = some top → s ∈ rows →
      toLex (s.amount, -(s.memberId : ℤ)) ≤ toLex (top.amount, -(top.memberId : ℤ)) := by
    intro rows top s chosen member
    rw [topWinner] at chosen
    have ordered := List.le_apply_get_maxOn?_of_mem
      (f := fun s : Stake => toLex (s.amount, -(s.memberId : ℤ))) member
    rwa [Option.get_of_eq_some _ chosen] at ordered
  by_cases nobody : winning = []
  · subst nobody
    rw [perm.nil_eq]
  · obtain ⟨top, chosen⟩ := exists_topWinner nobody
    obtain ⟨other, otherChosen⟩ :=
      exists_topWinner fun empty : others = [] => nobody (empty ▸ perm).eq_nil
    have topMember := topWinner_mem chosen
    have otherMember := perm.mem_iff.mpr (topWinner_mem otherChosen)
    have same := le_antisymm (key_le otherChosen (perm.mem_iff.mp topMember))
      (key_le chosen otherMember)
    obtain ⟨amounts, members⟩ := Prod.ext_iff.mp (toLex.injective same)
    have outcomes := (alike top topMember).trans (alike other otherMember).symm
    have ids : top.memberId = other.memberId := by exact_mod_cast neg_injective members
    have equal : top = other := by
      cases top
      cases other
      exact Stake.mk.injEq .. ▸ ⟨ids, outcomes, amounts⟩
    rw [chosen, otherChosen, equal]

theorem winnings_perm {distributable : ℚ} {winning others : List Stake}
    (perm : winning.Perm others) (winningOutcome : Outcome)
    (alike : ∀ s ∈ winning, s.outcome = winningOutcome)
    (cents : Tally.Cents (winning.map fun s =>
      (s.memberId, truncatedShare distributable (pool winning) s)))
    (small : truncatedTotal distributable (pool winning) winning < 10 ^ 26) :
    (winnings distributable winning).Perm (winnings distributable others) := by
  have total_eq : Tally.total (winning.map fun s =>
      (s.memberId, truncatedShare distributable (pool winning) s)) =
        truncatedTotal distributable (pool winning) winning := by
    rw [Tally.total, List.map_map]
    rfl
  have grouped : (tallied distributable winning).Perm (tallied distributable others) := by
    rw [tallied, tallied, ← pool_perm perm]
    exact Tally.ofList_perm (perm.map _) cents (total_eq.trans_lt small)
  rw [winnings, winnings, payRemainder, payRemainder, topWinner_perm perm alike,
    Tally.total_perm grouped]
  split
  · split
    · exact Tally.add_perm grouped (Tally.nodup_ofList _) _ _
    · exact grouped
  · exact grouped

theorem rake_perm (cents : CentStakes stakes) (perm : stakes.Perm reordered) :
    rake stakes winningOutcome rakeBps = rake reordered winningOutcome rakeBps := by
  rw [rake, rake, losingPool_eq cents, losingPool_eq (cents.perm perm), pool_perm perm,
    pool_perm (winners_perm perm winningOutcome)]

theorem refunds_perm (cents : CentStakes (positiveStakes stakes)) (perm : stakes.Perm reordered) :
    (refunds stakes).Perm (refunds reordered) := by
  have total : Tally.total ((positiveStakes stakes).map fun s => (s.memberId, s.amount)) =
      pool (positiveStakes stakes) := by
    rw [Tally.total, pool, List.map_map]
    rfl
  refine Tally.ofList_perm ((positiveStakes_perm perm).map _) ⟨?_, ?_⟩ ?_
  · intro entry member
    obtain ⟨s, staked, rfl⟩ := List.mem_map.mp member
    exact cents.scaled s staked
  · intro entry member
    obtain ⟨s, staked, rfl⟩ := List.mem_map.mp member
    exact cents.nonneg s staked
  · exact total.trans_lt (cents.small.trans (by norm_num))

/-- A settlement pays every member the same, whatever the order of the rows. -/
theorem settleParimutuel_perm (winningOutcome : Outcome)
    (cents : CentStakes (positiveStakes stakes)) (lower : 0 ≤ rakeBps) (upper : rakeBps < 10000)
    (perm : stakes.Perm reordered) :
    ∃ payouts others, settleParimutuel stakes winningOutcome rakeBps = .ok payouts ∧
      settleParimutuel reordered winningOutcome rakeBps = .ok others ∧
      (payouts.map Prod.fst).Nodup ∧ payouts.Perm others := by
  have positivePerm := positiveStakes_perm perm
  have otherCents := cents.perm positivePerm
  have winningPerm := winners_perm perm winningOutcome
  by_cases nobody : winners stakes winningOutcome = []
  · have nobodyElse : winners reordered winningOutcome = [] := (nobody ▸ winningPerm).nil_eq.symm
    exact ⟨_, _, settleParimutuel_eq_refunds lower upper nobody,
      settleParimutuel_eq_refunds lower upper nobodyElse, Tally.nodup_ofList _,
      refunds_perm cents perm⟩
  · have somebody := not_not.mp (mt (winners_nil_iff cents).mpr nobody)
    have wins := somebody
    rw [← winners_positiveStakes] at wins
    obtain ⟨amount, raked, distributes, settled⟩ :=
      settleParimutuel_winnings cents lower upper wins
    obtain ⟨otherAmount, otherRaked, _, otherSettled⟩ :=
      @settleParimutuel_winnings _ winningOutcome _ otherCents lower upper
        (by rwa [winners_positiveStakes, ← pool_perm winningPerm])
    rw [← rake_perm cents positivePerm, raked] at otherRaked
    cases otherRaked
    rw [settleParimutuel_positiveStakes, winners_positiveStakes] at settled otherSettled
    rw [← pool_perm positivePerm] at otherSettled
    obtain ⟨_, _, below⟩ := truncated_cents cents distributes wins
    have nonneg := distributes.nonneg cents
    have within := distributes.upper
    have small := cents.small
    rw [winners_positiveStakes] at below
    have winningCents := winners_cents cents winningOutcome
    rw [winners_positiveStakes] at winningCents
    refine ⟨_, _, settled, otherSettled, payRemainder_nodup (Tally.nodup_ofList _),
      winnings_perm winningPerm winningOutcome ?_ ⟨?_, ?_⟩ (by linarith)⟩
    · intro s member
      rw [winners, List.mem_filter, decide_eq_true_eq] at member
      exact member.2.1
    · intro entry member
      obtain ⟨s, _, rfl⟩ := List.mem_map.mp member
      exact truncatedShare_scaled _ _ s
    · intro entry member
      obtain ⟨s, staked, rfl⟩ := List.mem_map.mp member
      exact truncatedShare_nonneg nonneg somebody (winningCents.nonneg s staked)

end Stakes

/-- The same tables, with the bets stored in another order. -/
def Reordered (db other : Db) : Prop :=
  ∃ bets : UniqueTable Bet Bet.key, bets.rows.Perm db.bets.rows ∧ other = { db with bets }

section Tables

variable {settings : Settings} {db other : Db} {marketId : ℕ} {market : Market} {now : Time}
  {broker : Broker}

theorem Reordered.symm (order : Reordered db other) : Reordered other db := by
  obtain ⟨bets, perm, rfl⟩ := order
  exact ⟨db.bets, perm.symm, rfl⟩

theorem Reordered.betsOf (order : Reordered db other) (marketId : ℕ) :
    (db.betsOf marketId).Perm (other.betsOf marketId) := by
  obtain ⟨bets, perm, rfl⟩ := order
  exact perm.symm.filter _

theorem Reordered.loadStakes (order : Reordered db other) (marketId : ℕ) :
    (loadStakes db marketId).Perm (FundPolymarket.loadStakes other marketId) :=
  (order.betsOf marketId).map _

theorem Reordered.stakesNonneg (order : Reordered db other) (nonneg : StakesNonneg db) :
    StakesNonneg other := by
  obtain ⟨bets, perm, rfl⟩ := order
  exact fun bet member => nonneg bet ((perm.map Prod.snd).mem_iff.mp member)

theorem Reordered.marketPool (order : Reordered db other) (marketId : ℕ) :
    marketPool db marketId = FundPolymarket.marketPool other marketId := by
  rw [← loadStakes_pool, ← loadStakes_pool, pool_perm (order.loadStakes marketId)]

theorem loadStakes_positive_cents (nonneg : StakesNonneg db)
    (small : marketPool db marketId < 10 ^ 24) :
    CentStakes (positiveStakes (loadStakes db marketId)) :=
  ((loadStakes_cents nonneg small).filter _).1

/-- The decision is the same one, down to its reasons. -/
theorem buildDecision_reordered (order : Reordered db other) (nonneg : StakesNonneg db)
    (small : marketPool db marketId < 10 ^ 24) :
    buildDecision settings other marketId market broker =
      buildDecision settings db marketId market broker := by
  have consensus : getConsensus other marketId = getConsensus db marketId :=
    (computeConsensus_perm (loadStakes_positive_cents nonneg small)
      (order.loadStakes marketId)).symm
  obtain ⟨bets, _, rfl⟩ := order
  rw [buildDecision, buildDecision, consensus]
  rfl

theorem stakeByMember_reordered (order : Reordered db other) (nonneg : StakesNonneg db)
    (small : marketPool db marketId < 10 ^ 24) (memberId : ℕ) :
    Tally.get (stakeByMember other marketId) memberId =
      Tally.get (stakeByMember db marketId) memberId := by
  have cents := loadStakes_cents nonneg small
  have grouped : (stakeByMember db marketId).Perm (stakeByMember other marketId) := by
    refine Tally.ofList_perm ((order.betsOf marketId).map _) ⟨?_, ?_⟩ ?_
    · intro entry member
      obtain ⟨row, _, rfl⟩ := List.mem_map.mp member
      exact row.2.stake.val_scaled
    · intro entry member
      obtain ⟨row, rowMember, rfl⟩ := List.mem_map.mp member
      exact nonneg row.2 (betsOf_mem rowMember)
    · have total : Tally.total ((db.betsOf marketId).map fun row =>
          (row.2.memberId, row.2.stake.val)) = pool (loadStakes db marketId) := by
        rw [Tally.total, pool, loadStakes, List.map_map, List.map_map]
        rfl
      exact total.trans_lt (cents.small.trans (by norm_num))
  exact (Tally.get_perm grouped (Tally.nodup_ofList _) memberId).symm

/-- A settlement that succeeds also does so in another order, and writes the same rows. -/
theorem settleMarket_reordered (order : Reordered db other) (nonneg : StakesNonneg db)
    (small : marketPool db marketId < 10 ^ 24) {writes : List Write}
    (success : settleMarket db marketId settings market now = .ok writes) :
    ∃ others, settleMarket other marketId settings market now = .ok others ∧
      writes.Perm others := by
  obtain ⟨_, rest⟩ := raiseIf_bind_eq_ok.mp success
  obtain ⟨resolved, rest⟩ := raiseIf_bind_eq_ok.mp rest
  obtain ⟨winningOutcome, winning, rest⟩ := bind_eq_ok.mp rest
  obtain ⟨payouts, settled, rest⟩ := bind_eq_ok.mp rest
  obtain ⟨_, _, rest⟩ := bind_eq_ok.mp rest
  obtain ⟨entries, recorded, rest⟩ := bind_eq_ok.mp rest
  obtain ⟨shown, split, same⟩ := bind_eq_ok.mp rest
  cases same
  obtain ⟨inRange, _⟩ := raiseIf_bind_eq_ok.mp settled
  obtain ⟨paid, otherPayouts, paidOk, otherSettled, distinct, payoutsPerm⟩ :=
    settleParimutuel_perm winningOutcome
      (loadStakes_positive_cents nonneg small) (not_lt.mp fun below => inRange (.inl below))
      (not_le.mp fun above => inRange (.inr above)) (order.loadStakes marketId)
  rw [settled] at paidOk
  cases paidOk
  have ledgers : other.ledger = db.ledger := by
    obtain ⟨bets, _, rfl⟩ := order
    rfl
  have duePerm : (duePayouts db marketId payouts).Perm
      (duePayouts other marketId otherPayouts) := by
    rw [duePayouts, duePayouts]
    simp only [hasEntry, ledgers]
    exact payoutsPerm.filter _
  have parts : betPayout other marketId otherPayouts = betPayout db marketId payouts := by
    funext row
    rw [betPayout, betPayout, rowPayout, rowPayout, stakeByMember_reordered order nonneg small,
      Tally.get_perm payoutsPerm distinct]
  obtain ⟨otherEntries, otherRecorded, entriesPerm⟩ := mapM_perm duePerm recorded
  obtain ⟨otherShown, otherSplit, shownPerm⟩ := mapM_perm (order.betsOf marketId) split
  rw [← parts] at otherSplit
  refine ⟨_, settleMarket_of_ok (not_not.mp resolved) (orRaise_eq_ok.mp winning) otherSettled
    otherRecorded otherSplit, ?_⟩
  exact ((entriesPerm.symm.map _).append (shownPerm.symm.map _)).append_right _

/-- Neither the consensus and the payouts of stakes in cents, nor the decision and the
settlement of a market, depend on the order of the rows. -/
theorem row_order_immaterial :
    (∀ stakes reordered : List Stake, stakes.Perm reordered →
      (∀ s ∈ stakes, 0 < s.amount → Scaled 2 s.amount) →
      pool (positiveStakes stakes) < 10 ^ 16 →
      computeConsensus reordered = computeConsensus stakes ∧
        ∀ (winningOutcome : Outcome) (rakeBps : ℤ), 0 ≤ rakeBps → rakeBps < 10000 →
          ∃ payouts others, settleParimutuel stakes winningOutcome rakeBps = .ok payouts ∧
            settleParimutuel reordered winningOutcome rakeBps = .ok others ∧
            (payouts.map Prod.fst).Nodup ∧ payouts.Perm others ∧
            ∀ memberId, Tally.get others memberId = Tally.get payouts memberId) ∧
    ∀ (settings : Settings) (db other : Db) (marketId : ℕ) (market : Market) (broker : Broker)
      (now : Time), Reordered db other → StakesNonneg db → marketPool db marketId < 10 ^ 16 →
      buildDecision settings other marketId market broker =
          buildDecision settings db marketId market broker ∧
        ((∃ writes, settleMarket db marketId settings market now = .ok writes) ↔
          ∃ others, settleMarket other marketId settings market now = .ok others) ∧
        ∀ writes others, settleMarket db marketId settings market now = .ok writes →
          settleMarket other marketId settings market now = .ok others → writes.Perm others := by
  constructor
  · intro stakes reordered perm scaled small
    have cents : CentStakes (positiveStakes stakes) := by
      refine ⟨fun s member => ?_, fun s member => ?_, small.trans (by norm_num)⟩ <;>
        rw [positiveStakes, List.mem_filter, decide_eq_true_eq] at member
      · exact scaled s member.1 member.2
      · exact member.2.le
    refine ⟨(computeConsensus_perm cents perm).symm, fun winningOutcome rakeBps lower upper => ?_⟩
    obtain ⟨payouts, others, settled, otherSettled, distinct, payoutsPerm⟩ :=
      settleParimutuel_perm winningOutcome cents lower upper perm
    exact ⟨payouts, others, settled, otherSettled, distinct, payoutsPerm,
      fun memberId => (Tally.get_perm payoutsPerm distinct memberId).symm⟩
  · intro settings db other marketId market broker now order nonneg below
    have small : marketPool db marketId < 10 ^ 24 := below.trans (by norm_num)
    have otherSmall : marketPool other marketId < 10 ^ 24 := order.marketPool marketId ▸ small
    refine ⟨buildDecision_reordered order nonneg small, ⟨?_, ?_⟩, ?_⟩
    · rintro ⟨writes, success⟩
      obtain ⟨others, otherSuccess, _⟩ := settleMarket_reordered order nonneg small success
      exact ⟨others, otherSuccess⟩
    · rintro ⟨others, success⟩
      obtain ⟨writes, otherSuccess, _⟩ :=
        settleMarket_reordered order.symm (order.stakesNonneg nonneg) otherSmall success
      exact ⟨writes, otherSuccess⟩
    · intro writes others success otherSuccess
      obtain ⟨found, foundOk, perm⟩ := settleMarket_reordered order nonneg small success
      rw [otherSuccess] at foundOk
      cases foundOk
      exact perm

/-- The bets in the opposite order. -/
def Db.reverseBets (db : Db) : Db :=
  { db with
    bets :=
      { db.bets with
        rows := db.bets.rows.reverse
        below := fun row member => db.bets.below row (List.mem_reverse.mp member)
        distinct := by
          rw [List.map_reverse, List.nodup_reverse]
          exact db.bets.distinct
        unique := by
          rw [List.map_reverse, List.nodup_reverse]
          exact db.bets.unique } }

theorem reordered_reverseBets (db : Db) : Reordered db db.reverseBets :=
  ⟨_, List.reverse_perm _, rfl⟩

theorem row_order_immaterial_reversed :
    computeConsensus [⟨3, .sell, 50⟩, ⟨1, .buy, 100⟩] =
        computeConsensus [⟨1, .buy, 100⟩, ⟨3, .sell, 50⟩] ∧
      ∃ market ∈ partlyPaid.markets.get? 1,
        ∃ others, settleMarket partlyPaid.reverseBets 1 {} market 0 = .ok others := by
  obtain ⟨lists, tables⟩ := row_order_immaterial
  refine ⟨(lists [⟨1, .buy, 100⟩, ⟨3, .sell, 50⟩] _ (.swap _ _ _) ?_ (by decide +kernel)).1, ?_⟩
  · intro s member _
    simp only [List.mem_cons, List.not_mem_nil, or_false] at member
    obtain rfl | rfl := member
    · exact ⟨10000, by norm_num⟩
    · exact ⟨5000, by norm_num⟩
  · obtain ⟨market, found, settles⟩ : ∃ market ∈ partlyPaid.markets.get? 1,
        (settleMarket partlyPaid 1 {} market 0).isOk = true := by decide +kernel
    have same := (tables {} partlyPaid partlyPaid.reverseBets 1 market
      (.steady 50000 10000000 []) 0 (reordered_reverseBets partlyPaid)
      (by unfold StakesNonneg; decide +kernel) (by decide +kernel)).2.1
    refine ⟨market, found, same.mp ?_⟩
    cases success : settleMarket partlyPaid 1 {} market 0 with
    | ok writes => exact ⟨writes, rfl⟩
    | error e =>
        rw [success] at settles
        cases settles

end Tables

end FundPolymarket
