import FundPolymarket.DecisionGate
import FundPolymarket.Isolation
import FundPolymarket.KeyedBatch
import FundPolymarket.Returns

set_option autoImplicit false

/- Settling a market again. The payouts are a batch under the ids of the members, of
which the ledger holds some part. -/
namespace FundPolymarket

open Decimal (Numeric Scaled)
open KeyedBatch (Interrupted missing)

/-- The PAYOUT entries of a market, by member and amount. -/
def paidOut (db : Db) (marketId : ℕ) : List (ℕ × ℚ) :=
  (db.ledger.contents.filter fun entry =>
    entry.entryType = .payout ∧ entry.marketId = some marketId).map fun entry =>
      (entry.memberId, entry.amount.val)

/-- The payouts that are due; `settle_market` skips the others. -/
def owed (payouts : List (ℕ × ℚ)) : List (ℕ × ℚ) := payouts.filter fun entry => 0 < entry.2

/-- `settle_market` in an open session. -/
def settleOnce (settings : Settings) (now : Time) : ℕ → Db → Except AppError Db :=
  perform fun marketId db market => settleMarket db marketId settings market now

section Batch

theorem hasEntry_payout (db : Db) (memberId marketId : ℕ) :
    hasEntry db memberId marketId .payout = true ↔
      memberId ∈ (paidOut db marketId).map Prod.fst := by
  simp only [hasEntry, paidOut, List.any_eq_true, List.map_map, List.mem_map, List.mem_filter,
    decide_eq_true_eq, Function.comp_apply]
  constructor
  · rintro ⟨entry, member, owner, market, payout⟩
    exact ⟨entry, ⟨member, payout, market⟩, owner⟩
  · rintro ⟨entry, ⟨member, payout, market⟩, owner⟩
    exact ⟨entry, member, owner, market, payout⟩

/-- The loop over the payouts skips what is on record. -/
theorem duePayouts_missing (db : Db) (marketId : ℕ) (payouts : List (ℕ × ℚ)) :
    duePayouts db marketId payouts = missing (owed payouts) (paidOut db marketId) := by
  rw [duePayouts, missing, owed, List.filter_filter]
  apply List.filter_congr
  intro entry _
  have same := not_congr (hasEntry_payout db entry.1 marketId)
  simp only [same, Bool.decide_and, Bool.and_comm]

end Batch

section Amounts

theorem record_stores {memberId : ℕ} {entryType : LedgerEntryType} {amount : ℚ}
    {marketId : Option ℕ} {memo : Option String} (cents : Scaled 2 amount)
    (fits : |amount| < 10 ^ 16) :
    ∃ entry, record memberId entryType amount marketId memo = .ok entry := by
  obtain ⟨stored, storedOk⟩ := @Numeric.exists_ofDecimal 18 2 amount cents (by norm_num; exact fits)
  exact ⟨_, bind_eq_ok.mpr ⟨stored, orRaise_eq_ok.mpr storedOk, rfl⟩⟩

/-- Two rounded operations do not lift a value in cents by half a cent. -/
theorem halfEven_cents_lt {payout value : ℚ} (cents : Scaled 2 payout) (fits : |payout| < 10 ^ 16)
    (near : |value| ≤ |payout| * slack) :
    (Decimal.halfEven (value * 10 ^ 2)).natAbs < 10 ^ 18 := by
  obtain ⟨units, rfl⟩ := cents
  have unitsFit : |(units : ℚ)| ≤ 10 ^ 18 - 1 := by
    rw [abs_div, abs_of_pos (by norm_num : (0 : ℚ) < 10 ^ 2), div_lt_iff₀ (by norm_num)] at fits
    norm_num at fits
    have whole : |units| < 10 ^ 18 := by exact_mod_cast fits
    exact_mod_cast Int.le_sub_one_of_lt whole
  have lifted : |value * 10 ^ 2| ≤ (10 ^ 18 - 1) * slack := by
    have slackNonneg : 0 ≤ slack := by norm_num [slack, Decimal.unitRoundoff]
    calc |value * 10 ^ 2|
        = |value| * 10 ^ 2 := by rw [abs_mul, abs_of_pos (by norm_num : (0 : ℚ) < 10 ^ 2)]
      _ ≤ |(units : ℚ) / 10 ^ 2| * slack * 10 ^ 2 := mul_le_mul_of_nonneg_right near (by norm_num)
      _ = |(units : ℚ)| * slack := by
        rw [abs_div, abs_of_pos (by norm_num : (0 : ℚ) < 10 ^ 2)]
        ring
      _ ≤ (10 ^ 18 - 1) * slack := mul_le_mul_of_nonneg_right unitsFit slackNonneg
  have rounded := Decimal.abs_halfEven_sub_le (value * 10 ^ 2)
  generalize value * 10 ^ 2 = scaled at lifted rounded
  have below : |(Decimal.halfEven scaled : ℚ)| < 10 ^ 18 := by
    have slackBound := slack_lt
    calc |(Decimal.halfEven scaled : ℚ)|
        = |(Decimal.halfEven scaled - scaled) + scaled| := by rw [sub_add_cancel]
      _ ≤ |(Decimal.halfEven scaled - scaled : ℚ)| + |scaled| := abs_add_le _ _
      _ ≤ 1 / 2 + (10 ^ 18 - 1) * slack := add_le_add rounded lifted
      _ < 10 ^ 18 := by linarith
  have whole : |Decimal.halfEven scaled| < 10 ^ 18 := by exact_mod_cast below
  rw [Int.abs_eq_natAbs] at whole
  exact_mod_cast whole

/-- A row's part of a payout that fits its column fits it as well. -/
theorem shownPayout_stores {total payout stake : ℚ} (cents : Scaled 2 payout)
    (fits : |payout| < 10 ^ 16) (staked : 0 ≤ stake) (within : stake ≤ total) :
    ∃ shown stored, shownPayout total payout stake = .ok shown ∧ store 18 2 shown = .ok stored := by
  unfold shownPayout
  split
  swap
  · obtain ⟨stored, storedOk⟩ := @Numeric.exists_ofDecimal 18 2 0 Scaled.zero (by norm_num)
    exact ⟨0, stored, rfl, orRaise_eq_ok.mpr storedOk⟩
  rename_i positive
  have near : |Decimal.div (Decimal.mul payout stake) total| ≤ |payout| * slack := by
    calc |Decimal.div (Decimal.mul payout stake) total|
        ≤ |payout * stake / total| * slack :=
          (Decimal.near_div_mul payout stake total).abs_le_mul_pow Decimal.roundoff
      _ = |payout| * slack * (stake / total) := by
        rw [abs_div, abs_of_pos positive, abs_mul, abs_of_nonneg staked]
        ring
      _ ≤ |payout| * slack := by
        apply mul_le_of_le_one_right (mul_nonneg (abs_nonneg _) (by rw [slack]; positivity))
        exact (div_le_one positive).mpr within
  have small := halfEven_cents_lt cents fits near
  generalize Decimal.div (Decimal.mul payout stake) total = value at small
  have quantized := @Decimal.quantize_of_fits 2 .halfEven value
    (lt_trans small (by norm_num [Decimal.prec]))
  obtain ⟨stored, storedOk⟩ := @Numeric.exists_ofUnits 18 2 _ small
  exact ⟨_, stored, orRaise_eq_ok.mpr quantized, orRaise_eq_ok.mpr storedOk⟩

end Amounts

section Settle

variable {settings : Settings} {now : Time} {marketId : ℕ} {db : Db} {market : Market}
  {winningOutcome : Outcome} {payouts : List (ℕ × ℚ)}

theorem stake_le_stakeByMember (nonneg : ∀ bet ∈ marketBets db marketId, 0 ≤ bet.stake.val)
    {row : ℕ × Bet} (member : row ∈ db.betsOf marketId) :
    row.2.stake.val ≤ Tally.get (stakeByMember db marketId) row.2.memberId := by
  have small : |row.2.stake.val| < 10 ^ 26 :=
    row.2.stake.abs_val_lt.trans (by norm_num)
  rw [stakeByMember, Tally.get_ofList]
  refine Decimal.le_foldl_add_of_mem (Decimal.fix_of_cents row.2.stake.val_scaled small)
    (nonneg row.2.core (core_mem_marketBets member)) le_rfl ?_ ?_ le_rfl
  · intro x listed
    obtain ⟨entry, own, rfl⟩ := List.mem_map.mp listed
    obtain ⟨other, otherMember, rfl⟩ := List.mem_map.mp (List.mem_filter.mp own).1
    exact nonneg other.2.core (core_mem_marketBets otherMember)
  · exact List.mem_map_of_mem (f := Prod.snd) (List.mem_filter.mpr
      ⟨List.mem_map_of_mem (f := fun row : ℕ × Bet => (row.2.memberId, row.2.stake.val)) member,
        by simp⟩)

theorem betPayout_stores (nonneg : ∀ bet ∈ marketBets db marketId, 0 ≤ bet.stake.val)
    (cents : ∀ entry ∈ payouts, Scaled 2 entry.2) (fits : ∀ entry ∈ payouts, |entry.2| < 10 ^ 16)
    {row : ℕ × Bet} (member : row ∈ db.betsOf marketId) :
    ∃ shown, betPayout db marketId payouts row = .ok shown := by
  obtain ⟨part, stored, shown, kept⟩ := shownPayout_stores
    (Tally.forall_get Scaled.zero cents row.2.memberId)
    (Tally.forall_get (P := fun x => |x| < 10 ^ 16) (by norm_num) fits row.2.memberId)
    (nonneg row.2.core (core_mem_marketBets member)) (stake_le_stakeByMember nonneg member)
  exact ⟨(row.1, stored), bind_eq_ok.mpr ⟨part, shown, bind_eq_ok.mpr ⟨stored, kept, rfl⟩⟩⟩

/-- What a settlement leaves: the payouts that were not on record are, the rows show
theirs, and the market is settled. -/
structure Settles (now : Time) (marketId : ℕ) (db : Db) (payouts : List (ℕ × ℚ)) (final : Db) :
    Prop where
  ledger : ∃ entries, final.ledger.contents = db.ledger.contents ++ entries ∧
    (∀ entry ∈ entries, entry.entryType = .payout ∧ entry.marketId = some marketId) ∧
      entries.map (fun entry => (entry.memberId, entry.amount.val)) =
        missing (owed payouts) (paidOut db marketId)
  bets : ∃ shown, (db.betsOf marketId).mapM (betPayout db marketId payouts) = .ok shown ∧
    final.bets.toTable = showPayouts shown db.bets.toTable
  markets : final.markets = db.markets.update marketId fun row => row.settle now

/-- The market and its settlement, as `settle_market` finds them. -/
structure Payable (settings : Settings) (marketId : ℕ) (db : Db) (payouts : List (ℕ × ℚ)) :
    Prop where
  resolved : ∃ market, db.markets.get? marketId = some market ∧ market.status = .resolved ∧
    ∃ winningOutcome, market.winningOutcome = some winningOutcome ∧
      settleParimutuel (loadStakes db marketId) winningOutcome settings.rakeBps = .ok payouts
  nonneg : ∀ bet ∈ marketBets db marketId, 0 ≤ bet.stake.val
  fits : ∀ entry ∈ payouts, |entry.2| < 10 ^ 16

theorem Payable.whole (payable : Payable settings marketId db payouts) :
    (payouts.map Prod.fst).Nodup ∧ ∀ entry ∈ payouts, Scaled 2 entry.2 := by
  obtain ⟨market, _, _, winningOutcome, _, settled⟩ := payable.resolved
  exact settleParimutuel_whole (loadStakes_scaled db marketId) settled

theorem settleMarket_of_ok {entries : List LedgerEntry} {shown : List (ℕ × Points)}
    (isResolved : market.status = .resolved) (winning : market.winningOutcome = some winningOutcome)
    (settled : settleParimutuel (loadStakes db marketId) winningOutcome settings.rakeBps =
      .ok payouts)
    (recorded : (duePayouts db marketId payouts).mapM (payoutEntry marketId winningOutcome) =
      .ok entries)
    (split : (db.betsOf marketId).mapM (betPayout db marketId payouts) = .ok shown) :
    settleMarket db marketId settings market now = .ok
      (entries.map Write.insertLedger ++ shown.map (fun entry => .setPayout entry.1 entry.2) ++
        [.updateMarket marketId fun row => row.settle now]) := by
  obtain ⟨parts, partsOk⟩ : ∃ parts,
      (db.betsOf marketId).mapM (rowPayout db marketId payouts) = .ok parts :=
    exists_mapM_first split
  exact raiseIf_bind_eq_ok.mpr ⟨by simp [isResolved], raiseIf_bind_eq_ok.mpr
    ⟨by simp [isResolved], bind_eq_ok.mpr ⟨winningOutcome, orRaise_eq_ok.mpr winning,
      bind_eq_ok.mpr ⟨payouts, settled, bind_eq_ok.mpr ⟨parts, partsOk,
        bind_eq_ok.mpr ⟨entries, recorded, bind_eq_ok.mpr ⟨shown, split, rfl⟩⟩⟩⟩⟩⟩⟩

theorem recorded_pairs {due : List (ℕ × ℚ)} {entries : List LedgerEntry}
    (cents : ∀ pair ∈ due, Scaled 2 pair.2)
    (recorded : due.mapM (payoutEntry marketId winningOutcome) = .ok entries) :
    (∀ entry ∈ entries, entry.entryType = .payout ∧ entry.marketId = some marketId) ∧
      entries.map (fun entry => (entry.memberId, entry.amount.val)) = due := by
  have rows := payouts_recorded recorded
  constructor
  · intro entry member
    obtain ⟨_, _, row⟩ := forall₂_exists_left rows member
    exact ⟨row.entryType_eq, row.marketId_eq⟩
  · rw [← List.map_id due]
    refine forall₂_map_eq rows fun pair member entry row => ?_
    exact Prod.ext row.memberId_eq (row.exact (cents pair member))

theorem Payable.settles (payable : Payable settings marketId db payouts) (now : Time) :
    ∃ final, settleOnce settings now marketId db = .ok final ∧
      Settles now marketId db payouts final := by
  obtain ⟨market, found, isResolved, winningOutcome, winning, settled⟩ := payable.resolved
  have cents := payable.whole.2
  have due : ∀ pair ∈ duePayouts db marketId payouts, pair ∈ payouts :=
    fun pair member => (List.mem_filter.mp member).1
  obtain ⟨entries, recorded⟩ : ∃ entries, (duePayouts db marketId payouts).mapM
      (payoutEntry marketId winningOutcome) = .ok entries :=
    exists_mapM_eq_ok fun pair member => record_stores (cents pair (due pair member))
      (payable.fits pair (due pair member))
  obtain ⟨shown, split⟩ : ∃ shown, (db.betsOf marketId).mapM (betPayout db marketId payouts) =
      .ok shown :=
    exists_mapM_eq_ok fun row member => betPayout_stores payable.nonneg cents payable.fits member
  have served := @settleMarket_of_ok settings now _ _ _ _ _ _ _ isResolved winning settled recorded
    split
  obtain ⟨final, applied⟩ := applyWrites_unconstrained db fun write member =>
    ((settle_local settings now).within found served write member).unconstrained
  refine ⟨final, perform_eq_ok.mpr ⟨market, _, found, served, applied⟩, ⟨entries, ?_, ?_⟩,
    ⟨shown, split, settlement_bets applied⟩, applyWrites_settlement applied⟩
  · rw [applyWrites_ledger applied, settlement_rows]
  · rw [← duePayouts_missing]
    exact recorded_pairs (fun pair member => cents pair (due pair member)) recorded

/-- The entries of a settlement complete the batch. -/
theorem Settles.paidOut {final : Db} (settles : Settles now marketId db payouts final) :
    paidOut final marketId =
      KeyedBatch.run (owed payouts) (FundPolymarket.paidOut db marketId) := by
  obtain ⟨entries, ledger, mine, pairs⟩ := settles.ledger
  have all : (entries.filter fun entry =>
      entry.entryType = .payout ∧ entry.marketId = some marketId) = entries :=
    List.filter_eq_self.mpr fun entry member => by simpa using mine entry member
  rw [FundPolymarket.paidOut, ledger, List.filter_append, List.map_append, all, pairs]
  rfl

theorem Payable.keys (payable : Payable settings marketId db payouts) :
    ((owed payouts).map Prod.fst).Nodup :=
  payable.whole.1.sublist (List.filter_sublist.map _)

/-- A settlement reads the bets and the market only. -/
theorem Payable.congr {twin : Db} (payable : Payable settings marketId db payouts)
    (bets : twin.bets = db.bets) (markets : twin.markets = db.markets) :
    Payable settings marketId twin payouts := by
  obtain ⟨resolved, nonneg, fits⟩ := payable
  refine ⟨?_, ?_, fits⟩
  · rwa [markets, loadStakes, Db.betsOf, bets]
  · rwa [marketBets, bets]

/-- The status is forced back. -/
def Db.reopen (db : Db) (marketId : ℕ) : Db :=
  { db with markets := db.markets.update marketId fun row => { row with status := .resolved } }

theorem Settles.marketBets {final : Db} (settles : Settles now marketId db payouts final) :
    marketBets final marketId = FundPolymarket.marketBets db marketId := by
  obtain ⟨shown, _, bets⟩ := settles.bets
  rw [FundPolymarket.marketBets, bets, core_showPayouts]
  rfl

theorem Payable.reopened {final : Db} (payable : Payable settings marketId db payouts)
    (settles : Settles now marketId db payouts final) :
    Payable settings marketId (final.reopen marketId) payouts := by
  have bets : FundPolymarket.marketBets (final.reopen marketId) marketId =
      FundPolymarket.marketBets db marketId := settles.marketBets
  obtain ⟨market, found, isResolved, winningOutcome, winning, settled⟩ := payable.resolved
  refine ⟨⟨{ market.settle now with status := .resolved }, ?_, rfl, winningOutcome, winning, ?_⟩,
    bets ▸ payable.nonneg, payable.fits⟩
  · rw [Db.reopen, settles.markets, Table.get?_update, if_pos rfl, Table.get?_update, if_pos rfl,
      found]
    rfl
  · rwa [loadStakes_marketBets, bets, ← loadStakes_marketBets]

end Settle

/-- What a settlement reaches from a ledger that holds some of the payouts: each is on
record exactly once, the rows and the status are those of a settlement that finds none
of them, only entries of the market are added, and settling once more adds none. -/
structure Resumed (settings : Settings) (now : Time) (marketId : ℕ) (db : Db)
    (payouts : List (ℕ × ℚ)) (final : Db) : Prop where
  each : ∀ pair ∈ payouts, 0 < pair.2 →
    (paidOut final marketId).filter (fun paid => paid.1 = pair.1) = [pair]
  nobodyElse : ∀ paid ∈ paidOut final marketId, paid ∈ payouts ∧ 0 < paid.2
  uninterrupted : ∀ fresh : Db, fresh.bets = db.bets → fresh.markets = db.markets →
    paidOut fresh marketId = [] → ∃ done, settleOnce settings now marketId fresh = .ok done ∧
      final.bets.toTable = done.bets.toTable ∧ final.markets = done.markets
  added : ∃ entries, final.ledger.contents = db.ledger.contents ++ entries ∧
    ∀ entry ∈ entries, entry.marketId = some marketId
  again : ∀ later, ∃ resettled,
    settleOnce settings later marketId (final.reopen marketId) = .ok resettled ∧
      resettled.ledger.contents = final.ledger.contents

/-- A settlement can be resumed from any part of its payouts. -/
theorem settlement_resumes {settings : Settings} {marketId : ℕ} {db : Db}
    {payouts : List (ℕ × ℚ)} (payable : Payable settings marketId db payouts)
    (partly : Interrupted (owed payouts) (paidOut db marketId)) (now : Time) :
    ∃ final, settleOnce settings now marketId db = .ok final ∧
      Resumed settings now marketId db payouts final := by
  obtain ⟨final, success, settles⟩ := payable.settles now
  have complete : (paidOut final marketId).Perm (owed payouts) := by
    rw [settles.paidOut]
    exact partly.run_perm payable.keys
  refine ⟨final, success, ?_, ?_, ?_, ?_, ?_⟩
  · intro pair member positive
    exact KeyedBatch.filter_key payable.keys complete
      (List.mem_filter.mpr ⟨member, by simpa using positive⟩)
  · intro paid member
    simpa [owed] using complete.mem_iff.mp member
  · intro fresh bets markets _
    obtain ⟨done, freshOk, freshSettles⟩ := (payable.congr bets markets).settles now
    obtain ⟨shown, split, table⟩ := settles.bets
    obtain ⟨freshShown, freshSplit, freshTable⟩ := freshSettles.bets
    have sameRows : fresh.betsOf marketId = db.betsOf marketId := by rw [Db.betsOf, bets, Db.betsOf]
    have sameShown : freshShown = shown := by
      have parts : betPayout fresh marketId payouts = betPayout db marketId payouts := by
        funext row
        rw [betPayout, betPayout, rowPayout, rowPayout, stakeByMember, stakeByMember, sameRows]
      rw [sameRows, parts, split] at freshSplit
      exact (Except.ok.inj freshSplit).symm
    refine ⟨done, freshOk, ?_, ?_⟩
    · rw [table, freshTable, sameShown, bets]
    · rw [settles.markets, freshSettles.markets, markets]
  · obtain ⟨entries, ledger, mine, _⟩ := settles.ledger
    exact ⟨entries, ledger, fun entry member => (mine entry member).2⟩
  · intro later
    obtain ⟨resettled, againOk, againSettles⟩ := (payable.reopened settles).settles later
    obtain ⟨entries, ledger, _, pairs⟩ := againSettles.ledger
    have onRecord : paidOut (final.reopen marketId) marketId = paidOut final marketId := rfl
    rw [onRecord, KeyedBatch.missing_of_perm complete, List.map_eq_nil_iff] at pairs
    refine ⟨resettled, againOk, ?_⟩
    rw [ledger, pairs, List.append_nil]
    rfl

/-- A market that BUY has won, with its bets and the payouts on record. -/
def resolvedDesk (bets : List (ℕ × Outcome × Points)) (paid : List (ℕ × Points)) : Db :=
  let market := Write.insertMarket
    { gateMarket with status := .resolved, winningOutcome := some .buy }
  let rows := bets.map fun bet => Write.insertBet
    { marketId := 1, memberId := bet.1, outcome := bet.2.1, stake := bet.2.2, rationale := none }
  let entries := paid.map fun pair => Write.insertLedger
    { memberId := pair.1, marketId := some 1, entryType := .payout, amount := pair.2, memo := none }
  (applyWrites Db.empty (market :: rows ++ entries)).toOption.getD Db.empty

/-- Of the two winners the second has been paid. -/
def partlyPaid : Db :=
  resolvedDesk [(1, .buy, ⟨10000, by decide⟩), (2, .buy, ⟨5000, by decide⟩),
    (3, .sell, ⟨15000, by decide⟩)] [(2, ⟨9999, by decide⟩)]

theorem settlement_resumes_partlyPaid : ∃ final, settleOnce {} 0 1 partlyPaid = .ok final ∧
    Resumed {} 0 1 partlyPaid [(1, 20001 / 100), (2, 9999 / 100)] final := by
  obtain ⟨market, found, isResolved, winning⟩ : ∃ market ∈ partlyPaid.markets.get? 1,
      market.status = .resolved ∧ market.winningOutcome = some .buy := by decide +kernel
  exact settlement_resumes
    ⟨⟨market, found, isResolved, .buy, winning, by decide +kernel⟩, by decide +kernel,
      by decide +kernel⟩ ⟨by decide +kernel, by decide +kernel⟩ 0

/-- The payouts of a settlement that BUY has won, without a rake, are known and nothing but
a part of them is on record, and still the settlement raises. -/
def StopsShort (db : Db) (payouts : List (ℕ × ℚ)) : Prop :=
  (∃ market ∈ db.markets.get? 1, market.status = .resolved ∧ market.winningOutcome = some .buy) ∧
    settleParimutuel (loadStakes db 1) .buy 0 = .ok payouts ∧
    Interrupted (owed payouts) (paidOut db 1) ∧ ¬ ∃ final, settleOnce {} 0 1 db = .ok final

/-- The winner takes a pool that has one digit more than the column of the ledger. -/
def overflowingPool : Db :=
  resolvedDesk [(1, .buy, ⟨9 * 10 ^ 17, by decide⟩), (2, .sell, ⟨9 * 10 ^ 17, by decide⟩),
    (3, .sell, ⟨9 * 10 ^ 17, by decide⟩)] []

/-- A negative row leaves the member a cent in all, by which the shown payout is divided. -/
def negativeRow : Db :=
  resolvedDesk [(1, .buy, ⟨10 ^ 17, by decide⟩), (1, .sell, ⟨1 - 10 ^ 17, by decide⟩)] []

/-- A payout that its column cannot hold stops the settlement, and so does a payout of a
row that cannot be shown. -/
theorem settlement_not_resumed_overflow :
    StopsShort overflowingPool [(1, 27 * 10 ^ 15)] ∧ StopsShort negativeRow [(1, 10 ^ 15)] := by
  have raises : ∀ {db : Db}, (settleOnce {} 0 1 db).isOk = false →
      ¬ ∃ final, settleOnce {} 0 1 db = .ok final := by
    rintro db refused ⟨final, success⟩
    rw [success] at refused
    cases refused
  constructor
  · exact ⟨by decide +kernel, by decide +kernel, ⟨by decide +kernel, by decide +kernel⟩,
      raises (by decide +kernel)⟩
  · exact ⟨by decide +kernel, by decide +kernel, ⟨by decide +kernel, by decide +kernel⟩,
      raises (by decide +kernel)⟩

end FundPolymarket
