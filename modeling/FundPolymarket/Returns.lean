import FundPolymarket.Lifecycle
import FundPolymarket.Parimutuel
import FundPolymarket.Solvency

set_option autoImplicit false

/- What settlements and cancellations give back. Neither records anything twice on a
market that has not paid yet. -/
namespace FundPolymarket

open Decimal (Scaled)

/-- The market that a request settles or cancels. -/
def Request.closes : Request → Option ℕ
  | .settleMarket marketId | .cancelMarket marketId _ => some marketId
  | _ => none

/-- The rake that a request withholds. -/
def Request.rake (env : Env) (db : Db) : Request → ℚ
  | .settleMarket marketId =>
      match (db.markets.get? marketId).bind Market.winningOutcome with
      | some winningOutcome =>
          withheld (loadStakes db marketId) winningOutcome env.settings.rakeBps
      | none => 0
  | _ => 0

/-- The stakes of the bets on a market. -/
def marketPool (db : Db) (marketId : ℕ) : ℚ :=
  staked (db.bets.contents.filter fun bet => bet.marketId = marketId)

def LedgerEntry.isReturn (entry : LedgerEntry) : Bool :=
  entry.entryType = .payout ∨ entry.entryType = .cancelRefund

/-- What a market has paid back, as payouts and as refunds. -/
def returnedTo (db : Db) (marketId : ℕ) : ℚ :=
  amounts (db.ledger.contents.filter fun entry =>
    entry.isReturn ∧ entry.marketId = some marketId)

/-- The market has not paid anything back. -/
def Unpaid (db : Db) (marketId : ℕ) : Prop :=
  ∀ entry ∈ db.ledger.contents, entry.isReturn = true → entry.marketId ≠ some marketId

section Pools

variable {db : Db}

theorem marketPool_nonneg (nonneg : StakesNonneg db) (marketId : ℕ) : 0 ≤ marketPool db marketId :=
  staked_nonneg fun bet member => nonneg bet (List.mem_filter.mp member).1

theorem loadStakes_pool (db : Db) (marketId : ℕ) :
    pool (loadStakes db marketId) = marketPool db marketId := by
  rw [pool, loadStakes, marketPool, ← betsOf_values, staked, List.map_map, List.map_map]
  rfl

theorem loadStakes_cents {marketId : ℕ} (nonneg : StakesNonneg db)
    (small : marketPool db marketId < 10 ^ 24) : CentStakes (loadStakes db marketId) := by
  refine ⟨?_, ?_, by rwa [loadStakes_pool]⟩
  · intro s member
    obtain ⟨row, _, rfl⟩ := List.mem_map.mp member
    exact row.2.stake.val_scaled
  · intro s member
    obtain ⟨row, rowMember, rfl⟩ := List.mem_map.mp member
    exact nonneg row.2 (betsOf_mem rowMember)

theorem stakeByMember_total {marketId : ℕ} (nonneg : StakesNonneg db)
    (small : marketPool db marketId < 10 ^ 24) :
    Tally.Cents (stakeByMember db marketId) ∧
      Tally.total (stakeByMember db marketId) = marketPool db marketId := by
  have entries : (db.betsOf marketId).map (fun row => (row.2.memberId, row.2.stake.val)) =
      (loadStakes db marketId).map fun s => (s.memberId, s.amount) := by
    rw [loadStakes, List.map_map]
    rfl
  rw [stakeByMember, entries, ← loadStakes_pool]
  exact (loadStakes_cents nonneg small).tally

/-- Whole cents are recorded without loss. -/
theorem amounts_recorded {entryType : LedgerEntryType} {marketId : Option ℕ}
    {due : List (ℕ × ℚ)} {entries : List LedgerEntry} (cents : ∀ pair ∈ due, Scaled 2 pair.2)
    (recorded : List.Forall₂ (fun pair entry => Recorded pair.1 entryType pair.2 marketId entry)
      due entries) : amounts entries = Tally.total due := by
  have same : entries.map (fun entry => entry.amount.val) = due.map Prod.snd :=
    forall₂_map_eq recorded fun pair member entry row => row.exact (cents pair member)
  rw [amounts, same, Tally.total]

theorem total_positive {tally : List (ℕ × ℚ)} (nonneg : ∀ pair ∈ tally, 0 ≤ pair.2) :
    Tally.total (tally.filter fun pair => 0 < pair.2) = Tally.total tally := by
  induction tally with
  | nil => rfl
  | cons pair rest ih =>
      have head := nonneg pair (by simp)
      have rest := ih fun other member => nonneg other (by simp [member])
      by_cases positive : 0 < pair.2
      · simp [positive, rest]
      · have zero : pair.2 = 0 := le_antisymm (not_lt.mp positive) head
        simp [zero, rest]

theorem returnedTo_append {next : Db} {entries : List LedgerEntry}
    (ledger : next.ledger.contents = db.ledger.contents ++ entries) (marketId : ℕ) :
    returnedTo next marketId = returnedTo db marketId +
      amounts (entries.filter fun entry => entry.isReturn ∧ entry.marketId = some marketId) := by
  rw [returnedTo, returnedTo, ledger, List.filter_append, amounts_append]

/-- The bets of a market, without the payouts. -/
def marketBets (db : Db) (marketId : ℕ) : List Bet :=
  (db.bets.contents.map Bet.core).filter fun bet => bet.marketId = marketId

/-- The payout column does not count. -/
theorem marketBets_pool (db : Db) (marketId : ℕ) :
    marketPool db marketId = staked (marketBets db marketId) := by
  rw [marketPool, marketBets, staked, staked, List.filter_map, List.map_map]
  rfl

theorem loadStakes_marketBets (db : Db) (marketId : ℕ) :
    loadStakes db marketId = (marketBets db marketId).map Bet.toStake := by
  have values := congrArg (List.map Bet.toStake) (betsOf_values db marketId)
  rw [List.map_map] at values
  refine values.trans ?_
  rw [marketBets, List.filter_map, List.map_map]
  rfl

theorem core_mem_marketBets {db : Db} {marketId : ℕ} {row : ℕ × Bet}
    (member : row ∈ db.betsOf marketId) : row.2.core ∈ marketBets db marketId := by
  have listed : row.2 ∈ (db.betsOf marketId).map Prod.snd := List.mem_map_of_mem member
  rw [betsOf_values, List.mem_filter] at listed
  exact List.mem_filter.mpr ⟨List.mem_map_of_mem listed.1, listed.2⟩

theorem marketBets_nonneg {db : Db} (nonneg : StakesNonneg db) (marketId : ℕ) :
    ∀ bet ∈ marketBets db marketId, 0 ≤ bet.stake.val := by
  intro bet member
  obtain ⟨row, listed, rfl⟩ := List.mem_map.mp (List.mem_filter.mp member).1
  exact nonneg row listed

theorem BetsAfter.core {env : Env} {request : Request} {bets : List Bet}
    (after : BetsAfter env db request bets)
    (notAllocation : ∀ marketId memberId allocation rationale,
      request ≠ .putAllocation marketId memberId allocation rationale) :
    bets.map Bet.core = db.bets.contents.map Bet.core := by
  cases after with
  | same core => exact core
  | allocated => exact absurd rfl (notAllocation _ _ _ _)

/-- Only an allocation changes the bets of a market. -/
theorem BetsAfter.frozen {env : Env} {request : Request} {next : Db}
    (after : BetsAfter env db request next.bets.contents) {marketId : ℕ}
    (other : ∀ allocated memberId allocation rationale,
      request = .putAllocation allocated memberId allocation rationale → allocated ≠ marketId) :
    marketBets next marketId = marketBets db marketId := by
  unfold marketBets
  generalize next.bets.contents = bets at after
  cases after with
  | same core => rw [core]
  | @allocated allocated memberId _ _ news staked =>
      have differs := other allocated memberId _ _ rfl
      have none : ((news.map Bet.core).filter fun bet => bet.marketId = marketId) = [] := by
        apply List.filter_eq_nil_iff.mpr
        intro core member
        obtain ⟨bet, betMember, rfl⟩ := List.mem_map.mp member
        simpa [Bet.core, (newBets_mem (newBets_eq_ok staked) betMember).1] using differs
      rw [List.map_append, List.filter_append, none, List.append_nil, List.filter_map,
        List.filter_map, List.filter_filter]
      congr 1
      apply List.filter_congr
      intro bet _
      by_cases mine : bet.marketId = marketId
      · simp [Bet.core, mine, differs.symm]
      · simp [Bet.core, mine]

theorem BetsAfter.pool {env : Env} {request : Request} {next : Db}
    (after : BetsAfter env db request next.bets.contents) {marketId : ℕ}
    (other : ∀ allocated memberId allocation rationale,
      request = .putAllocation allocated memberId allocation rationale → allocated ≠ marketId) :
    marketPool next marketId = marketPool db marketId := by
  rw [marketBets_pool, marketBets_pool, after.frozen other]

end Pools

section Unpaid

variable {db : Db} {marketId : ℕ}

theorem filter_absent_nil {entries : List LedgerEntry} {keep : LedgerEntry → Bool}
    (absent : ∀ entry ∈ entries, keep entry = false) : entries.filter keep = [] := by
  apply List.filter_eq_nil_iff.mpr
  intro entry member
  rw [absent entry member]
  exact Bool.false_ne_true

/-- A search for returns of the market finds nothing. -/
theorem Unpaid.filter_nil (unpaid : Unpaid db marketId) {keep : LedgerEntry → Bool}
    (returns : ∀ entry, keep entry = true →
      entry.isReturn = true ∧ entry.marketId = some marketId) :
    db.ledger.contents.filter keep = [] := by
  refine filter_absent_nil fun entry member => Bool.eq_false_of_not_eq_true fun kept => ?_
  obtain ⟨isReturn, market⟩ := returns entry kept
  exact unpaid entry member isReturn market

theorem Unpaid.returnedTo_zero (unpaid : Unpaid db marketId) : returnedTo db marketId = 0 := by
  rw [returnedTo, unpaid.filter_nil fun entry kept => of_decide_eq_true kept, amounts_nil]

theorem Unpaid.no_entry (unpaid : Unpaid db marketId) (memberId : ℕ) {entryType : LedgerEntryType}
    (kind : entryType = .payout ∨ entryType = .cancelRefund) :
    hasEntry db memberId marketId entryType = false := by
  apply List.any_eq_false.mpr
  intro entry member
  simp only [decide_eq_true_eq]
  rintro ⟨_, market, sameType⟩
  have isReturn : entry.isReturn = true := by
    simp only [LedgerEntry.isReturn, decide_eq_true_eq, sameType]
    exact kind
  exact unpaid entry member isReturn market

theorem Unpaid.duePayouts_eq (unpaid : Unpaid db marketId) (payouts : List (ℕ × ℚ)) :
    duePayouts db marketId payouts = payouts.filter fun pair => 0 < pair.2 := by
  apply List.filter_congr
  intro pair _
  simp [unpaid.no_entry pair.1 (.inl rfl)]

theorem Unpaid.dueRefunds_eq (unpaid : Unpaid db marketId) :
    dueRefunds db marketId = stakeByMember db marketId := by
  apply List.filter_eq_self.mpr
  intro pair _
  simp [unpaid.no_entry pair.1 (.inr rfl)]

end Unpaid

section Requests

variable {env : Env} {db next : Db} {request : Request} {writes : List Write} {marketId : ℕ}

theorem Commits.closes_terminal (committed : Commits env db request writes)
    (applied : applyWrites db writes = .ok next) {marketId : ℕ}
    (closes : request.closes = some marketId) :
    ∃ row, next.markets.get? marketId = some row ∧ row.status.terminal = true := by
  cases committed with
  | settleMarket found =>
      cases closes
      rw [applyWrites_settlement applied, Table.get?_update, if_pos rfl, found]
      exact ⟨_, rfl, rfl⟩
  | cancelMarket found =>
      cases closes
      rw [applyWrites_cancellation applied, Table.get?_update, if_pos rfl, found]
      exact ⟨_, rfl, rfl⟩
  | _ => cases closes

/-- Payouts and refunds are recorded by the request that closes their market, and it
records nothing else. -/
theorem Commits.returns (committed : Commits env db request writes) :
    ∀ entry ∈ insertedRows .ledger writes,
      (entry.isReturn = true → ∃ marketId, request.closes = some marketId ∧
        entry.marketId = some marketId) ∧
      ∀ marketId, request.closes = some marketId →
        entry.isReturn = true ∧ entry.marketId = some marketId := by
  intro entry member
  have writesLedger := committed.table_of_row member
  have back : ∀ {closed : ℕ} {pair : ℕ × ℚ} {entryType : LedgerEntryType},
      (entryType = .payout ∨ entryType = .cancelRefund) → request.closes = some closed →
      Recorded pair.1 entryType pair.2 (some closed) entry →
      (entry.isReturn = true → ∃ marketId, request.closes = some marketId ∧
        entry.marketId = some marketId) ∧
      ∀ marketId, request.closes = some marketId →
        entry.isReturn = true ∧ entry.marketId = some marketId := by
    intro closed pair entryType kind closes row
    have isReturn : entry.isReturn = true := by
      simp only [LedgerEntry.isReturn, decide_eq_true_eq, row.entryType_eq]
      exact kind
    refine ⟨fun _ => ⟨closed, closes, row.marketId_eq⟩, fun marketId other => ⟨isReturn, ?_⟩⟩
    rw [row.marketId_eq, ← closes, other]
  cases committed with
  | createMember granted =>
      rw [show insertedRows .ledger _ = [_] from rfl, List.mem_singleton] at member
      rw [member]
      have kind := (record_eq_ok granted).entryType_eq
      refine ⟨fun isReturn => ?_, fun marketId closes => by cases closes⟩
      simp [LedgerEntry.isReturn, kind] at isReturn
  | createFund | createMarket | closeMarket | createDecision | approveDecision | rejectDecision
  | resolveMarket | syncFund => simp [Request.tables] at writesLedger
  | @putAllocation marketId memberId allocation rationale market refund bets lock found checked
      refunded stakedOk locked =>
      rw [allocation_rows] at member
      have kind : entry.entryType = .betRefund ∨ entry.entryType = .betLock := by
        rcases List.mem_append.mp member with old | new
        · exact .inl (refund_recorded refunded entry old).entryType_eq
        · rw [List.mem_singleton.mp new]
          exact .inr (record_eq_ok locked).entryType_eq
      refine ⟨fun isReturn => ?_, fun marketId closes => by cases closes⟩
      rcases kind with kind | kind <;> simp [LedgerEntry.isReturn, kind] at isReturn
  | settleMarket _ _ _ _ recorded _ =>
      rw [settlement_rows] at member
      obtain ⟨pair, _, row⟩ := forall₂_exists_left (payouts_recorded recorded) member
      exact back (.inl rfl) rfl row
  | cancelMarket _ _ _ recorded =>
      rw [cancellation_rows] at member
      obtain ⟨pair, _, row⟩ := forall₂_exists_left (refunds_recorded recorded) member
      exact back (.inr rfl) rfl row

/-- A market that is closed now was not closed before. -/
theorem Commits.closes_active (committed : Commits env db request writes) {marketId : ℕ}
    (closes : request.closes = some marketId) :
    ∀ row, db.markets.get? marketId = some row → row.status.terminal = false := by
  intro row before
  cases committed with
  | settleMarket found isResolved =>
      cases closes
      rw [found] at before
      cases before
      rw [isResolved]
      rfl
  | cancelMarket found notSettled notCancelled =>
      cases closes
      rw [found] at before
      cases before
      cases status : row.status <;> first | rfl | contradiction
  | _ => cases closes

/-- What a settlement or cancellation gives back and withholds is the pool. -/
theorem Commits.gives_back (committed : Commits env db request writes) (nonneg : StakesNonneg db)
    (unpaid : Unpaid db marketId) (small : marketPool db marketId < 10 ^ 24)
    (closes : request.closes = some marketId) :
    amounts (insertedRows .ledger writes) + request.rake env db = marketPool db marketId ∧
      0 ≤ request.rake env db := by
  cases committed with
  | @settleMarket _ market winningOutcome payouts entries shown found _ winning settled recorded
      _ =>
      cases closes
      have conserves := settleParimutuel_conserves (loadStakes_cents nonneg small) settled
      rw [unpaid.duePayouts_eq] at recorded
      have paid := amounts_recorded (fun pair member =>
        conserves.cents.scaled pair (List.mem_filter.mp member).1) (payouts_recorded recorded)
      have rake : Request.rake env db (.settleMarket marketId) =
          withheld (loadStakes db marketId) winningOutcome env.settings.rakeBps := by
        simp only [Request.rake, found, Option.bind_some, winning]
      rw [settlement_rows, rake, paid, total_positive conserves.cents.nonneg, conserves.total,
        loadStakes_pool]
      exact ⟨rfl, conserves.kept⟩
  | cancelMarket found _ _ recorded =>
      cases closes
      obtain ⟨cents, total⟩ := stakeByMember_total nonneg small
      rw [unpaid.dueRefunds_eq] at recorded
      rw [cancellation_rows, amounts_recorded cents.scaled (refunds_recorded recorded), total]
      exact ⟨add_zero _, le_refl 0⟩
  | _ => cases closes

/-- It gives every member at most one entry. -/
theorem Commits.gives_each_once (committed : Commits env db request writes)
    (nonneg : StakesNonneg db) (small : marketPool db marketId < 10 ^ 24)
    (closes : request.closes = some marketId) :
    ((insertedRows .ledger writes).map LedgerEntry.memberId).Nodup := by
  have owners : ∀ {entryType : LedgerEntryType} {due : List (ℕ × ℚ)} {entries : List LedgerEntry},
      (due.map Prod.fst).Nodup →
      List.Forall₂ (fun pair entry => Recorded pair.1 entryType pair.2 (some marketId) entry) due
        entries → (entries.map LedgerEntry.memberId).Nodup := by
    intro entryType due entries nodup recorded
    rwa [forall₂_map_eq recorded fun pair _ entry row => row.memberId_eq]
  cases committed with
  | settleMarket _ _ _ settled recorded _ =>
      cases closes
      have conserves := settleParimutuel_conserves (loadStakes_cents nonneg small) settled
      rw [settlement_rows]
      exact owners (conserves.members.sublist (List.filter_sublist.map _))
        (payouts_recorded recorded)
  | cancelMarket _ _ _ recorded =>
      cases closes
      rw [cancellation_rows]
      exact owners ((Tally.nodup_ofList _).sublist (List.filter_sublist.map _))
        (refunds_recorded recorded)
  | _ => cases closes

theorem Commits.pays_pool (committed : Commits env db request writes)
    (applied : applyWrites db writes = .ok next) (nonneg : StakesNonneg db)
    (unpaid : Unpaid db marketId) (small : marketPool db marketId < 10 ^ 24)
    (closes : request.closes = some marketId) :
    returnedTo next marketId ≤ marketPool next marketId := by
  have pool : marketPool next marketId = marketPool db marketId := by
    refine (committed.bets applied).pool ?_
    rintro allocated memberId allocation rationale rfl
    cases closes
  have all : ((insertedRows .ledger writes).filter fun entry =>
      entry.isReturn ∧ entry.marketId = some marketId) = insertedRows .ledger writes := by
    apply List.filter_eq_self.mpr
    intro entry member
    exact decide_eq_true ((committed.returns entry member).2 marketId closes)
  obtain ⟨total, kept⟩ := committed.gives_back nonneg unpaid small closes
  rw [returnedTo_append (applyWrites_ledger applied), all, unpaid.returnedTo_zero, zero_add, pool]
  linarith

/-- Other requests leave alone what the market has paid back. -/
theorem Commits.returnedTo_same (committed : Commits env db request writes)
    (applied : applyWrites db writes = .ok next) (other : request.closes ≠ some marketId) :
    returnedTo next marketId = returnedTo db marketId := by
  have none : ((insertedRows .ledger writes).filter fun entry =>
      entry.isReturn ∧ entry.marketId = some marketId) = [] := by
    refine filter_absent_nil fun entry member => ?_
    simp only [decide_eq_false_iff_not]
    rintro ⟨isReturn, market⟩
    obtain ⟨closed, closes, sameMarket⟩ := (committed.returns entry member).1 isReturn
    rw [market] at sameMarket
    cases sameMarket
    exact other closes
  rw [returnedTo_append (applyWrites_ledger applied), none, amounts_nil, add_zero]

end Requests

end FundPolymarket
