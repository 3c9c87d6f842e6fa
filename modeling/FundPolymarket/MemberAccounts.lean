import FundPolymarket.Conservation
import FundPolymarket.Resubmission
import FundPolymarket.ShownPayouts
import FundPolymarket.StoredStakes

set_option autoImplicit false

/- What a market has cost or brought each member: the ledger holds what the market has
awarded the member, less the member's stakes. -/
namespace FundPolymarket

open Decimal (Scaled)

/-- What the ledger holds of a member for a market. -/
def marketAccount (db : Db) (marketId memberId : ℕ) : ℚ :=
  amounts (db.ledger.contents.filter fun entry =>
    entry.memberId = memberId ∧ entry.marketId = some marketId)

/-- What a settlement or a cancellation of the market gives the member. -/
def Request.award (env : Env) (db : Db) (marketId memberId : ℕ) : Request → ℚ
  | .settleMarket id =>
      if id = marketId then
        match (db.markets.get? id).bind Market.winningOutcome with
        | none => 0
        | some winningOutcome =>
            match settleParimutuel (loadStakes db id) winningOutcome env.settings.rakeBps with
            | .error _ => 0
            | .ok payouts => Tally.get payouts memberId
      else 0
  | .cancelMarket id _ => if id = marketId then Tally.get (stakeByMember db id) memberId else 0
  | _ => 0

def Step.award (step : Step) (marketId memberId : ℕ) : ℚ :=
  match step.event, step.served.result with
  | .request env request, .ok _ => request.award env step.pre marketId memberId
  | _, _ => 0

/-- A cancellation that went through. -/
def Step.cancels (step : Step) (marketId : ℕ) : Prop :=
  (∃ env reason, step.event = .request env (.cancelMarket marketId reason)) ∧
    step.served.result = .ok ()

section Sums

variable {tally : List (ℕ × ℚ)} {entries : List LedgerEntry}

theorem total_filter_key (nodup : (tally.map Prod.fst).Nodup) (key : ℕ) :
    Tally.total (tally.filter fun entry => entry.1 = key) = Tally.get tally key := by
  induction tally with
  | nil => rfl
  | cons entry rest ih =>
      rw [List.map_cons, List.nodup_cons] at nodup
      by_cases same : entry.1 = key
      · have none : rest.filter (fun other => other.1 = key) = [] := by
          refine List.filter_eq_nil_iff.mpr fun other member => ?_
          rw [decide_eq_true_eq]
          exact fun equal => nodup.1 ((same.trans equal.symm) ▸ List.mem_map_of_mem member)
        simp [same, none, Tally.get]
      · have passed : Tally.get (entry :: rest) key = Tally.get rest key := by
          simp [Tally.get, same]
        rw [List.filter_cons_of_neg (by simpa using same), ih nodup.2, passed]

/-- The entries of one member add up to the member's part of the tally. -/
theorem amounts_of_member {entryType : LedgerEntryType} {marketId : Option ℕ}
    (cents : ∀ pair ∈ tally, Scaled 2 pair.2)
    (recorded : List.Forall₂ (fun pair entry => Recorded pair.1 entryType pair.2 marketId entry)
      tally entries) (memberId : ℕ) :
    amounts (entries.filter fun entry => entry.memberId = memberId) =
      Tally.total (tally.filter fun pair => pair.1 = memberId) := by
  have pairs : entries.map (fun entry => (entry.memberId, entry.amount.val)) = tally.map id :=
    forall₂_map_eq recorded fun pair member entry row => by
      rw [row.memberId_eq, row.exact (cents pair member)]
      rfl
  rw [List.map_id] at pairs
  rw [← pairs, Tally.total, List.filter_map, List.map_map, amounts]
  rfl

end Sums

section Steps

variable {env : Env} {db next : Db} {request : Request} {writes : List Write}
  {marketId memberId : ℕ}

theorem account_append {entries : List LedgerEntry}
    (ledger : next.ledger.contents = db.ledger.contents ++ entries) (marketId memberId : ℕ) :
    marketAccount next marketId memberId = marketAccount db marketId memberId +
      amounts (entries.filter fun entry =>
        entry.memberId = memberId ∧ entry.marketId = some marketId) := by
  rw [marketAccount, ledger, List.filter_append, amounts_append, ← marketAccount]

/-- A market that has not paid yet gives every member the award. -/
theorem Commits.awards (committed : Commits env db request writes) (nonneg : StakesNonneg db)
    (unpaid : Unpaid db marketId) (small : marketPool db marketId < 10 ^ 24)
    (closes : request.closes = some marketId) (memberId : ℕ) :
    amounts ((insertedRows .ledger writes).filter fun entry => entry.memberId = memberId) =
      request.award env db marketId memberId := by
  cases committed with
  | @settleMarket _ market winningOutcome payouts entries shown found _ winning settled recorded
      _ =>
      cases closes
      have conserves := settleParimutuel_conserves (loadStakes_cents nonneg small) settled
      rw [unpaid.duePayouts_eq] at recorded
      have award : Request.award env db marketId memberId (.settleMarket marketId) =
          Tally.get payouts memberId := by
        simp only [Request.award, found, Option.bind_some, winning, settled, if_true]
      rw [settlement_rows, amounts_of_member (fun pair member =>
        conserves.cents.scaled pair (List.mem_filter.mp member).1) (payouts_recorded recorded),
        List.filter_comm, total_positive fun pair member =>
          conserves.cents.nonneg pair (List.mem_filter.mp member).1,
        total_filter_key conserves.members, award]
  | cancelMarket found _ _ recorded =>
      cases closes
      obtain ⟨cents, _⟩ := stakeByMember_total nonneg small
      have keys : ((stakeByMember db marketId).map Prod.fst).Nodup := Tally.nodup_ofList _
      rw [unpaid.dueRefunds_eq] at recorded
      rw [cancellation_rows, amounts_of_member cents.scaled (refunds_recorded recorded),
        total_filter_key keys]
      simp [Request.award]
  | _ => cases closes

/-- Entries for a market come from allocations on it and from what closes it. -/
theorem Commits.entry_market (committed : Commits env db request writes) {entry : LedgerEntry}
    (member : entry ∈ insertedRows .ledger writes) (market : entry.marketId = some marketId) :
    request.closes = some marketId ∨ ∃ owner allocation rationale,
      request = .putAllocation marketId owner allocation rationale := by
  have writesLedger := committed.table_of_row member
  cases committed with
  | createFund | createMarket | closeMarket | createDecision | approveDecision | rejectDecision
  | resolveMarket | syncFund => simp [Request.tables] at writesLedger
  | createMember granted =>
      cases List.mem_singleton.mp member
      rw [(record_eq_ok granted).marketId_eq] at market
      cases market
  | @putAllocation allocated _ _ _ _ _ _ _ _ _ refunded _ locked =>
      rw [allocation_rows] at member
      have same : entry.marketId = some allocated := by
        rcases List.mem_append.mp member with refund | lock
        · exact (refund_recorded refunded entry refund).marketId_eq
        · exact List.mem_singleton.mp lock ▸ (record_eq_ok locked).marketId_eq
      cases same.symm.trans market
      exact .inr ⟨_, _, _, rfl⟩
  | settleMarket _ _ _ _ recorded _ =>
      rw [settlement_rows] at member
      obtain ⟨_, _, row⟩ := forall₂_exists_left (payouts_recorded recorded) member
      exact .inl (row.marketId_eq.symm.trans market)
  | cancelMarket _ _ _ recorded =>
      rw [cancellation_rows] at member
      obtain ⟨_, _, row⟩ := forall₂_exists_left (refunds_recorded recorded) member
      exact .inl (row.marketId_eq.symm.trans market)

/-- The other requests leave the account alone. -/
theorem Commits.account_same (committed : Commits env db request writes)
    (applied : applyWrites db writes = .ok next) (notCloses : request.closes ≠ some marketId)
    (notAllocation : ∀ owner allocation rationale,
      request ≠ .putAllocation marketId owner allocation rationale) (memberId : ℕ) :
    marketAccount next marketId memberId = marketAccount db marketId memberId := by
  rw [account_append (applyWrites_ledger applied), filter_absent_nil, amounts_nil, add_zero]
  intro entry member
  rw [decide_eq_false_iff_not]
  rintro ⟨_, market⟩
  rcases committed.entry_market member market with closes | ⟨_, _, _, same⟩
  · exact notCloses closes
  · exact notAllocation _ _ _ same

theorem Request.award_of_ne (notCloses : request.closes ≠ some marketId) :
    request.award env db marketId memberId = 0 := by
  cases request with
  | settleMarket id | cancelMarket id =>
      have differs : id ≠ marketId := fun same => notCloses (congrArg some same)
      simp [Request.award, differs]
  | _ => rfl

/-- An allocation moves points between the account and the stakes of its member. -/
theorem Commits.account_allocated {market owner : ℕ} {allocation : Allocation}
    {rationale : Option String}
    (committed : Commits env db (.putAllocation market owner allocation rationale) writes)
    (applied : applyWrites db writes = .ok next) (nonneg : StakesNonneg db)
    (cents : ∀ entry ∈ allocation.entries, Scaled 2 entry.2) (marketId memberId : ℕ) :
    marketAccount next marketId memberId + staked (ownBets next marketId memberId) =
      marketAccount db marketId memberId + staked (ownBets db marketId memberId) := by
  obtain ⟨entries, bets, reallocated, _⟩ := committed.reallocated nonneg applied
  rw [account_append reallocated.ledger]
  by_cases mine : marketId = market ∧ memberId = owner
  · obtain ⟨rfl, rfl⟩ := mine
    have all : (entries.filter fun entry =>
        entry.memberId = memberId ∧ entry.marketId = some marketId) = entries := by
      refine List.filter_eq_self.mpr fun entry member => ?_
      obtain ⟨same, sameMarket, _⟩ := reallocated.own entry member
      simp [same, sameMarket]
    have balanced := reallocated.balanced fun entry member =>
      cents entry (List.mem_filter.mp member).1
    rw [all, reallocated.ownBets]
    linarith
  · have none : (entries.filter fun entry =>
        entry.memberId = memberId ∧ entry.marketId = some marketId) = [] := by
      refine filter_absent_nil fun entry member => ?_
      obtain ⟨same, sameMarket, _⟩ := reallocated.own entry member
      rw [decide_eq_false_iff_not, same, sameMarket]
      exact fun both => mine ⟨(Option.some.inj both.2).symm, both.1.symm⟩
    rw [none, (committed.othersKept nonneg applied).ownBets mine, amounts_nil, add_zero]

theorem StakesNonneg.own_stakeByMember (nonneg : StakesNonneg db) {reason : String} :
    Request.award env db marketId memberId (.cancelMarket marketId reason) =
      staked (ownBets db marketId memberId) := by
  rw [Request.award, if_pos rfl, get_stakeByMember nonneg]

end Steps

/-- What the ledger holds for every member and market, and that a cancelled market has cost
nobody anything. -/
structure Accounted (steps : List Step) (db : Db) : Prop where
  each : ∀ marketId memberId,
    marketAccount db marketId memberId + staked (ownBets db marketId memberId) =
      (steps.map fun step => step.award marketId memberId).sum
  cancelled : ∀ marketId, (∃ step ∈ steps, step.cancels marketId) →
    ∀ memberId, marketAccount db marketId memberId = 0

section Run

variable {env : Env} {db next : Db} {request : Request} {writes : List Write} {steps : List Step}
  {step : Step}

theorem Step.award_of_ok (event : step.event = .request env request)
    (returned : step.served.result = .ok ()) (marketId memberId : ℕ) :
    step.award marketId memberId = request.award env step.pre marketId memberId := by
  rw [Step.award, event, returned]

theorem Step.award_of_not_given {marketId : ℕ} (other : step.givesBack ≠ some marketId)
    (memberId : ℕ) : step.award marketId memberId = 0 := by
  unfold Step.award
  split
  · rename_i env request done event returned
    refine Request.award_of_ne ?_
    rwa [← Step.givesBack_of_ok event returned]
  · rfl

/-- A market that has not been given back has awarded nothing. -/
theorem awards_of_not_given {marketId : ℕ} (active : marketId ∉ givenBack steps) (memberId : ℕ) :
    (steps.map fun step => step.award marketId memberId).sum = 0 := by
  refine List.sum_eq_zero fun award member => ?_
  obtain ⟨step, stepMember, rfl⟩ := List.mem_map.mp member
  refine Step.award_of_not_given (fun gives => active ?_) memberId
  exact List.mem_filterMap.mpr ⟨step, stepMember, gives⟩

/-- An allocation finds its market open, a settlement or cancellation finds it active. -/
theorem Commits.market_active (committed : Commits env db request writes) {marketId : ℕ}
    (touches : request.closes = some marketId ∨ ∃ owner allocation rationale,
      request = .putAllocation marketId owner allocation rationale) :
    ∀ row, db.markets.get? marketId = some row → row.status.terminal = false := by
  rcases touches with closes | ⟨owner, allocation, rationale, rfl⟩
  · exact committed.closes_active closes
  · intro row found
    cases committed with
    | putAllocation open_ checked =>
        cases found.symm.trans open_
        rw [(checkAllocation_eq_ok checked).isOpen]
        rfl

theorem Accounted.refused (accounted : Accounted steps db) {exc : AppError}
    (failed : step.served.result = .error exc) : Accounted (steps ++ [step]) db := by
  refine ⟨fun marketId memberId => ?_, fun marketId cancels => ?_⟩
  · have nothing : step.award marketId memberId = 0 := by
      unfold Step.award
      rw [failed]
      cases step.event <;> rfl
    rw [List.map_append, List.sum_append, List.map_singleton, List.sum_singleton, nothing,
      add_zero]
    exact accounted.each marketId memberId
  · obtain ⟨other, member, cancels⟩ := cancels
    rcases List.mem_append.mp member with old | new
    · exact accounted.cancelled marketId ⟨other, old, cancels⟩
    · cases List.mem_singleton.mp new
      have returned := cancels.2
      rw [failed] at returned
      cases returned

theorem Commits.account_awarded (committed : Commits env db request writes)
    (applied : applyWrites db writes = .ok next) (booked : Booked steps db)
    (allowed : PointsAllowed env request db) (marketId memberId : ℕ) :
    marketAccount next marketId memberId + staked (ownBets next marketId memberId) =
      marketAccount db marketId memberId + staked (ownBets db marketId memberId) +
        request.award env db marketId memberId := by
  by_cases allocates : ∃ market owner allocation rationale,
      request = .putAllocation market owner allocation rationale
  · obtain ⟨market, owner, allocation, rationale, rfl⟩ := allocates
    rw [committed.account_allocated applied booked.stakes allowed]
    exact (add_zero _).symm
  push Not at allocates
  rw [staked_ownBets_core ((committed.bets applied).core allocates)]
  by_cases closes : request.closes = some marketId
  · have unpaid := booked.unpaid (booked.not_given (committed.market_active (.inl closes)))
    have mine : (insertedRows .ledger writes).filter (fun entry =>
        entry.memberId = memberId ∧ entry.marketId = some marketId) =
        (insertedRows .ledger writes).filter fun entry => entry.memberId = memberId := by
      refine List.filter_congr fun entry member => ?_
      simp [((committed.returns entry member).2 marketId closes).2]
    rw [account_append (applyWrites_ledger applied), mine,
      committed.awards booked.stakes unpaid (allowed.pool_lt closes) closes]
    ring
  · rw [committed.account_same applied closes (allocates marketId), Request.award_of_ne closes,
      add_zero]

theorem Accounted.committed (accounted : Accounted steps db) (booked : Booked steps db)
    (commits : Commits env db request writes) (applied : applyWrites db writes = .ok next)
    (allowed : PointsAllowed env request db)
    (returned : (serve env request db).result = .ok ()) :
    Accounted (steps ++ [⟨.request env request, db⟩]) next := by
  have award := @Step.award_of_ok env request ⟨.request env request, db⟩ rfl returned
  have each : ∀ marketId memberId,
      marketAccount next marketId memberId + staked (ownBets next marketId memberId) =
        (steps.map fun step => step.award marketId memberId).sum +
          request.award env db marketId memberId := by
    intro marketId memberId
    rw [commits.account_awarded applied booked allowed, accounted.each]
  refine ⟨fun marketId memberId => ?_, fun marketId cancels memberId => ?_⟩
  · rw [List.map_append, List.sum_append, List.map_singleton, List.sum_singleton, award]
    exact each marketId memberId
  · obtain ⟨other, member, cancels⟩ := cancels
    rcases List.mem_append.mp member with old | new
    · have given : marketId ∈ givenBack steps := by
        obtain ⟨⟨otherEnv, reason, event⟩, otherReturned⟩ := cancels
        exact List.mem_filterMap.mpr ⟨other, old, Step.givesBack_of_ok event otherReturned⟩
      have untouched := fun touches => booked.not_given (commits.market_active touches) given
      rw [commits.account_same applied (fun closes => untouched (.inl closes))
        fun _ _ _ same => untouched (.inr ⟨_, _, _, same⟩)]
      exact accounted.cancelled marketId ⟨other, old, cancels⟩ memberId
    · cases List.mem_singleton.mp new
      obtain ⟨⟨_, reason, event⟩, _⟩ := cancels
      cases event
      have active := booked.not_given (commits.market_active (.inl rfl))
      have balance := each marketId memberId
      rw [awards_of_not_given active, booked.stakes.own_stakeByMember,
        staked_ownBets_core ((commits.bets applied).core (by simp))] at balance
      linarith

end Run

/-- In every allowed run of requests the ledger holds, for every member and every market, what
the market has awarded the member less what the member has staked on it. -/
theorem accounts_balance (events : List Event) (sequential : ∀ event ∈ events, event.isRequest)
    (allowed : ∀ s ∈ stepsFrom Db.empty events, s.Meets PointsAllowed) :
    Accounted (stepsFrom Db.empty events) (stateAfter Db.empty events) := by
  suffices both : (∀ s ∈ stepsFrom Db.empty events,
      s.event.isRequest = true ∧ s.Meets PointsAllowed) →
        Booked (stepsFrom Db.empty events) (stateAfter Db.empty events) ∧
          Accounted (stepsFrom Db.empty events) (stateAfter Db.empty events) from
    (both fun s member => ⟨sequential _ (stepsFrom_event member), allowed s member⟩).2
  refine run_induction (motive := fun steps db =>
    (∀ s ∈ steps, s.event.isRequest = true ∧ s.Meets PointsAllowed) →
      Booked steps db ∧ Accounted steps db) (fun _ => ⟨booked_empty, ?_, by simp⟩) ?_ events
  · exact fun _ _ => add_zero (0 : ℚ)
  intro steps db event ih conditions
  obtain ⟨booked, accounted⟩ := ih fun s member => conditions s (List.mem_append_left _ member)
  obtain ⟨isRequest, meets⟩ := conditions ⟨event, db⟩ (by simp)
  cases event with
  | tick => cases isRequest
  | request env request =>
      refine ⟨booked.serve meets, ?_⟩
      rw [Event.serve]
      rcases serve_cases env request db with
        ⟨same, exc, failed⟩ | ⟨returned, writes, commits, applied⟩
      · rw [same]
        exact accounted.refused failed
      · exact accounted.committed booked commits applied meets returned

theorem accounts_balance_settled :
    Accounted (stepsFrom Db.empty settledInTime) (stateAfter Db.empty settledInTime) :=
  accounts_balance settledInTime (by decide) (by decide +kernel)

end FundPolymarket
