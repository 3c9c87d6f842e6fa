import FundPolymarket.Reallocation

set_option autoImplicit false

/- No member goes into debt, along any run. -/
namespace FundPolymarket

/-- No balance and no stake is negative. -/
structure Solvent (db : Db) : Prop where
  balances : ∀ memberId, 0 ≤ getBalance db memberId
  stakes : StakesNonneg db

/-- New members are not granted a negative amount. -/
def NonnegGrants (env : Env) (request : Request) (_db : Db) : Prop :=
  match request with
  | .createMember _ => 0 ≤ env.settings.initialPoints
  | _ => True

instance (env : Env) (request : Request) (db : Db) : Decidable (NonnegGrants env request db) :=
  match request with
  | .createMember _ => inferInstanceAs (Decidable (0 ≤ env.settings.initialPoints))
  | .createFund _ _ _ | .createMarket _ _ | .putAllocation _ _ _ _ | .closeMarket _
  | .createDecision _ | .approveDecision _ _ | .rejectDecision _ _ _ | .resolveMarket _
  | .settleMarket _ | .cancelMarket _ _ | .syncFund _ => .isTrue trivial

section Step

variable {env : Env} {db next : Db} {request : Request} {writes : List Write}

theorem BetsAfter.nonneg {bets : List Bet} (after : BetsAfter env db request bets)
    (nonneg : StakesNonneg db) : ∀ bet ∈ bets, 0 ≤ bet.stake.val := by
  intro bet member
  cases after with
  | same core =>
      have listed : bet.core ∈ db.bets.contents.map Bet.core :=
        core ▸ List.mem_map_of_mem member
      obtain ⟨old, oldMember, sameCore⟩ := List.mem_map.mp listed
      have oldNonneg : 0 ≤ old.core.stake.val := nonneg old oldMember
      rw [sameCore] at oldNonneg
      exact oldNonneg
  | allocated staked =>
      rcases List.mem_append.mp member with old | new
      · exact nonneg bet (List.mem_filter.mp old).1
      · exact (newBets_mem (newBets_eq_ok staked) new).2.2

theorem stakeByMember_nonneg (nonneg : StakesNonneg db) (marketId : ℕ) :
    ∀ pair ∈ stakeByMember db marketId, 0 ≤ pair.2 := by
  refine Tally.nonneg_ofList fun pair member => ?_
  obtain ⟨row, rowMember, rfl⟩ := List.mem_map.mp member
  exact nonneg row.2 (betsOf_mem rowMember)

/-- Apart from an allocation, no request takes points from anybody. -/
theorem Commits.entries_nonneg (committed : Commits env db request writes)
    (grants : NonnegGrants env request db) (nonneg : StakesNonneg db)
    (notAllocation : ∀ marketId memberId allocation rationale,
      request ≠ .putAllocation marketId memberId allocation rationale) :
    ∀ entry ∈ insertedRows .ledger writes, 0 ≤ entry.amount.val := by
  intro entry member
  have writesLedger := committed.table_of_row member
  cases committed with
  | createMember granted =>
      rw [show insertedRows .ledger _ = [_] from rfl, List.mem_singleton] at member
      rw [member]
      exact (record_eq_ok granted).nonneg grants
  | createFund | createMarket | closeMarket | createDecision | approveDecision | rejectDecision
  | resolveMarket | syncFund => simp [Request.tables] at writesLedger
  | putAllocation => exact absurd rfl (notAllocation _ _ _ _)
  | settleMarket _ _ _ _ recorded _ =>
      rw [settlement_rows] at member
      obtain ⟨pair, pairMember, entryOk⟩ := forall₂_exists_left (payouts_recorded recorded) member
      have positive := (of_decide_eq_true (List.mem_filter.mp pairMember).2).1
      exact entryOk.nonneg positive.le
  | cancelMarket _ _ _ recorded =>
      rw [cancellation_rows] at member
      obtain ⟨pair, pairMember, entryOk⟩ := forall₂_exists_left (refunds_recorded recorded) member
      exact entryOk.nonneg (stakeByMember_nonneg nonneg _ pair (List.mem_filter.mp pairMember).1)

theorem Commits.solvent (committed : Commits env db request writes)
    (applied : applyWrites db writes = .ok next) (grants : NonnegGrants env request db)
    (solvent : Solvent db) : Solvent next := by
  refine ⟨fun memberId => ?_, (committed.bets applied).nonneg solvent.stakes⟩
  by_cases allocation : ∃ marketId owner allocation rationale,
      request = .putAllocation marketId owner allocation rationale
  · obtain ⟨marketId, owner, allocation, rationale, rfl⟩ := allocation
    obtain ⟨entries, bets, reallocated, covers⟩ := committed.reallocated solvent.stakes applied
    by_cases mine : memberId = owner
    · rw [mine, reallocated.balance]
      exact reallocated.covered covers (solvent.balances owner)
    · rw [reallocated.balance_others mine]
      exact solvent.balances memberId
  · push Not at allocation
    rw [getBalance_append (applyWrites_ledger applied)]
    have nonneg := committed.entries_nonneg grants solvent.stakes allocation
    refine add_nonneg (solvent.balances memberId) (amounts_nonneg fun entry member => ?_)
    exact nonneg entry (List.mem_filter.mp member).1

end Step

theorem scheduled_grants (env : Env) (request : Request) (db : Db)
    (scheduled : request.scheduled = true) : NonnegGrants env request db := by
  cases request with
  | createMember => cases scheduled
  | _ => trivial

/-- No run leaves a negative stake. -/
theorem stakesNonneg_stateAfter {start : Db} (nonneg : StakesNonneg start) (events : List Event) :
    StakesNonneg (stateAfter start events) := by
  have step : ∀ env request db writes next, True → True → Commits env db request writes →
      applyWrites db writes = .ok next → StakesNonneg db → StakesNonneg next :=
    fun _ _ _ _ _ _ _ committed applied before => (committed.bets applied).nonneg before
  exact requests_invariant (fun _ _ _ _ _ => trivial) step nonneg events
    (fun _ _ => trusts_anything _) fun s _ => s.meets_anything

theorem stakesNonneg_empty : StakesNonneg Db.empty := by
  simp [StakesNonneg, Db.empty, UniqueTable.empty]

theorem run_solvent (events : List Event)
    (grants : ∀ s ∈ stepsFrom Db.empty events, s.Meets NonnegGrants) :
    Solvent (stateAfter Db.empty events) := by
  refine requests_invariant (fun env request db scheduled _ => scheduled_grants env request db
    scheduled) (fun _ _ _ _ _ permitted _ committed applied => committed.solvent applied permitted)
    ⟨fun memberId => ?_, ?_⟩ events (fun _ _ => trusts_anything _) grants
  · exact le_refl (0 : ℚ)
  · simp [StakesNonneg, Db.empty, UniqueTable.empty]

/-- In every state that a run reaches, every balance covers itself. -/
theorem members_solvent (events : List Event)
    (grants : ∀ s ∈ stepsFrom Db.empty events, s.Meets NonnegGrants) (memberId : ℕ) :
    0 ≤ getBalance (stateAfter Db.empty events) memberId :=
  (run_solvent events grants).balances memberId

theorem members_solvent_opened : 0 ≤ getBalance (stateAfter Db.empty openedMarket) 1 :=
  members_solvent openedMarket (by decide +kernel) 1

end FundPolymarket
