import FundPolymarket.Solvency

set_option autoImplicit false

/- The columns hold two places, a request may hold any number. The lock of an allocation
is stored as the rounding of a sum, its stakes as a sum of roundings. -/
namespace FundPolymarket

open Decimal (Numeric Scaled)

/-- What a column of points keeps of an amount, in cents. -/
def storedCents (amount : ℚ) : ℤ := Decimal.halfUp (amount * 10 ^ 2)

/-- The cents that the stakes of an allocation are stored with. -/
def stakedCents (allocation : Allocation) : ℤ :=
  (allocation.cleaned.map fun entry => storedCents entry.2).sum

/-- The total is stored with as many cents as the stakes. -/
def StoresWhole (allocation : Allocation) : Prop :=
  storedCents allocation.total = stakedCents allocation

instance (allocation : Allocation) : Decidable (StoresWhole allocation) :=
  inferInstanceAs (Decidable (_ = _))

/-- What a member owns on a market and in cash. -/
def accountOn (db : Db) (marketId memberId : ℕ) : ℚ :=
  getBalance db memberId + staked (ownBets db marketId memberId)

/-- What a member owns on all markets and in cash. -/
def account (db : Db) (memberId : ℕ) : ℚ := getBalance db memberId + memberStakes db memberId

section Gain

variable {env : Env} {db next : Db} {marketId memberId : ℕ} {allocation : Allocation}
  {rationale : Option String} {writes : List Write} {entries : List LedgerEntry} {bets : List Bet}

theorem val_storedCents {amount : ℚ} {stored : Points}
    (result : Numeric.ofDecimal 18 2 amount = some stored) :
    stored.val = (storedCents amount : ℚ) / 10 ^ 2 := by
  rw [Numeric.val, Numeric.ofDecimal_units result]
  rfl

theorem staked_stakedCents
    (news : List.Forall₂ (NewBet marketId memberId) allocation.cleaned bets) :
    staked bets = (stakedCents allocation : ℚ) / 10 ^ 2 := by
  have stored : bets.map (fun bet => bet.stake.val) =
      allocation.cleaned.map fun entry => (storedCents entry.2 : ℚ) / 10 ^ 2 :=
    forall₂_map_eq news fun entry _ bet new => val_storedCents new.stored
  rw [staked, stored, stakedCents]
  induction allocation.cleaned with
  | nil => simp
  | cons entry rest ih =>
      rw [List.map_cons, List.sum_cons, ih, List.map_cons, List.sum_cons]
      push_cast
      ring

/-- An allocation adds to the account what its stakes are stored above its lock. -/
theorem Commits.gain (nonneg : StakesNonneg db)
    (committed : Commits env db (.putAllocation marketId memberId allocation rationale) writes)
    (applied : applyWrites db writes = .ok next) :
    ∃ entries bets, Reallocated db marketId memberId allocation next entries bets ∧
      amounts entries + staked bets = staked (ownBets db marketId memberId) +
        ((stakedCents allocation - storedCents allocation.total : ℤ) : ℚ) / 10 ^ 2 := by
  cases committed with
  | putAllocation found checked refunded stakes locked =>
      obtain ⟨_, _, _, stored, storedOk, lockAmount⟩ := lock_eq_ok locked
      refine ⟨_, _, .of_rows nonneg refunded stakes locked applied, ?_⟩
      rw [amounts_append, amounts_singleton, previousRefund_eq_ok nonneg refunded, lockAmount,
        val_storedCents storedOk, previousTotal_eq nonneg,
        staked_stakedCents (newBets_eq_ok stakes)]
      push_cast
      ring

theorem Reallocated.ownBets
    (reallocated : Reallocated db marketId memberId allocation next entries bets) :
    ownBets next marketId memberId = bets := by
  have gone : (db.bets.contents.filter fun bet =>
      !decide (bet.marketId = marketId ∧ bet.memberId = memberId)).filter
        (fun bet => decide (bet.marketId = marketId ∧ bet.memberId = memberId)) = [] := by
    rw [List.filter_filter, List.filter_eq_nil_iff]
    intro bet _
    simp
  have kept : bets.filter (fun bet =>
      decide (bet.marketId = marketId ∧ bet.memberId = memberId)) = bets := by
    rw [List.filter_eq_self]
    intro bet member
    have new := reallocated.news bet member
    simp [new.1, new.2.1]
  rw [FundPolymarket.ownBets, reallocated.bets_eq, List.filter_append, gone, kept, List.nil_append]

theorem Reallocated.memberStakes_others
    (reallocated : Reallocated db marketId memberId allocation next entries bets) {other : ℕ}
    (differs : other ≠ memberId) : memberStakes next other = memberStakes db other := by
  have none : (bets.filter fun bet => bet.memberId = other) = [] := by
    rw [List.filter_eq_nil_iff]
    intro bet member
    simp [(reallocated.news bet member).2.1, differs.symm]
  have same : ((db.bets.contents.filter fun bet =>
      !decide (bet.marketId = marketId ∧ bet.memberId = memberId)).filter
        fun bet => bet.memberId = other) = db.bets.contents.filter fun bet =>
          bet.memberId = other := by
    rw [List.filter_filter]
    refine List.filter_congr fun bet _ => ?_
    by_cases owner : bet.memberId = other
    · simp [owner, differs]
    · simp [owner]
  rw [memberStakes, reallocated.bets_eq, List.filter_append, none, same, List.append_nil,
    memberStakes]

/-- What an allocation does to every account. -/
theorem Commits.accounts (nonneg : StakesNonneg db)
    (committed : Commits env db (.putAllocation marketId memberId allocation rationale) writes)
    (applied : applyWrites db writes = .ok next) :
    accountOn next marketId memberId = accountOn db marketId memberId +
        ((stakedCents allocation - storedCents allocation.total : ℤ) : ℚ) / 10 ^ 2 ∧
      account next memberId = account db memberId +
        ((stakedCents allocation - storedCents allocation.total : ℤ) : ℚ) / 10 ^ 2 ∧
      (∀ other, other ≠ memberId → account next other = account db other) ∧
      StakesNonneg next := by
  obtain ⟨entries, bets, reallocated, gained⟩ := committed.gain nonneg applied
  refine ⟨?_, ?_, fun other differs => ?_, reallocated.nonneg nonneg⟩
  · rw [accountOn, accountOn, reallocated.ownBets, reallocated.balance]
    linarith
  · have stakes := reallocated.stakes
    rw [account, account, reallocated.balance]
    linarith
  · rw [account, account, reallocated.balance_others differs,
      reallocated.memberStakes_others differs]

end Gain

section Runs

variable {db : Db}

/-- A request that replaces an allocation by one whose total is stored whole. -/
def Event.ReallocatesWhole : Event → Prop
  | .request _ (.putAllocation _ _ allocation _) => StoresWhole allocation
  | _ => False

/-- No stake is negative, and everybody owns what they owned before. -/
structure AccountsKept (db now : Db) : Prop where
  nonneg : StakesNonneg now
  same : ∀ memberId, account now memberId = account db memberId

theorem AccountsKept.serve {now : Db} (kept : AccountsKept db now) {event : Event}
    (whole : event.ReallocatesWhole) : AccountsKept db (event.serve now).db := by
  cases event with
  | tick => cases whole
  | request env request =>
      cases request with
      | putAllocation marketId owner allocation rationale =>
          rcases serve_cases env (.putAllocation marketId owner allocation rationale) now with
            ⟨same, _⟩ | ⟨_, writes, committed, applied⟩
          · rw [Event.serve, same]
            exact kept
          · obtain ⟨_, own, others, nonneg⟩ := committed.accounts kept.nonneg applied
            refine ⟨nonneg, fun memberId => ?_⟩
            rw [← kept.same memberId]
            by_cases mine : memberId = owner
            · have stored : storedCents allocation.total = stakedCents allocation := whole
              rw [mine, Event.serve, own, stored, sub_self, Int.cast_zero, zero_div, add_zero]
            · exact others memberId mine
      | _ => cases whole

/-- Replacing an allocation keeps what a member owns exactly when the lock is stored with as
many cents as the stakes, and no number of such replacements adds to any account. -/
theorem reallocation_neutral (nonneg : StakesNonneg db) :
    (∀ env marketId memberId allocation rationale,
      (serve env (.putAllocation marketId memberId allocation rationale) db).result = .ok () →
      (accountOn (serve env (.putAllocation marketId memberId allocation rationale) db).db marketId
          memberId = accountOn db marketId memberId ↔ StoresWhole allocation)) ∧
      ∀ events : List Event, (∀ event ∈ events, event.ReallocatesWhole) → ∀ memberId,
        account (stateAfter db events) memberId = account db memberId ∧
          getBalance (stateAfter db events) memberId ≤ account db memberId := by
  constructor
  · intro env marketId memberId allocation rationale accepted
    rcases serve_cases env (.putAllocation marketId memberId allocation rationale) db with
      ⟨_, exc, failed⟩ | ⟨_, writes, committed, applied⟩
    · rw [accepted] at failed
      cases failed
    · rw [(committed.accounts nonneg applied).1, add_eq_left, div_eq_zero_iff,
        or_iff_left (by norm_num), Int.cast_eq_zero, sub_eq_zero, eq_comm, StoresWhole]
  · intro events whole memberId
    have kept : AccountsKept db (stateAfter db events) :=
      run_invariant (fun s => s.event.ReallocatesWhole) ⟨nonneg, fun _ => rfl⟩
        (fun _ stored held => held.serve stored) events
        fun s member => whole s.event (stepsFrom_event member)
    have stakes : 0 ≤ memberStakes (stateAfter db events) memberId :=
      staked_nonneg fun bet member => kept.nonneg bet (List.mem_filter.mp member).1
    have total := kept.same memberId
    refine ⟨total, ?_⟩
    rw [← total, account]
    linarith

theorem reallocation_neutral_cents :
    accountOn (serve desk (.putAllocation 1 1 ⟨[(.buy, 1005 / 10), (.sell, 50)], by decide⟩ none)
        (stateAfter Db.empty openedMarket)).db 1 1 =
      accountOn (stateAfter Db.empty openedMarket) 1 1 :=
  ((reallocation_neutral (stakesNonneg_stateAfter stakesNonneg_empty openedMarket)).1 desk 1 1
    ⟨[(.buy, 1005 / 10), (.sell, 50)], by decide⟩ none (by decide +kernel)).mpr (by decide +kernel)

/-- Two stakes of 1.005 points, which are stored as 1.01 each and locked as 2.01. -/
def halfCents : Event :=
  .request desk (.putAllocation 1 1 ⟨[(.buy, 1005 / 1000), (.sell, 1005 / 1000)], by decide⟩ none)

/-- Every submission of the half cents is accepted and worth a cent. -/
theorem halfCents_grow :
    (∀ s ∈ stepsFrom Db.empty (openedMarket ++ [halfCents, halfCents]), s.served.result = .ok ()) ∧
      accountOn (stateAfter Db.empty openedMarket) 1 1 = 1000 ∧
      accountOn (stateAfter Db.empty (openedMarket ++ [halfCents])) 1 1 = 100001 / 100 ∧
      getBalance (stateAfter Db.empty (openedMarket ++ [halfCents])) 1 = 99799 / 100 ∧
      getBalance (stateAfter Db.empty (openedMarket ++ [halfCents, halfCents])) 1 = 998 := by
  decide +kernel

end Runs

end FundPolymarket
