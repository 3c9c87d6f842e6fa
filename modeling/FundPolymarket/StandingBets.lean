import FundPolymarket.Reallocation
import FundPolymarket.Runs
import FundPolymarket.Views

set_option autoImplicit false

/- The table of the bets is a map of last writes: whatever else happens, a member stands on a
market by the last allocation that was accepted, and that is what the member sees. -/
namespace FundPolymarket

section Placed

/-- The rows of an allocation, before anybody is paid. -/
def placedBets (marketId memberId : ℕ) (allocation : Allocation) (rationale : Option String) :
    List Bet :=
  (allocation.cleaned.mapM (newBet marketId memberId rationale)).toOption.getD []

variable (marketId memberId : ℕ)

/-- What a request that returns makes the member's bets on the market to be. -/
def Request.places? : Request → Option (List Bet)
  | .putAllocation market owner allocation rationale =>
      if market = marketId ∧ owner = memberId then
        some (placedBets marketId memberId allocation rationale)
      else none
  | _ => none

def Step.placed? (s : Step) : Option (List Bet) :=
  match s.event with
  | .request _ asked =>
      if s.served.result.isOk = true then asked.places? marketId memberId else none
  | .tick _ _ _ _ _ => none

/-- The bets of the last allocation of a run that was accepted. -/
def lastPlaced (steps : List Step) : List Bet :=
  (steps.filterMap (Step.placed? marketId memberId)).getLast?.getD []

/-- The member's bets on the market, without the payouts. -/
def standingBets (db : Db) : List Bet := (ownBets db marketId memberId).map Bet.core

end Placed

section Steps

variable {env : Env} {db next : Db} {request : Request} {writes : List Write}
  {marketId memberId : ℕ}

theorem standingBets_of_core
    (core : next.bets.contents.map Bet.core = db.bets.contents.map Bet.core) :
    standingBets marketId memberId next = standingBets marketId memberId db := by
  have through : ∀ state : Db, standingBets marketId memberId state =
      (state.bets.contents.map Bet.core).filter fun bet =>
        bet.marketId = marketId ∧ bet.memberId = memberId := by
    intro state
    rw [standingBets, ownBets, List.filter_map]
    rfl
  rw [through, through, core]

/-- An allocation replaces the bets of its member on its market, and no others. -/
theorem standingBets_allocated {market owner : ℕ} {allocation : Allocation}
    {rationale : Option String} {bets : List Bet}
    (staked : allocation.cleaned.mapM (newBet market owner rationale) = .ok bets)
    (rows : next.bets.contents = (db.bets.contents.filter fun bet =>
      !decide (bet.marketId = market ∧ bet.memberId = owner)) ++ bets) :
    standingBets marketId memberId next =
      if market = marketId ∧ owner = memberId then bets else standingBets marketId memberId db := by
  have news : ∀ bet ∈ bets, bet.marketId = market ∧ bet.memberId = owner ∧ bet.core = bet := by
    intro bet member
    obtain ⟨entry, _, placed⟩ := forall₂_exists_left (mapM_forall₂ staked) member
    obtain ⟨stake, _, rest⟩ := bind_eq_ok.mp placed
    obtain ⟨_, _, same⟩ := bind_eq_ok.mp rest
    cases same
    exact ⟨rfl, rfl, rfl⟩
  rw [standingBets, ownBets, rows, List.filter_append, List.filter_filter]
  split
  · rename_i own
    obtain ⟨rfl, rfl⟩ := own
    have old : db.bets.contents.filter (fun bet =>
        decide (bet.marketId = market ∧ bet.memberId = owner) &&
          !decide (bet.marketId = market ∧ bet.memberId = owner)) = [] :=
      List.filter_eq_nil_iff.mpr fun bet _ => by simp
    have all : bets.filter (fun bet => bet.marketId = market ∧ bet.memberId = owner) = bets :=
      List.filter_eq_self.mpr fun bet member =>
        decide_eq_true ⟨(news bet member).1, (news bet member).2.1⟩
    rw [old, all, List.nil_append, List.map_congr_left fun bet member => (news bet member).2.2,
      List.map_id']
  · rename_i other
    have none : bets.filter (fun bet => bet.marketId = marketId ∧ bet.memberId = memberId) =
        [] := by
      refine List.filter_eq_nil_iff.mpr fun bet member => ?_
      rw [(news bet member).1, (news bet member).2.1]
      simpa using other
    have same : db.bets.contents.filter (fun bet =>
        decide (bet.marketId = marketId ∧ bet.memberId = memberId) &&
          !decide (bet.marketId = market ∧ bet.memberId = owner)) =
        db.bets.contents.filter fun bet =>
          bet.marketId = marketId ∧ bet.memberId = memberId := by
      refine List.filter_congr fun bet _ => ?_
      by_cases own : bet.marketId = marketId ∧ bet.memberId = memberId
      · obtain ⟨rfl, rfl⟩ := own
        have apart : ¬ (bet.marketId = market ∧ bet.memberId = owner) :=
          fun same => other ⟨same.1.symm, same.2.symm⟩
        simp only [apart, decide_false, decide_true, Bool.not_false, and_self, Bool.and_true]
      · simp [own]
    rw [none, same, List.append_nil]
    rfl

/-- What a request that returns does to the standing of a member. -/
theorem Commits.standing (committed : Commits env db request writes)
    (applied : applyWrites db writes = .ok next) :
    standingBets marketId memberId next =
      (request.places? marketId memberId).getD (standingBets marketId memberId db) := by
  cases request with
  | putAllocation market owner allocation rationale =>
      cases committed with
      | putAllocation _ _ _ staked _ =>
          rw [standingBets_allocated staked (allocation_bets applied), Request.places?]
          split
          · rename_i own
            obtain ⟨rfl, rfl⟩ := own
            rw [placedBets, staked]
            rfl
          · rfl
  | _ =>
      cases committed.bets applied with
      | same core => exact standingBets_of_core core

end Steps

section Run

variable {marketId memberId : ℕ}

/-- The requests of the scheduler are no allocations. -/
theorem places?_scheduled {request : Request} (scheduled : request.scheduled = true) :
    request.places? marketId memberId = none := by
  cases request with
  | putAllocation => cases scheduled
  | _ => rfl

theorem Committed.standing {env : Env} {request : Request} {db next : Db}
    (committed : Committed env request db next) :
    standingBets marketId memberId next =
      (request.places? marketId memberId).getD (standingBets marketId memberId db) := by
  obtain ⟨writes, commits, applied⟩ := committed.commits
  exact commits.standing applied

/-- A step makes the standing what it places, or leaves it. -/
theorem Step.standing (s : Step) :
    standingBets marketId memberId s.post =
      (s.placed? marketId memberId).getD (standingBets marketId memberId s.pre) := by
  obtain ⟨event, pre⟩ := s
  cases event with
  | request env asked =>
      rcases serve_cases env asked pre with ⟨same, exc, raised⟩ | ⟨returned, _⟩
      · have idle : (Step.served ⟨.request env asked, pre⟩).result = .error exc := raised
        rw [Step.placed?, idle]
        exact congrArg (standingBets marketId memberId) same
      · have ends : (Step.served ⟨.request env asked, pre⟩).result = .ok () := returned
        rw [Step.placed?, ends]
        exact (Committed.mk returned rfl).standing
  | tick settings now broker closing resolving =>
      refine @tick_induction settings now broker pre (fun next =>
        standingBets marketId memberId next = standingBets marketId memberId pre) closing resolving
        rfl ?_
      intro call request before next scheduled committed held
      rw [committed.standing, places?_scheduled scheduled]
      exact held

/-- The bets that a market lists of a member are those of the last allocation that was accepted,
whatever other members, admins, ticks and payouts there have been. -/
theorem standingBets_run (marketId memberId : ℕ) (events : List Event) :
    standingBets marketId memberId (stateAfter Db.empty events) =
      lastPlaced marketId memberId (stepsFrom Db.empty events) := by
  refine @run_induction (fun steps db => standingBets marketId memberId db =
    lastPlaced marketId memberId steps) Db.empty rfl ?_ events
  intro steps db event held
  have step := @Step.standing marketId memberId ⟨event, db⟩
  rw [lastPlaced, List.filterMap_append]
  cases placed : Step.placed? marketId memberId ⟨event, db⟩ with
  | none =>
      rw [List.filterMap_cons_none placed, List.filterMap_nil, List.append_nil]
      rw [placed] at step
      exact step.trans held
  | some bets =>
      rw [List.filterMap_cons_some placed, List.filterMap_nil, List.getLast?_concat]
      rw [placed] at step
      exact step

end Run

section Views

variable {db : Db} {marketId memberId : ℕ} {body : MarketDetailOut}

theorem own_of_betsOf (db : Db) (marketId memberId : ℕ) :
    ((db.betsOf marketId).filter fun row => row.2.memberId = memberId) =
      existingBets db marketId memberId := by
  rw [Db.betsOf, existingBets, Table.select, Table.select, List.filter_filter]
  refine List.filter_congr fun row _ => ?_
  simp only [Bool.decide_and, Bool.and_comm]

/-- What a member is shown of the own bets. -/
structure OwnShown (marketId memberId : ℕ) (body : MarketDetailOut) (bets : List Bet) : Prop where
  allocation : body.myAllocation = bets.map fun bet => (bet.outcome, bet.stake.val)
  rows : ((body.bets.filter fun row => row.memberId = memberId).map fun row =>
    (row.outcome, row.stake, row.rationale)) =
      bets.map fun bet => (bet.outcome, bet.stake, bet.rationale)

/-- The detail of a market shows a member the standing bets, before and after the close. -/
theorem ownShown_of_getMarket (shown : Api.getMarket db memberId marketId = .ok body) :
    OwnShown marketId memberId body (standingBets marketId memberId db) := by
  obtain ⟨market, _, rest⟩ := bind_eq_ok.mp shown
  obtain ⟨consensus, _, same⟩ := bind_eq_ok.mp rest
  cases same
  have values : standingBets marketId memberId db =
      (existingBets db marketId memberId).map fun row => row.2.core := by
    rw [standingBets, ← existingBets_values, List.map_map]
    rfl
  constructor
  · show ((db.betsOf marketId).filter fun row => row.2.memberId = memberId).map _ = _
    rw [own_of_betsOf, values, List.map_map]
    rfl
  · have filtered : ∀ rows : List (ℕ × Bet), ((rows.map BetOut.ofRow).filter fun row =>
        row.memberId = memberId) = (rows.filter fun row => row.2.memberId = memberId).map
          BetOut.ofRow := by
      intro rows
      rw [List.filter_map]
      rfl
    have visible : (if market.status ≠ .open then db.betsOf marketId
        else (db.betsOf marketId).filter fun row => row.2.memberId = memberId).filter
          (fun row => row.2.memberId = memberId) = existingBets db marketId memberId := by
      rw [← own_of_betsOf]
      split
      · rfl
      · rw [List.filter_filter]
        simp only [Bool.and_self]
    dsimp only
    rw [filtered, visible, values, List.map_map, List.map_map]
    rfl

/-- Whenever a member looks at a market, in any run and at any stage of the market, the own
allocation and the own rows are those of the member's last allocation that was accepted. -/
theorem members_see_last_allocation {events : List Event}
    (shown : Api.getMarket (stateAfter Db.empty events) memberId marketId = .ok body) :
    OwnShown marketId memberId body (lastPlaced marketId memberId (stepsFrom Db.empty events)) := by
  rw [← standingBets_run]
  exact ownShown_of_getMarket shown

end Views

/-- The stake moves from BUY to SELL, a second allocation is refused, and the market is closed. -/
def movedStake : List Event :=
  openedMarket ++
    [.request desk (.putAllocation 1 1 ⟨[(.sell, 60)], List.nodup_singleton _⟩ none),
      .request desk (.putAllocation 1 1 ⟨[(.buy, 501)], List.nodup_singleton _⟩ none),
      .request desk (.closeMarket 1)]

theorem members_see_last_allocation_moved :
    ∃ body, Api.getMarket (stateAfter Db.empty movedStake) 1 1 = .ok body ∧
      OwnShown 1 1 body (lastPlaced 1 1 (stepsFrom Db.empty movedStake)) ∧
      body.myAllocation = [(.sell, 60)] := by
  have answered : (Api.getMarket (stateAfter Db.empty movedStake) 1 1).toOption.map
      MarketDetailOut.myAllocation = some [(.sell, 60)] := by decide +kernel
  cases shown : Api.getMarket (stateAfter Db.empty movedStake) 1 1 with
  | error exc =>
      rw [shown] at answered
      cases answered
  | ok body =>
      rw [shown] at answered
      exact ⟨body, rfl, members_see_last_allocation shown, Option.some.inj answered⟩

end FundPolymarket
