import FundPolymarket.Jobs
import FundPolymarket.Solvency

set_option autoImplicit false

/- Allocations of one member that overlap. The balance and the old stakes are read
first; the refund, the deletions and the lock come later. -/
namespace FundPolymarket

open Decimal (Scaled)
open Interleaving (Act Along Flight Moves World run)

/-- An allocation of the member, in whole cents. -/
def Job.allocates (memberId : ℕ) : Job → Prop
  | .request _ (.putAllocation _ owner allocation _) =>
      owner = memberId ∧ ∀ entry ∈ allocation.entries, Scaled 2 entry.2
  | _ => False

instance (memberId : ℕ) (job : Job) : Decidable (job.allocates memberId) := by
  unfold Job.allocates
  split <;> infer_instance

/-- The checks of `place_allocation`. -/
def Job.affordable (db : Db) : Job → Bool
  | .request env (.putAllocation marketId memberId allocation _) =>
      match db.markets.get? marketId with
      | some market =>
          (checkAllocation env.settings db marketId market memberId allocation
            env.now).toOption.isSome
      | none => false
  | _ => false

/-- The bets that an allocation replaces are those it has read, and they and the balance
still cover it. -/
def Job.UpToDate (seen now : Db) : Job → Prop
  | .request _ (.putAllocation marketId memberId allocation _) =>
      existingBets seen marketId memberId = existingBets now marketId memberId ∧
        Covers now marketId memberId allocation
  | _ => True

instance (seen now : Db) (job : Job) : Decidable (job.UpToDate seen now) := by
  unfold Job.UpToDate Covers
  split <;> infer_instance

/-- Acts of allocations of one member. -/
def AllocatesOnly (memberId : ℕ) : Act Job → Prop
  | .start job => job.allocates memberId
  | .send _ | .commit _ => True

instance (memberId : ℕ) (act : Act Job) : Decidable (AllocatesOnly memberId act) :=
  match act with
  | .start job => inferInstanceAs (Decidable (job.allocates memberId))
  | .send _ | .commit _ => .isTrue trivial

/-- An allocation that has passed its checks commits while it is up to date. -/
def AllocatesInTime (world : World Db Job OrderRequest) : Act Job → Prop
  | .commit index => ∀ flight ∈ world.flights[index]?, flight.stage = .sent →
      flight.request.affordable flight.seen = true →
        flight.request.UpToDate flight.seen world.shared
  | .start _ | .send _ => True

instance (world : World Db Job OrderRequest) (act : Act Job) :
    Decidable (AllocatesInTime world act) :=
  match act with
  | .commit index => inferInstanceAs (Decidable (∀ flight ∈ world.flights[index]?,
      flight.stage = .sent → flight.request.affordable flight.seen = true →
        flight.request.UpToDate flight.seen world.shared))
  | .start _ | .send _ => .isTrue trivial

/-- The member has as many points as before, and no debt. -/
structure PointsKept (memberId : ℕ) (db now : Db) : Prop where
  total : getBalance now memberId + memberStakes now memberId =
    getBalance db memberId + memberStakes db memberId
  covered : 0 ≤ getBalance now memberId

section Commit

variable {env : Env} {seen now next : Db} {marketId memberId : ℕ} {allocation : Allocation}
  {rationale : Option String} {writes : List Write}

theorem Commits.affordable
    (committed : Commits env seen (.putAllocation marketId memberId allocation rationale) writes) :
    (Job.request env (.putAllocation marketId memberId allocation rationale)).affordable seen =
      true := by
  cases committed with
  | putAllocation found checked => simp [Job.affordable, found, checked, Except.toOption]

/-- An allocation that replaces the bets it has read writes what it would write now. -/
theorem Commits.reallocated_now
    (committed : Commits env seen (.putAllocation marketId memberId allocation rationale) writes)
    (nonneg : StakesNonneg now) (applied : applyWrites now writes = .ok next)
    (existing : existingBets seen marketId memberId = existingBets now marketId memberId) :
    ∃ entries bets, Reallocated now marketId memberId allocation next entries bets := by
  have previous : previousTotal seen marketId memberId = previousTotal now marketId memberId := by
    rw [previousTotal, previousTotal, existing]
  cases committed with
  | putAllocation found checked refunded staked locked =>
      rw [previousRefund, previous] at refunded
      rw [existing] at applied
      exact ⟨_, _, .of_rows nonneg refunded staked locked applied⟩

end Commit

section Runs

variable {memberId : ℕ} {db : Db} {world next : World Db Job OrderRequest} {act : Act Job}

/-- Only the member's allocations are under way, and the points are kept. -/
structure AllocationsKept (memberId : ℕ) (db : Db) (world : World Db Job OrderRequest) : Prop where
  stakes : StakesNonneg world.shared
  kept : PointsKept memberId db world.shared
  flights : ∀ flight ∈ world.flights, flight.request.allocates memberId

theorem AllocationsKept.commit {flight : Flight Db Job} (held : AllocationsKept memberId db world)
    (member : flight ∈ world.flights)
    (inTime : flight.request.affordable flight.seen = true →
      flight.request.UpToDate flight.seen world.shared)
    {now : Db} (commits : now = jobs.commit flight.request flight.seen world.shared) :
    StakesNonneg now ∧ PointsKept memberId db now := by
  have allocates := held.flights flight member
  obtain ⟨job, seen, stage⟩ := flight
  rcases commit_cases job seen world.shared with same | ⟨returned, applied⟩
  · have unchanged : now = world.shared := commits.trans same
    rw [unchanged]
    exact ⟨held.stakes, held.kept⟩
  · cases job with
    | closeAndDecide => cases allocates
    | request env asked =>
        cases asked with
        | putAllocation marketId owner allocation rationale =>
            obtain ⟨mine, cents⟩ := allocates
            subst mine
            have committed := handle_commits returned
            obtain ⟨existing, covers⟩ := inTime committed.affordable
            obtain ⟨entries, bets, reallocated⟩ :=
              committed.reallocated_now held.stakes
                (applied.trans (congrArg Except.ok commits.symm)) existing
            refine ⟨reallocated.nonneg held.stakes, ?_, ?_⟩
            · rw [reallocated.conserves cents]
              exact held.kept.total
            · rw [reallocated.balance]
              exact reallocated.covered covers held.kept.covered
        | _ => cases allocates

theorem AllocationsKept.moves (held : AllocationsKept memberId db world)
    (moves : Moves jobs world act next) (inTime : AllocatesInTime world act)
    (only : AllocatesOnly memberId act) : AllocationsKept memberId db next := by
  have flights : ∀ flight ∈ next.flights, flight.request.allocates memberId := by
    refine moves.forall_flights (P := fun job _ => job.allocates memberId) held.flights ?_
    rintro job rfl
    exact only
  cases moves with
  | idle => exact held
  | start | send => exact ⟨held.stakes, held.kept, flights⟩
  | @commit index flight found stage =>
      obtain ⟨stakes, kept⟩ :=
        held.commit (List.mem_of_getElem? found) (inTime flight found stage) rfl
      exact ⟨stakes, kept, flights⟩

end Runs

/-- However allocations of a member overlap: as long as none commits on stale reads, they
neither create points nor leave a debt. -/
theorem allocations_keep_points {memberId : ℕ} {db : Db} (solvent : 0 ≤ getBalance db memberId)
    (nonneg : StakesNonneg db) (acts : List (Act Job))
    (only : ∀ act ∈ acts, AllocatesOnly memberId act)
    (inTime : Along jobs AllocatesInTime (World.quiet db) acts) :
    PointsKept memberId db (run jobs (World.quiet db) acts).shared := by
  have init : AllocationsKept memberId db (World.quiet db) := by
    refine ⟨nonneg, ⟨rfl, solvent⟩, fun flight member => ?_⟩
    cases member
  exact (Interleaving.run_invariant (fun world act next allowed moves held =>
    AllocationsKept.moves held moves allowed.1 allowed.2) init
    (inTime.and (.of_forall _ only))).kept

/-- The stake of 100 is replaced by one of 50. -/
def restake (outcome : Outcome) : Job :=
  .request desk (.putAllocation 1 1 ⟨[(outcome, 50)], by simp⟩ none)

theorem allocations_keep_points_serial :
    PointsKept 1 (stateAfter Db.empty openedMarket)
      (run jobs (World.quiet (stateAfter Db.empty openedMarket))
        (Interleaving.serial 0 [restake .sell, restake .hold])).shared :=
  allocations_keep_points (by decide +kernel) (by unfold StakesNonneg; decide +kernel) _
    (by decide +kernel) (by decide +kernel)

/-- Two allocations refund the same stake of 100. -/
theorem allocations_create_points_overlapping :
    ¬ PointsKept 1 (stateAfter Db.empty openedMarket)
      (run jobs (World.quiet (stateAfter Db.empty openedMarket))
        (overlapping (restake .sell) (restake .hold))).shared := by
  intro kept
  have total := kept.total
  revert total
  decide +kernel

end FundPolymarket
