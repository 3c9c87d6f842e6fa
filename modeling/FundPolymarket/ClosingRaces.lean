import FundPolymarket.Jobs
import FundPolymarket.Returns

set_option autoImplicit false

/- Settlements and cancellations of one market that overlap. The status is checked when
a request reads, not when it commits. -/
namespace FundPolymarket

open Interleaving (Act Along Flight Moves World run)

def Job.closes : Job → Option ℕ
  | .request _ asked => asked.closes
  | .closeAndDecide _ _ _ _ => none

/-- The status check of `settle_market` and of `cancel_market`. -/
def Job.mayClose (db : Db) : Job → Bool
  | .request _ (.settleMarket marketId) =>
      (db.markets.get? marketId).any fun row => row.status = .resolved
  | .request _ (.cancelMarket marketId _) =>
      (db.markets.get? marketId).any fun row => row.status ≠ .settled ∧ row.status ≠ .cancelled
  | _ => false

/-- Acts of settlements and cancellations of one market. -/
def ClosesOnly (marketId : ℕ) : Act Job → Prop
  | .start job => job.closes = some marketId
  | .send _ | .commit _ => True

instance (marketId : ℕ) (act : Act Job) : Decidable (ClosesOnly marketId act) :=
  match act with
  | .start job => inferInstanceAs (Decidable (job.closes = some marketId))
  | .send _ | .commit _ => .isTrue trivial

/-- A request that has passed its status check still passes it when it commits. -/
def ClosesInTime (world : World Db Job OrderRequest) : Act Job → Prop
  | .commit index => ∀ flight ∈ world.flights[index]?, flight.stage = .sent →
      flight.request.mayClose flight.seen = true → flight.request.mayClose world.shared = true
  | .start _ | .send _ => True

instance (world : World Db Job OrderRequest) (act : Act Job) : Decidable (ClosesInTime world act) :=
  match act with
  | .commit index => inferInstanceAs (Decidable (∀ flight ∈ world.flights[index]?,
      flight.stage = .sent → flight.request.mayClose flight.seen = true →
        flight.request.mayClose world.shared = true))
  | .start _ | .send _ => .isTrue trivial

/-- Nobody gets points of the market back twice, and all of them together get at most
its pool. -/
structure PaidOnce (marketId : ℕ) (db : Db) : Prop where
  each : ∀ memberId, (db.ledger.contents.filter fun entry =>
    entry.isReturn ∧ entry.marketId = some marketId ∧ entry.memberId = memberId).length ≤ 1
  bounded : returnedTo db marketId ≤ marketPool db marketId

def Terminal (marketId : ℕ) (db : Db) : Prop :=
  ∃ row, db.markets.get? marketId = some row ∧ row.status.terminal = true

/-- The market has paid nothing, or it is closed and has paid once. -/
def PaidInOrder (marketId : ℕ) (db : Db) : Prop :=
  Unpaid db marketId ∨ Terminal marketId db ∧ PaidOnce marketId db

section Closing

variable {env : Env} {db next : Db} {asked : Request} {writes : List Write} {marketId : ℕ}

theorem Unpaid.paidOnce (unpaid : Unpaid db marketId) (nonneg : StakesNonneg db) :
    PaidOnce marketId db := by
  refine ⟨fun memberId => ?_, ?_⟩
  · rw [unpaid.filter_nil fun entry kept => ⟨(of_decide_eq_true kept).1,
      (of_decide_eq_true kept).2.1⟩]
    exact Nat.zero_le 1
  · rw [unpaid.returnedTo_zero]
    exact marketPool_nonneg nonneg marketId

theorem length_filter_le_of_nodup {entries : List LedgerEntry} {keep : LedgerEntry → Bool}
    (nodup : (entries.map LedgerEntry.memberId).Nodup) {memberId : ℕ}
    (own : ∀ entry, keep entry = true → entry.memberId = memberId) :
    (entries.filter keep).length ≤ 1 := by
  have counted := List.nodup_iff_count_le_one.mp nodup memberId
  rw [List.count, List.countP_map] at counted
  refine le_trans ?_ counted
  rw [← List.countP_eq_length_filter]
  exact List.countP_mono_left fun entry _ kept => by simp [own entry kept]

/-- One settlement or cancellation of an unpaid market pays everybody once. -/
theorem Commits.paidOnce (committed : Commits env db asked writes)
    (applied : applyWrites db writes = .ok next) (closes : asked.closes = some marketId)
    (nonneg : StakesNonneg db) (unpaid : Unpaid db marketId)
    (small : marketPool db marketId < 10 ^ 24) : PaidOnce marketId next := by
  refine ⟨fun memberId => ?_, committed.pays_pool applied nonneg unpaid small closes⟩
  have before := unpaid.filter_nil fun entry
    (kept : decide (entry.isReturn ∧ entry.marketId = some marketId ∧
      entry.memberId = memberId) = true) =>
    ⟨(of_decide_eq_true kept).1, (of_decide_eq_true kept).2.1⟩
  rw [applyWrites_ledger applied, List.filter_append, before, List.nil_append]
  exact length_filter_le_of_nodup (committed.gives_each_once nonneg small closes)
    fun entry kept => (of_decide_eq_true kept).2.2

theorem Commits.mayClose (committed : Commits env db asked writes)
    (closes : asked.closes = some marketId) : (Job.request env asked).mayClose db = true := by
  cases committed with
  | settleMarket found isResolved => simp [Job.mayClose, found, isResolved]
  | cancelMarket found notSettled notCancelled =>
      simp [Job.mayClose, found, notSettled, notCancelled]
  | _ => cases closes

theorem mayClose_active (closes : asked.closes = some marketId)
    (passes : (Job.request env asked).mayClose db = true) : ¬ Terminal marketId db := by
  rintro ⟨row, found, terminal⟩
  cases asked with
  | settleMarket id =>
      cases closes
      simp only [Job.mayClose, found, Option.any_some, decide_eq_true_eq] at passes
      rw [passes] at terminal
      cases terminal
  | cancelMarket id reason =>
      cases closes
      simp only [Job.mayClose, found, Option.any_some, decide_eq_true_eq] at passes
      cases status : row.status <;> rw [status] at terminal passes <;>
        first | exact absurd rfl passes.1 | exact absurd rfl passes.2 | cases terminal
  | _ => cases closes

end Closing

/-- Nothing has happened yet, or one request has closed the market. -/
structure ClosedOnce (marketId : ℕ) (db : Db) (world : World Db Job OrderRequest) : Prop where
  state : world.shared = db ∨ Terminal marketId world.shared ∧ PaidOnce marketId world.shared
  flights : ∀ flight ∈ world.flights, flight.request.closes = some marketId ∧
    (flight.seen = db ∨ Terminal marketId flight.seen)

section Runs

variable {marketId : ℕ} {db : Db} {world next : World Db Job OrderRequest} {act : Act Job}

theorem ClosedOnce.commit {flight : Flight Db Job} (closed : ClosedOnce marketId db world)
    (member : flight ∈ world.flights)
    (inTime : flight.request.mayClose flight.seen = true →
      flight.request.mayClose world.shared = true)
    (nonneg : StakesNonneg db) (inOrder : PaidInOrder marketId db)
    (small : marketPool db marketId < 10 ^ 24) :
    jobs.commit flight.request flight.seen world.shared = db ∨
      Terminal marketId (jobs.commit flight.request flight.seen world.shared) ∧
        PaidOnce marketId (jobs.commit flight.request flight.seen world.shared) := by
  obtain ⟨job, seen, stage⟩ := flight
  obtain ⟨closes, seenState⟩ := closed.flights _ member
  change jobs.commit job seen world.shared = db ∨ _
  rcases commit_cases job seen world.shared with same | ⟨returned, applied⟩
  · rw [same]
    exact closed.state
  · cases job with
    | closeAndDecide => cases closes
    | request env asked =>
        -- A request that commits has passed its check on the initial state, and so the
        -- market is still in that state.
        have committed := handle_commits returned
        have passed := committed.mayClose closes
        have active := mayClose_active closes passed
        have seenInitial := seenState.resolve_right active
        have sharedInitial := closed.state.resolve_right fun terminal =>
          mayClose_active closes (inTime passed) terminal.1
        change seen = db at seenInitial
        subst seenInitial
        have unpaid := inOrder.resolve_right fun terminal => active terminal.1
        rw [sharedInitial] at applied
        have commit : jobs.commit (.request env asked) seen world.shared =
            (endRequest seen (Job.handle seen (.request env asked))).db := by
          rw [sharedInitial]
          rfl
        rw [commit]
        exact .inr ⟨committed.closes_terminal applied closes,
          committed.paidOnce applied closes nonneg unpaid small⟩

theorem ClosedOnce.moves (closed : ClosedOnce marketId db world)
    (moves : Moves jobs world act next) (inTime : ClosesInTime world act)
    (only : ClosesOnly marketId act) (nonneg : StakesNonneg db)
    (inOrder : PaidInOrder marketId db) (small : marketPool db marketId < 10 ^ 24) :
    ClosedOnce marketId db next := by
  have flights : ∀ flight ∈ next.flights, flight.request.closes = some marketId ∧
      (flight.seen = db ∨ Terminal marketId flight.seen) := by
    refine moves.forall_flights (P := fun job seen =>
      job.closes = some marketId ∧ (seen = db ∨ Terminal marketId seen)) closed.flights ?_
    rintro job rfl
    exact ⟨only, closed.state.imp_right And.left⟩
  refine ⟨?_, flights⟩
  cases moves with
  | idle | start | send => exact closed.state
  | commit found stage =>
      exact closed.commit (List.mem_of_getElem? found) (inTime _ found stage) nonneg inOrder small

end Runs

/-- However settlements and cancellations of a market overlap: as long as none commits
after its status check has gone stale, everybody is paid once. -/
theorem closings_pay_once {marketId : ℕ} {db : Db} (nonneg : StakesNonneg db)
    (small : marketPool db marketId < 10 ^ 24) (inOrder : PaidInOrder marketId db)
    (acts : List (Act Job)) (only : ∀ act ∈ acts, ClosesOnly marketId act)
    (inTime : Along jobs ClosesInTime (World.quiet db) acts) :
    PaidOnce marketId (run jobs (World.quiet db) acts).shared := by
  have init : ClosedOnce marketId db (World.quiet db) := by
    refine ⟨.inl rfl, fun flight member => ?_⟩
    cases member
  have closed := Interleaving.run_invariant (fun world act next allowed moves closed =>
    ClosedOnce.moves closed moves allowed.1 allowed.2 nonneg inOrder small) init
    (inTime.and (.of_forall _ only))
  rcases closed.state with same | ⟨_, paid⟩
  · rw [same]
    exact inOrder.elim (fun unpaid => unpaid.paidOnce nonneg) And.right
  · exact paid

/-- A resolved market with one winner. -/
def resolvedMarket : List Event := pendingDecision ++ [.request desk (.resolveMarket 1)]

def settlement : Job := .request desk (.settleMarket 1)

theorem closings_pay_once_serial :
    PaidOnce 1 (run jobs (World.quiet (stateAfter Db.empty resolvedMarket))
      (Interleaving.serial 0 [settlement, settlement])).shared :=
  closings_pay_once (by unfold StakesNonneg; decide +kernel) (by decide +kernel)
    (.inl (by unfold Unpaid; decide +kernel)) _ (by decide) (by decide +kernel)

/-- Two settlements read the market while it is RESOLVED, and both pay the winner. -/
theorem closings_pay_twice_overlapping :
    ¬ PaidOnce 1 (run jobs (World.quiet (stateAfter Db.empty resolvedMarket))
      (overlapping settlement settlement)).shared := by
  intro paid
  have twice : ((run jobs (World.quiet (stateAfter Db.empty resolvedMarket))
      (overlapping settlement settlement)).shared.ledger.contents.filter fun entry =>
        entry.isReturn ∧ entry.marketId = some 1 ∧ entry.memberId = 1).length = 2 := by
    decide +kernel
  have once := paid.each 1
  rw [twice] at once
  omega

end FundPolymarket
