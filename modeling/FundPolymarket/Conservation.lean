import FundPolymarket.Escrow
import FundPolymarket.Returns

set_option autoImplicit false

/- Points are conserved: the ledger, the bets and the rake of a run make up the books
of an escrow, and every committed request is one of its operations, or none. -/
namespace FundPolymarket

open Decimal (Scaled)
open Escrow (Book Lot Op)

section Trace

/-- The market whose points a step gives back. -/
def Step.givesBack (step : Step) : Option ℕ :=
  match step.event, step.served.result with
  | .request _ request, .ok _ => request.closes
  | _, _ => none

/-- The markets whose points have been given back, one entry for every time. -/
def givenBack (steps : List Step) : List ℕ := steps.filterMap Step.givesBack

/-- The rake that a step withholds. -/
def Step.withheld (step : Step) : ℚ :=
  match step.event, step.served.result with
  | .request env request, .ok _ => request.rake env step.pre
  | _, _ => 0

end Trace

/-- The initial grants. -/
def grants (db : Db) : ℚ :=
  amounts (db.ledger.contents.filter fun entry => entry.entryType = .initialGrant)

def Bet.lot (bet : Bet) : Lot ℕ ℕ ℚ := ⟨bet.marketId, bet.memberId, bet.stake.val⟩

/-- The books of a run: a bet is a lot until the points of its market are given back. -/
def bookOf (steps : List Step) (db : Db) : Book ℕ ℕ ℚ where
  free := amounts db.ledger.contents
  lots := (db.bets.contents.map Bet.lot).filter fun lot => lot.key ∉ givenBack steps
  kept := (steps.map Step.withheld).sum
  granted := grants db

/-- Only markets that have been given back have paid anything. -/
def ReturnsGiven (steps : List Step) (db : Db) : Prop :=
  ∀ entry ∈ db.ledger.contents, entry.isReturn = true →
    ∃ marketId ∈ givenBack steps, entry.marketId = some marketId

/-- The books and what keeps them: a market is given back when it becomes terminal, and
only then does it pay anything. -/
structure Booked (steps : List Step) (db : Db) : Prop where
  stakes : StakesNonneg db
  terminal : ∀ marketId, marketId ∈ givenBack steps ↔
    ∃ row, db.markets.get? marketId = some row ∧ row.status.terminal = true
  once : (givenBack steps).Nodup
  returned : ReturnsGiven steps db
  balanced : (bookOf steps db).Balanced
  bounded : ∀ marketId, returnedTo db marketId ≤ marketPool db marketId

/-- Allocations in whole cents, no approval of a pending decision on a market that is
settled or cancelled, and pools that the decimal context can divide to the cent. -/
def PointsAllowed (_env : Env) (request : Request) (db : Db) : Prop :=
  match request with
  | .putAllocation _ _ allocation _ => ∀ entry ∈ allocation.entries, Scaled 2 entry.2
  | .approveDecision decisionId _ =>
      ∀ decision ∈ db.decisions.get? decisionId, decision.status = .pendingApproval →
        ∀ market ∈ db.markets.get? decision.marketId, market.status.terminal = false
  | .settleMarket marketId | .cancelMarket marketId _ => marketPool db marketId < 10 ^ 24
  | _ => True

instance (env : Env) (request : Request) (db : Db) : Decidable (PointsAllowed env request db) :=
  match request with
  | .putAllocation _ _ allocation _ =>
      inferInstanceAs (Decidable (∀ entry ∈ allocation.entries, Scaled 2 entry.2))
  | .approveDecision decisionId _ =>
      inferInstanceAs (Decidable (∀ decision ∈ db.decisions.get? decisionId,
        decision.status = .pendingApproval →
          ∀ market ∈ db.markets.get? decision.marketId, market.status.terminal = false))
  | .settleMarket marketId => inferInstanceAs (Decidable (marketPool db marketId < 10 ^ 24))
  | .cancelMarket marketId _ => inferInstanceAs (Decidable (marketPool db marketId < 10 ^ 24))
  | .createMember _ | .createFund _ _ _ | .createMarket _ _ | .closeMarket _
  | .createDecision _ | .rejectDecision _ _ _ | .resolveMarket _ | .syncFund _ => .isTrue trivial

theorem PointsAllowed.pool_lt {env : Env} {request : Request} {db : Db} {marketId : ℕ}
    (allowed : PointsAllowed env request db) (closes : request.closes = some marketId) :
    marketPool db marketId < 10 ^ 24 := by
  cases request with
  | settleMarket | cancelMarket =>
      cases closes
      exact allowed
  | _ => cases closes

section Sums

variable {db next : Db}

theorem ledger_sums {entries : List LedgerEntry}
    (ledger : next.ledger.contents = db.ledger.contents ++ entries) :
    amounts next.ledger.contents = amounts db.ledger.contents + amounts entries ∧
      grants next = grants db +
        amounts (entries.filter fun entry => entry.entryType = .initialGrant) := by
  refine ⟨by rw [ledger, amounts_append], ?_⟩
  rw [grants, grants, ledger, List.filter_append, amounts_append]

/-- The stakes on a market are the total of its lots. -/
theorem staked_market (bets : List Bet) (marketId : ℕ) :
    staked (bets.filter fun bet => bet.marketId = marketId) =
      Escrow.total ((bets.map Bet.lot).filter fun lot => lot.key = marketId) := by
  rw [staked, Escrow.total, List.filter_map, List.map_map]
  rfl

theorem lots_of_core {bets : List Bet}
    (core : bets.map Bet.core = db.bets.contents.map Bet.core) :
    bets.map Bet.lot = db.bets.contents.map Bet.lot := by
  have through : Bet.lot = Bet.lot ∘ Bet.core := rfl
  rw [through, ← List.map_map, core, List.map_map]

end Sums

section Terminal

variable {env : Env} {db next : Db} {request : Request} {writes : List Write}

/-- Only a settlement or a cancellation makes a market terminal, and none becomes
active again. -/
theorem Commits.terminal_iff (committed : Commits env db request writes)
    (applied : applyWrites db writes = .ok next) (allowed : PointsAllowed env request db)
    (marketId : ℕ) :
    (∃ row, next.markets.get? marketId = some row ∧ row.status.terminal = true) ↔
      (∃ row, db.markets.get? marketId = some row ∧ row.status.terminal = true) ∨
        request.closes = some marketId := by
  have after := committed.markets applied
  constructor
  · rintro ⟨later, found, terminal⟩
    rcases after.origin found with ⟨_, isOpen, _⟩ | ⟨row, before, same | change⟩
    · rw [isOpen] at terminal
      cases terminal
    · exact .inl ⟨row, before, same ▸ terminal⟩
    · cases change with
      | close | decide | execute | resolve => cases terminal
      | settle | cancel => exact .inr rfl
  · rintro (⟨row, before, terminal⟩ | closes)
    · obtain ⟨later, found, same | change⟩ := after.kept before
      · exact ⟨later, found, same ▸ terminal⟩
      · have active : row.status.terminal = false := by
          cases change with
          | close isOpen => rw [isOpen]; rfl
          | decide isClosed => rw [isClosed]; rfl
          | execute executed =>
              exact allowed _ executed.found (prepareOrder_eq_ok executed.prepared_eq).pending _
                before
          | resolve between => rcases between with status | status | status <;> rw [status] <;> rfl
          | settle isResolved => rw [isResolved]; rfl
          | cancel notSettled notCancelled =>
              cases status : row.status <;> first | rfl | contradiction
        rw [active] at terminal
        cases terminal
    · exact committed.closes_terminal applied closes

end Terminal

section Refinement

variable {env : Env} {db next : Db} {request : Request} {writes : List Write} {steps : List Step}

theorem givenBack_append (steps : List Step) (step : Step) :
    givenBack (steps ++ [step]) = givenBack steps ++ step.givesBack.toList := by
  rw [givenBack, List.filterMap_append]
  cases closes : step.givesBack <;> simp [givenBack, closes]

theorem givenBack_same (steps : List Step) {step : Step} (none : step.givesBack = none) :
    givenBack (steps ++ [step]) = givenBack steps := by
  rw [givenBack_append, none]
  exact List.append_nil _

theorem Step.givesBack_of_ok {step : Step} (event : step.event = .request env request)
    (returned : step.served.result = .ok ()) : step.givesBack = request.closes := by
  rw [Step.givesBack, event, returned]

theorem Step.withheld_of_ok {step : Step} (event : step.event = .request env request)
    (returned : step.served.result = .ok ()) : step.withheld = request.rake env step.pre := by
  rw [Step.withheld, event, returned]

theorem Request.rake_of_closes_none (none : request.closes = none) : request.rake env db = 0 := by
  cases request with
  | settleMarket => cases none
  | _ => rfl

/-- Requests that move no points leave the books as they are. -/
theorem bookOf_same {step : Step} (none : step.givesBack = none) (nothing : step.withheld = 0)
    (ledger : next.ledger.contents = db.ledger.contents)
    (core : next.bets.contents.map Bet.core = db.bets.contents.map Bet.core) :
    bookOf (steps ++ [step]) next = bookOf steps db := by
  have given := givenBack_same steps none
  refine Book.ext ?_ ?_ ?_ ?_
  · exact congrArg amounts ledger
  · simp only [bookOf, given, lots_of_core core]
  · simp [bookOf, nothing]
  · simp only [bookOf, grants, ledger]

theorem bookOf_grant {step : Step} {entry : LedgerEntry} (none : step.givesBack = none)
    (nothing : step.withheld = 0) (grant : entry.entryType = .initialGrant)
    (ledger : next.ledger.contents = db.ledger.contents ++ [entry])
    (core : next.bets.contents.map Bet.core = db.bets.contents.map Bet.core) :
    bookOf (steps ++ [step]) next = (bookOf steps db).apply (.grant entry.amount.val) := by
  have given := givenBack_same steps none
  obtain ⟨free, granted⟩ := ledger_sums ledger
  refine Book.ext ?_ ?_ ?_ ?_
  · simp [bookOf, Book.apply, free]
  · simp only [bookOf, Book.apply, given, lots_of_core core]
  · simp [bookOf, Book.apply, nothing]
  · simp [bookOf, Book.apply, granted, grant]

/-- An allocation relocks the lots of one member on a market that is still open. -/
theorem bookOf_relock {step : Step} {marketId memberId : ℕ} {allocation : Allocation}
    {entries : List LedgerEntry} {bets : List Bet} (none : step.givesBack = none)
    (nothing : step.withheld = 0) (active : marketId ∉ givenBack steps)
    (cents : ∀ entry ∈ allocation.cleaned, Scaled 2 entry.2)
    (reallocated : Reallocated db marketId memberId allocation next entries bets) :
    bookOf (steps ++ [step]) next =
      (bookOf steps db).apply (.relock marketId memberId (bets.map Bet.lot)) := by
  have given := givenBack_same steps none
  obtain ⟨free, granted⟩ := ledger_sums reallocated.ledger
  have own : Escrow.total ((bookOf steps db).ofOwner marketId memberId) =
      staked (ownBets db marketId memberId) := by
    rw [Book.ofOwner, bookOf, List.filter_filter, Escrow.total, ownBets, staked, List.filter_map,
      List.map_map]
    have same : ∀ bet : Bet, ((fun lot : Lot ℕ ℕ ℚ => decide (lot.key = marketId ∧
        lot.owner = memberId) && decide (lot.key ∉ givenBack steps)) ∘ Bet.lot) bet =
          decide (bet.marketId = marketId ∧ bet.memberId = memberId) := by
      intro bet
      by_cases market : bet.marketId = marketId
      · by_cases owner : bet.memberId = memberId
        · simp [Bet.lot, market, owner, active]
        · simp [Bet.lot, owner]
      · simp [Bet.lot, market]
    rw [List.filter_congr fun bet _ => same bet]
    rfl
  have news : Escrow.total (bets.map Bet.lot) = staked bets := by
    rw [Escrow.total, staked, List.map_map]
    rfl
  have noGrant : (entries.filter fun entry => entry.entryType = .initialGrant) = [] := by
    refine filter_absent_nil fun entry member => ?_
    rcases (reallocated.own entry member).2.2 with kind | kind <;> simp [kind]
  refine Book.ext ?_ ?_ ?_ ?_
  · have balanced := reallocated.balanced cents
    simp only [Book.apply, own, news]
    simp only [bookOf, free]
    linarith
  · have kept : ((bets.map Bet.lot).filter fun lot => lot.key ∉ givenBack steps) =
        bets.map Bet.lot := by
      apply List.filter_eq_self.mpr
      intro lot member
      obtain ⟨bet, betMember, rfl⟩ := List.mem_map.mp member
      simpa [Bet.lot, (reallocated.news bet betMember).1] using active
    simp only [bookOf, Book.apply, given, reallocated.bets_eq, List.map_append, List.filter_append,
      kept, List.filter_filter, List.filter_map]
    congr 2
    apply List.filter_congr
    intro bet _
    exact Bool.and_comm _ _
  · simp [bookOf, Book.apply, nothing]
  · simp only [bookOf, Book.apply, granted, noGrant, amounts_nil, add_zero]

/-- A settlement or cancellation gives back the lots of its market. -/
theorem bookOf_giveBack {step : Step} {marketId : ℕ} {entries : List LedgerEntry}
    (closes : step.givesBack = some marketId) (active : marketId ∉ givenBack steps)
    (paid : amounts entries + step.withheld = marketPool db marketId)
    (returns : ∀ entry ∈ entries, entry.isReturn = true)
    (ledger : next.ledger.contents = db.ledger.contents ++ entries)
    (core : next.bets.contents.map Bet.core = db.bets.contents.map Bet.core) :
    bookOf (steps ++ [step]) next =
      (bookOf steps db).apply (.giveBack marketId step.withheld) := by
  have given : givenBack (steps ++ [step]) = givenBack steps ++ [marketId] := by
    rw [givenBack_append, closes]
    rfl
  obtain ⟨free, granted⟩ := ledger_sums ledger
  have locked : Escrow.total ((bookOf steps db).ofKey marketId) = marketPool db marketId := by
    rw [Book.ofKey, bookOf, List.filter_filter, marketPool, staked_market]
    congr 1
    apply List.filter_congr
    intro lot _
    by_cases mine : lot.key = marketId
    · simp [mine, active]
    · simp [mine]
  have noGrant : (entries.filter fun entry => entry.entryType = .initialGrant) = [] := by
    refine filter_absent_nil fun entry member => ?_
    have kind := returns entry member
    simp only [LedgerEntry.isReturn, decide_eq_true_eq] at kind
    rcases kind with kind | kind <;> simp [kind]
  refine Book.ext ?_ ?_ ?_ ?_
  · simp only [Book.apply, locked]
    simp only [bookOf, free]
    linarith
  · simp only [bookOf, Book.apply, given, lots_of_core core, List.filter_filter]
    apply List.filter_congr
    intro lot _
    simp [Bool.and_comm, not_or]
  · simp [bookOf, Book.apply]
  · simp only [bookOf, Book.apply, granted, noGrant, amounts_nil, add_zero]

end Refinement

section Returns

variable {env : Env} {db next : Db} {request : Request} {writes : List Write} {steps : List Step}

theorem ReturnsGiven.unpaid (returned : ReturnsGiven steps db) {marketId : ℕ}
    (active : marketId ∉ givenBack steps) : Unpaid db marketId := by
  intro entry member isReturn market
  obtain ⟨closed, given, sameMarket⟩ := returned entry member isReturn
  rw [market] at sameMarket
  cases sameMarket
  exact active given

namespace Booked

theorem not_given (booked : Booked steps db) {marketId : ℕ}
    (active : ∀ row, db.markets.get? marketId = some row → row.status.terminal = false) :
    marketId ∉ givenBack steps := by
  intro given
  obtain ⟨row, found, terminal⟩ := (booked.terminal marketId).mp given
  rw [active row found] at terminal
  cases terminal

theorem unpaid (booked : Booked steps db) {marketId : ℕ} (active : marketId ∉ givenBack steps) :
    Unpaid db marketId := booked.returned.unpaid active

end Booked

end Returns

section Run

variable {env : Env} {db next : Db} {request : Request} {writes : List Write} {steps : List Step}
  {step : Step}

theorem Commits.follows (committed : Commits env db request writes)
    (booked : Booked steps db) (allowed : PointsAllowed env request db)
    (applied : applyWrites db writes = .ok next) (gives : step.givesBack = request.closes)
    (withholds : step.withheld = request.rake env db) :
    (bookOf steps db).Follows (bookOf (steps ++ [step]) next) := by
  have idle : request.closes = none → .ledger ∉ request.tables → .bets ∉ request.tables →
      (bookOf steps db).Follows (bookOf (steps ++ [step]) next) := by
    intro none noLedger noBets
    have ledger : next.ledger = db.ledger := committed.frame applied .ledger noLedger
    have bets : next.bets.toTable = db.bets.toTable := committed.frame applied .bets noBets
    have same : bookOf (steps ++ [step]) next = bookOf steps db :=
      bookOf_same (gives.trans none) (withholds.trans (Request.rake_of_closes_none none))
        (by rw [ledger]) (by rw [bets])
    rw [same]
    exact .same
  have back : ∀ marketId, request.closes = some marketId →
      (∀ marketId memberId allocation rationale,
        request ≠ .putAllocation marketId memberId allocation rationale) →
      (bookOf steps db).Follows (bookOf (steps ++ [step]) next) := by
    intro marketId closes notAllocation
    have active := booked.not_given (committed.closes_active closes)
    have small : marketPool db marketId < 10 ^ 24 := allowed.pool_lt closes
    have paid := (committed.gives_back booked.stakes (booked.unpaid active) small closes).1
    rw [bookOf_giveBack (gives.trans closes) active (withholds ▸ paid)
      (fun entry member => ((committed.returns entry member).2 marketId closes).1)
      (applyWrites_ledger applied) ((committed.bets applied).core notAllocation)]
    exact .applied _
  cases committed with
  | createFund | createMarket | closeMarket | createDecision | approveDecision | rejectDecision
  | resolveMarket | syncFund => exact idle rfl (by simp [Request.tables]) (by simp [Request.tables])
  | createMember granted =>
      have bets := applyWrites_frame applied .bets (by simp [Write.table])
      rw [bookOf_grant (gives.trans rfl) (withholds.trans (Request.rake_of_closes_none rfl))
        (record_eq_ok granted).entryType_eq (applyWrites_ledger applied)
        (congrArg (fun rows : Table Bet => rows.contents.map Bet.core) bets)]
      exact .applied _
  | @putAllocation marketId memberId allocation rationale market refund bets lock found checked
      refunded staked locked =>
      have reallocated := Reallocated.of_rows booked.stakes refunded staked locked applied
      have active : marketId ∉ givenBack steps := booked.not_given fun row before => by
        rw [found] at before
        cases before
        rw [(checkAllocation_eq_ok checked).isOpen]
        rfl
      rw [bookOf_relock (gives.trans rfl) (withholds.trans (Request.rake_of_closes_none rfl)) active
        (fun entry member => allowed entry (List.mem_filter.mp member).1) reallocated]
      exact .applied _
  | settleMarket => exact back _ rfl (by simp)
  | cancelMarket => exact back _ rfl (by simp)

/-- No market gives back more than its pool. -/
theorem Commits.bounded (committed : Commits env db request writes)
    (booked : Booked steps db) (allowed : PointsAllowed env request db)
    (applied : applyWrites db writes = .ok next) {marketId : ℕ}
    (given : marketId ∈ givenBack steps ∨ request.closes = some marketId) :
    returnedTo next marketId ≤ marketPool next marketId := by
  by_cases closes : request.closes = some marketId
  · have active := booked.not_given (committed.closes_active closes)
    exact committed.pays_pool applied booked.stakes (booked.unpaid active)
      (allowed.pool_lt closes) closes
  · have before : marketId ∈ givenBack steps := given.resolve_right closes
    have notAllocated : ∀ allocated memberId allocation rationale,
        request = .putAllocation allocated memberId allocation rationale →
          allocated ≠ marketId := by
      rintro allocated memberId allocation rationale rfl rfl
      obtain ⟨market, before, terminal⟩ := (booked.terminal allocated).mp before
      cases committed with
      | putAllocation found checked =>
          rw [found] at before
          cases before
          rw [(checkAllocation_eq_ok checked).isOpen] at terminal
          cases terminal
    have pool : marketPool next marketId = marketPool db marketId :=
      (committed.bets applied).pool notAllocated
    rw [committed.returnedTo_same applied closes, pool]
    exact booked.bounded marketId

/-- A committed request keeps the books. -/
theorem Commits.booked (committed : Commits env db request writes)
    (booked : Booked steps db) (allowed : PointsAllowed env request db)
    (applied : applyWrites db writes = .ok next) (gives : step.givesBack = request.closes)
    (withholds : step.withheld = request.rake env db) : Booked (steps ++ [step]) next := by
  have given : ∀ marketId, marketId ∈ givenBack (steps ++ [step]) ↔
      marketId ∈ givenBack steps ∨ request.closes = some marketId := by
    intro marketId
    rw [givenBack_append, gives, List.mem_append, Option.mem_toList]
  have ledger := applyWrites_ledger applied
  have stakes : StakesNonneg next := (committed.bets applied).nonneg booked.stakes
  have back : ReturnsGiven (steps ++ [step]) next := by
    intro entry member isReturn
    rw [ledger] at member
    rcases List.mem_append.mp member with old | new
    · obtain ⟨marketId, before, market⟩ := booked.returned entry old isReturn
      exact ⟨marketId, (given marketId).mpr (.inl before), market⟩
    · obtain ⟨marketId, closes, market⟩ := (committed.returns entry new).1 isReturn
      exact ⟨marketId, (given marketId).mpr (.inr closes), market⟩
  refine ⟨stakes, fun marketId => ?_, ?_, back,
    booked.balanced.follows (committed.follows booked allowed applied gives withholds),
    fun marketId => ?_⟩
  · rw [given, booked.terminal, committed.terminal_iff applied allowed]
  · rw [givenBack_append, gives]
    refine booked.once.append (by cases request.closes <;> simp) ?_
    intro marketId before closes
    exact booked.not_given (committed.closes_active (Option.mem_toList.mp closes)) before
  · by_cases after : marketId ∈ givenBack (steps ++ [step])
    · exact committed.bounded booked allowed applied ((given marketId).mp after)
    · rw [(back.unpaid after).returnedTo_zero]
      exact marketPool_nonneg stakes marketId

theorem Booked.refused (booked : Booked steps db) {exc : AppError}
    (failed : step.served.result = .error exc) : Booked (steps ++ [step]) db := by
  have given : givenBack (steps ++ [step]) = givenBack steps := by
    apply givenBack_same
    rw [Step.givesBack, failed]
    cases step.event <;> rfl
  have nothing : step.withheld = 0 := by
    rw [Step.withheld, failed]
    split <;> first | rfl | contradiction
  have books : bookOf (steps ++ [step]) db = bookOf steps db := by
    simp only [bookOf, given, List.map_append, List.map_cons, List.map_nil, List.sum_append,
      List.sum_singleton, nothing, add_zero]
  refine ⟨booked.stakes, fun marketId => given ▸ booked.terminal marketId, given ▸ booked.once,
    ?_, books ▸ booked.balanced, booked.bounded⟩
  rw [ReturnsGiven, given]
  exact booked.returned

theorem Booked.serve (booked : Booked steps db)
    (allowed : PointsAllowed env request db) :
    Booked (steps ++ [⟨.request env request, db⟩]) (serve env request db).db := by
  rcases serve_cases env request db with
    ⟨same, exc, failed⟩ | ⟨returned, writes, committed, applied⟩
  · rw [same]
    exact booked.refused failed
  · exact committed.booked booked allowed applied (Step.givesBack_of_ok rfl returned)
      (Step.withheld_of_ok rfl returned)

end Run

/-- Conservation of points: free points, the stakes of the markets that have not been
given back, and the rake are the initial grants. No market pays twice, or more than its
pool. -/
structure PointsConserved (steps : List Step) (db : Db) : Prop where
  total : amounts db.ledger.contents +
      staked (db.bets.contents.filter fun bet => bet.marketId ∉ givenBack steps) +
      (steps.map Step.withheld).sum = grants db
  once : (givenBack steps).Nodup
  bounded : ∀ marketId, returnedTo db marketId ≤ marketPool db marketId

theorem Booked.conserved {steps : List Step} {db : Db} (booked : Booked steps db) :
    PointsConserved steps db := by
  refine ⟨?_, booked.once, booked.bounded⟩
  have balanced := booked.balanced
  have locked : Escrow.total (bookOf steps db).lots =
      staked (db.bets.contents.filter fun bet => bet.marketId ∉ givenBack steps) := by
    rw [bookOf, Escrow.total, staked, List.filter_map, List.map_map]
    rfl
  rw [Book.Balanced, locked] at balanced
  exact balanced

theorem booked_empty : Booked [] Db.empty where
  stakes := by simp [StakesNonneg, Db.empty, UniqueTable.empty]
  terminal := by simp [givenBack, Db.empty]
  once := List.nodup_nil
  returned := by simp [ReturnsGiven, Db.empty]
  balanced := by
    rw [Book.Balanced]
    decide +kernel
  bounded := fun _ => le_refl (0 : ℚ)

def Event.isRequest : Event → Bool
  | .request _ _ => true
  | .tick _ _ _ _ _ => false

/-- Sequential requests that are allowed conserve the points. -/
theorem points_conserved (events : List Event) (sequential : ∀ event ∈ events, event.isRequest)
    (allowed : ∀ s ∈ stepsFrom Db.empty events, s.Meets PointsAllowed) :
    PointsConserved (stepsFrom Db.empty events) (stateAfter Db.empty events) := by
  suffices booked : (∀ s ∈ stepsFrom Db.empty events,
      s.event.isRequest = true ∧ s.Meets PointsAllowed) →
        Booked (stepsFrom Db.empty events) (stateAfter Db.empty events) from
    (booked fun s member => ⟨sequential _ (stepsFrom_event member), allowed s member⟩).conserved
  refine run_induction (motive := fun steps db =>
    (∀ s ∈ steps, s.event.isRequest = true ∧ s.Meets PointsAllowed) → Booked steps db)
    (fun _ => booked_empty) ?_ events
  intro steps db event ih conditions
  have booked := ih fun s member => conditions s (List.mem_append_left _ member)
  obtain ⟨isRequest, meets⟩ := conditions ⟨event, db⟩ (by simp)
  cases event with
  | tick => cases isRequest
  | request env request => exact booked.serve meets

/-- The decision is approved in time, and the market is resolved and settled. -/
def settledInTime : List Event :=
  pendingDecision ++ [.request desk (.approveDecision 1 1), .request desk (.resolveMarket 1),
    .request desk (.settleMarket 1)]

theorem points_conserved_settled :
    PointsConserved (stepsFrom Db.empty settledInTime) (stateAfter Db.empty settledInTime) :=
  points_conserved settledInTime (by decide) (by decide +kernel)

/-- The market is cancelled, its decision is approved all the same, and the market is
resolved and settled. -/
def settledAfterCancel : List Event :=
  pendingDecision ++ [.request desk (.cancelMarket 1 "void"),
    .request desk (.approveDecision 1 1), .request desk (.resolveMarket 1),
    .request desk (.settleMarket 1)]

/-- The one stake of 100 comes back twice. -/
theorem points_not_conserved_late_approval :
    ¬ PointsConserved (stepsFrom Db.empty settledAfterCancel)
      (stateAfter Db.empty settledAfterCancel) := by
  intro conserved
  have returned : returnedTo (stateAfter Db.empty settledAfterCancel) 1 = 200 := by decide +kernel
  have pool : marketPool (stateAfter Db.empty settledAfterCancel) 1 = 100 := by decide +kernel
  have bounded := conserved.bounded 1
  rw [returned, pool] at bounded
  norm_num at bounded

end FundPolymarket
