import FundPolymarket.Jobs
import FundPolymarket.Snapshot

set_option autoImplicit false

/- Allocations that overlap with the close of their market, its decision and its
settlement. That a market is OPEN is checked when an allocation reads, and the close
writes another row than the bets. -/
namespace FundPolymarket

open Interleaving (Act Along Flight Moves World run)

/-- The market of an allocation, or of a request that takes a market from OPEN to
SETTLED. -/
def Request.plays : Request → Option ℕ
  | .putAllocation marketId _ _ _ | .closeMarket marketId | .createDecision marketId
  | .resolveMarket marketId | .settleMarket marketId => some marketId
  | _ => none

def Job.plays : Job → Option ℕ
  | .request _ asked => asked.plays
  | .closeAndDecide _ _ _ marketId => some marketId

/-- The job raises nothing on the state that it reads. -/
def Job.goesThrough (seen : Db) (job : Job) : Bool := (job.handle seen).result.toOption.isSome

/-- An allocation finds the market still OPEN, and a visit that closes it finds the bets
that it has read. -/
def Job.BeforeClose (seen now : Db) : Job → Prop
  | .request _ (.putAllocation marketId _ _ _) =>
      ∃ market ∈ now.markets.get? marketId, market.status = .open
  | .request _ _ => True
  | .closeAndDecide _ _ _ marketId => marketBets seen marketId = marketBets now marketId

instance (seen now : Db) (job : Job) : Decidable (job.BeforeClose seen now) :=
  match job with
  | .request _ (.putAllocation marketId _ _ _) => inferInstanceAs (Decidable
      (∃ market ∈ now.markets.get? marketId, market.status = .open))
  | .closeAndDecide _ _ _ marketId => inferInstanceAs (Decidable
      (marketBets seen marketId = marketBets now marketId))
  | .request _ (.createMember _) | .request _ (.createFund _ _ _) | .request _ (.createMarket _ _)
  | .request _ (.closeMarket _) | .request _ (.createDecision _)
  | .request _ (.approveDecision _ _) | .request _ (.rejectDecision _ _ _)
  | .request _ (.resolveMarket _) | .request _ (.settleMarket _) | .request _ (.cancelMarket _ _)
  | .request _ (.syncFund _) => .isTrue trivial

def PlaysOnly (marketId : ℕ) : Act Job → Prop
  | .start job => job.plays = some marketId
  | .send _ | .commit _ => True

instance (marketId : ℕ) (act : Act Job) : Decidable (PlaysOnly marketId act) :=
  match act with
  | .start job => inferInstanceAs (Decidable (job.plays = some marketId))
  | .send _ | .commit _ => .isTrue trivial

/-- No bet is written, and no close decided on, across the close of the market. -/
def FreezesInTime (world : World Db Job OrderRequest) : Act Job → Prop
  | .commit index => ∀ flight ∈ world.flights[index]?, flight.stage = .sent →
      flight.request.goesThrough flight.seen = true →
        flight.request.BeforeClose flight.seen world.shared
  | .start _ | .send _ => True

instance (world : World Db Job OrderRequest) (act : Act Job) :
    Decidable (FreezesInTime world act) :=
  match act with
  | .commit index => inferInstanceAs (Decidable (∀ flight ∈ world.flights[index]?,
      flight.stage = .sent → flight.request.goesThrough flight.seen = true →
        flight.request.BeforeClose flight.seen world.shared))
  | .start _ | .send _ => .isTrue trivial

def LeftOpen (marketId : ℕ) (db : Db) : Prop :=
  ∃ row ∈ db.markets.get? marketId, row.status ≠ .open

instance (marketId : ℕ) (db : Db) : Decidable (LeftOpen marketId db) :=
  inferInstanceAs (Decidable (∃ row ∈ db.markets.get? marketId, row.status ≠ .open))

/-- The decisions on the market come after its close, and judge the bets that it has. -/
def DecidedAtClose (marketId : ℕ) (db : Db) : Prop :=
  ∀ judgement ∈ judgements db, judgement.marketId = marketId →
    LeftOpen marketId db ∧ judgement.Current db

/-- So it is after every run in which nothing overlaps. -/
theorem Snapshots.decidedAtClose {db : Db} (snapshots : Snapshots db) (marketId : ℕ) :
    DecidedAtClose marketId db := by
  intro judgement member mine
  obtain ⟨row, found, left⟩ := snapshots.left judgement member
  exact ⟨⟨row, mine ▸ found, left⟩, snapshots.current judgement member⟩

/-- What a market that had left OPEN in an early state has kept: its bets, in every
decision on it and in every settlement of it. -/
structure FrozenSince (marketId : ℕ) (early : Db) (late : World Db Job OrderRequest) : Prop where
  bets : marketBets late.shared marketId = marketBets early marketId
  decided : ∀ judgement ∈ judgements late.shared, judgement.marketId = marketId →
    judgement.Current early
  settled : ∀ flight ∈ late.flights, ∀ env, flight.request = .request env (.settleMarket marketId) →
    flight.request.goesThrough flight.seen = true →
    loadStakes flight.seen marketId = loadStakes early marketId

/-- Between two committed states the market does not go away, and once it has left OPEN
it does not return and keeps its bets. -/
structure BetsKept (marketId : ℕ) (early late : Db) : Prop where
  listed : (early.markets.get? marketId).isSome = true → (late.markets.get? marketId).isSome = true
  frozen : LeftOpen marketId early →
    LeftOpen marketId late ∧ marketBets late marketId = marketBets early marketId

namespace BetsKept

variable {marketId : ℕ} {early middle late : Db}

theorem refl (marketId : ℕ) (db : Db) : BetsKept marketId db db := ⟨id, fun left => ⟨left, rfl⟩⟩

theorem trans (first : BetsKept marketId early middle) (second : BetsKept marketId middle late) :
    BetsKept marketId early late := by
  refine ⟨second.listed ∘ first.listed, fun left => ?_⟩
  obtain ⟨middleLeft, middleBets⟩ := first.frozen left
  obtain ⟨lateLeft, lateBets⟩ := second.frozen middleLeft
  exact ⟨lateLeft, lateBets.trans middleBets⟩

end BetsKept

theorem LeftOpen.listed {marketId : ℕ} {db : Db} (left : LeftOpen marketId db) :
    (db.markets.get? marketId).isSome = true := by
  obtain ⟨row, found, _⟩ := left
  rw [Option.mem_def.mp found]
  rfl

section Commit

variable {env : Env} {marketId : ℕ} {seen now next : Db} {asked : Request} {writes : List Write}

theorem leftOpen_update {set : Market → Market} (leaves : ∀ row, (set row).status ≠ .open)
    (markets : next.markets = now.markets.update marketId set)
    (listed : (now.markets.get? marketId).isSome = true) : LeftOpen marketId next := by
  obtain ⟨row, found⟩ := Option.isSome_iff_exists.mp listed
  refine ⟨set row, ?_, leaves row⟩
  rw [markets, Table.get?_update, if_pos rfl, found]
  rfl

/-- What a request does to the market that commits on what it has seen. -/
inductive Plays (marketId : ℕ) (seen now next : Db) : Request → Prop where
  | stakes {memberId : ℕ} {allocation : Allocation} {rationale : Option String}
      (markets : next.markets = now.markets) (decisions : next.decisions = now.decisions) :
      Plays marketId seen now next (.putAllocation marketId memberId allocation rationale)
  | moves {asked : Request} (found : (seen.markets.get? marketId).isSome = true)
      (bets : marketBets next marketId = marketBets now marketId)
      (leaves : (now.markets.get? marketId).isSome = true → LeftOpen marketId next)
      (decisions : next.decisions = now.decisions) : Plays marketId seen now next asked
  | decides {decision : TradeDecision} (left : LeftOpen marketId seen)
      (bets : marketBets next marketId = marketBets now marketId)
      (leaves : (now.markets.get? marketId).isSome = true → LeftOpen marketId next)
      (current : decision.judgement.Current seen) (mine : decision.marketId = marketId)
      (decisions : next.decisions = now.decisions.insert decision) :
      Plays marketId seen now next (.createDecision marketId)

theorem marketBets_of_core (same : next.bets.contents.map Bet.core = now.bets.contents.map Bet.core)
    (marketId : ℕ) : marketBets next marketId = marketBets now marketId := by
  rw [marketBets, marketBets, same]

theorem Commits.plays (committed : Commits env seen asked writes)
    (applied : applyWrites now writes = .ok next) (plays : asked.plays = some marketId) :
    Plays marketId seen now next asked := by
  have bets : .bets ∉ asked.tables → marketBets next marketId = marketBets now marketId := by
    intro untouched
    have same : next.bets.toTable = now.bets.toTable :=
      committed.frame applied .bets untouched
    rw [marketBets, marketBets, same]
  have decisions : .decisions ∉ asked.tables → next.decisions = now.decisions :=
    committed.frame applied .decisions
  have markets : .markets ∉ asked.tables → next.markets = now.markets :=
    committed.frame applied .markets
  cases committed with
  | putAllocation =>
      cases plays
      exact .stakes (markets (by simp [Request.tables])) (decisions (by simp [Request.tables]))
  | closeMarket found =>
      cases plays
      exact .moves (by simp [found]) (bets (by simp [Request.tables]))
        (leftOpen_update (by simp [Market.close]) (applyWrites_updateMarket_only applied))
        (decisions (by simp [Request.tables]))
  | createDecision found isClosed fresh built =>
      cases plays
      exact .decides ⟨_, found, by simp [isClosed]⟩ (bets (by simp [Request.tables]))
        (leftOpen_update (by simp [Market.decide]) (applyWrites_table applied .markets))
        built.current built.marketId_eq (applyWrites_table applied .decisions)
  | resolveMarket found =>
      cases plays
      exact .moves (by simp [found]) (bets (by simp [Request.tables]))
        (leftOpen_update (by simp [Market.resolve]) (applyWrites_updateMarket_only applied))
        (decisions (by simp [Request.tables]))
  | settleMarket found =>
      cases plays
      have shown := congrArg (fun rows => rows.contents.map Bet.core) (settlement_bets applied)
      exact .moves (by simp [found])
        (marketBets_of_core (shown.trans (core_showPayouts _ _)) marketId)
        (leftOpen_update (by simp [Market.settle]) (applyWrites_settlement applied))
        (decisions (by simp [Request.tables]))
  | _ => cases plays

theorem Plays.kept (plays : Plays marketId seen now next asked)
    (since : BetsKept marketId seen now) (decided : DecidedAtClose marketId now)
    (beforeClose : ∀ memberId allocation rationale,
      asked = .putAllocation marketId memberId allocation rationale → ¬ LeftOpen marketId now) :
    BetsKept marketId now next ∧ DecidedAtClose marketId next := by
  -- A decision of the current state stands in the next one: its market has left OPEN,
  -- and no bet has been written.
  have stands : (LeftOpen marketId now → LeftOpen marketId next ∧
      marketBets next marketId = marketBets now marketId) →
      ∀ judgement ∈ judgements now, judgement.marketId = marketId →
        LeftOpen marketId next ∧ judgement.Current next := by
    intro frozen judgement member mine
    obtain ⟨left, current⟩ := decided judgement member mine
    obtain ⟨nextLeft, bets⟩ := frozen left
    exact ⟨nextLeft, current.of_bets (mine ▸ bets)⟩
  cases plays with
  | stakes markets decisions =>
      have still := beforeClose _ _ _ rfl
      have frozen : LeftOpen marketId now → LeftOpen marketId next ∧
          marketBets next marketId = marketBets now marketId := fun left => absurd left still
      refine ⟨⟨fun listed => by rwa [markets], frozen⟩, ?_⟩
      rw [DecidedAtClose, judgements, decisions]
      exact stands frozen
  | moves _ bets leaves decisions =>
      have frozen := fun left : LeftOpen marketId now =>
        (⟨leaves left.listed, bets⟩ : LeftOpen marketId next ∧ _)
      refine ⟨⟨fun listed => (leaves listed).listed, frozen⟩, ?_⟩
      rw [DecidedAtClose, judgements, decisions]
      exact stands frozen
  | decides seenLeft bets leaves current mine decisions =>
      have frozen := fun left : LeftOpen marketId now =>
        (⟨leaves left.listed, bets⟩ : LeftOpen marketId next ∧ _)
      refine ⟨⟨fun listed => (leaves listed).listed, frozen⟩, ?_⟩
      rw [DecidedAtClose, judgements, decisions, Table.contents_insert, List.map_append]
      intro judgement member own
      rcases List.mem_append.mp member with old | new
      · exact stands frozen judgement old own
      · rw [List.map_singleton, List.mem_singleton] at new
        subst new
        obtain ⟨nowLeft, sinceSeen⟩ := since.frozen seenLeft
        exact ⟨leaves nowLeft.listed, current.of_bets (own ▸ bets.trans sinceSeen)⟩

/-- A visit that finds the bets that it has read decides on the bets at its close. -/
theorem visit_kept {settings : Settings} {time : Time} {broker : TickCall → Broker}
    (success : closeAndDecideWrites settings time broker marketId seen = .ok writes)
    (applied : applyWrites now writes = .ok next) (since : BetsKept marketId seen now)
    (decided : DecidedAtClose marketId now)
    (same : marketBets seen marketId = marketBets now marketId) :
    BetsKept marketId now next ∧ DecidedAtClose marketId next := by
  obtain ⟨closing, closed, building, rfl, closes, seenApplied, builds⟩ :=
    closeAndDecideWrites_commits success
  rw [applyWrites_append] at applied
  obtain ⟨middle, closingApplied, buildingApplied⟩ := bind_eq_ok.mp applied
  have closesSeen : Plays marketId seen seen closed (.closeMarket marketId) :=
    closes.plays seenApplied rfl
  have closesNow : Plays marketId seen now middle (.closeMarket marketId) :=
    closes.plays closingApplied rfl
  obtain ⟨first, firstDecided⟩ := closesNow.kept since decided (by simp)
  have closedMiddle : BetsKept marketId closed middle := by
    cases closesNow with
    | moves found bets leaves _ =>
        cases closesSeen with
        | moves _ seenBets _ _ =>
            exact ⟨fun _ => first.listed (since.listed found),
              fun _ => ⟨leaves (since.listed found),
                bets.trans (same.symm.trans seenBets.symm)⟩⟩
  obtain ⟨second, nextDecided⟩ :=
    (builds.plays buildingApplied rfl).kept closedMiddle firstDecided (by simp)
  exact ⟨first.trans second, nextDecided⟩

theorem commit_kept {job : Job} (plays : job.plays = some marketId)
    (since : BetsKept marketId seen now) (decided : DecidedAtClose marketId now)
    (inTime : job.goesThrough seen = true → job.BeforeClose seen now) :
    BetsKept marketId now (jobs.commit job seen now) ∧
      DecidedAtClose marketId (jobs.commit job seen now) := by
  rcases commit_cases job seen now with same | ⟨returned, applied⟩
  · rw [same]
    exact ⟨.refl marketId now, decided⟩
  · have beforeClose := inTime (by rw [Job.goesThrough, returned]; rfl)
    cases job with
    | closeAndDecide settings time broker id =>
        cases plays
        exact visit_kept (Handled.ofService_ok returned) applied since decided beforeClose
    | request env asked =>
        refine ((handle_commits returned).plays applied plays).kept since decided ?_
        rintro memberId allocation rationale rfl ⟨row, found, left⟩
        obtain ⟨market, openFound, isOpen⟩ := beforeClose
        rw [Option.mem_def.mp openFound] at found
        cases found
        exact left isOpen

end Commit

section Runs

variable {marketId : ℕ} {early : Db} {world next : World Db Job OrderRequest} {act : Act Job}

/-- The bets are kept since an early state, and since the state that each flight has seen. -/
structure Freezes (marketId : ℕ) (early : Db) (world : World Db Job OrderRequest) : Prop where
  since : BetsKept marketId early world.shared
  decided : DecidedAtClose marketId world.shared
  flights : ∀ flight ∈ world.flights, flight.request.plays = some marketId ∧
    BetsKept marketId flight.seen world.shared

theorem Freezes.moves (freezes : Freezes marketId early world) (moves : Moves jobs world act next)
    (only : PlaysOnly marketId act) (inTime : FreezesInTime world act) :
    Freezes marketId early next := by
  have seen : BetsKept marketId world.shared next.shared →
      ∀ flight ∈ next.flights, flight.request.plays = some marketId ∧
        BetsKept marketId flight.seen next.shared := by
    intro step
    refine moves.forall_flights (P := fun job seen =>
      job.plays = some marketId ∧ BetsKept marketId seen next.shared) ?_ ?_
    · intro flight member
      obtain ⟨plays, since⟩ := freezes.flights flight member
      exact ⟨plays, since.trans step⟩
    · rintro job rfl
      exact ⟨only, step⟩
  cases moves with
  | idle => exact freezes
  | start | send => exact ⟨freezes.since, freezes.decided, seen (.refl _ _)⟩
  | @commit index flight found stage =>
      obtain ⟨plays, since⟩ := freezes.flights flight (List.mem_of_getElem? found)
      obtain ⟨step, decided⟩ :=
        commit_kept plays since freezes.decided (inTime flight found stage)
      exact ⟨freezes.since.trans step, decided, seen step⟩

theorem goesThrough_settle {env : Env} {seen : Db}
    (through : (Job.request env (.settleMarket marketId)).goesThrough seen = true) :
    LeftOpen marketId seen := by
  obtain ⟨done, returned⟩ := Option.isSome_iff_exists.mp through
  have committed := handle_commits (toOption_eq_some.mp returned)
  generalize (handle env seen (.settleMarket marketId)).flushed = writes at committed
  cases committed with
  | settleMarket found isResolved => exact ⟨_, found, by simp [isResolved]⟩

theorem Freezes.frozenSince (freezes : Freezes marketId early world)
    (left : LeftOpen marketId early) : FrozenSince marketId early world := by
  obtain ⟨_, bets⟩ := freezes.since.frozen left
  refine ⟨bets, ?_, ?_⟩
  · intro judgement member mine
    exact (freezes.decided judgement member mine).2.of_bets (mine ▸ bets.symm)
  · intro flight member env settles through
    obtain ⟨_, since⟩ := freezes.flights flight member
    rw [settles] at through
    obtain ⟨_, seenBets⟩ := since.frozen (goesThrough_settle through)
    rw [loadStakes_marketBets, loadStakes_marketBets, ← seenBets, bets]

end Runs

/-- However allocations, the close, the decision and the settlement of a market overlap:
as long as no allocation commits after the close, and no visit closes on other bets than
it has read, the bets are frozen at the close. -/
theorem bets_frozen {marketId : ℕ} {db : Db} (decided : DecidedAtClose marketId db)
    (before after : List (Act Job)) (only : ∀ act ∈ before ++ after, PlaysOnly marketId act)
    (inTime : Along jobs FreezesInTime (World.quiet db) (before ++ after))
    (left : LeftOpen marketId (run jobs (World.quiet db) before).shared) :
    FrozenSince marketId (run jobs (World.quiet db) before).shared
      (run jobs (World.quiet db) (before ++ after)) := by
  have init : Freezes marketId db (World.quiet db) :=
    ⟨.refl marketId db, decided, fun flight member => by cases member⟩
  have step : ∀ early (world : World Db Job OrderRequest) act next,
      FreezesInTime world act ∧ PlaysOnly marketId act → Moves jobs world act next →
      Freezes marketId early world → Freezes marketId early next :=
    fun _ _ _ _ allowed moves freezes => freezes.moves moves allowed.2 allowed.1
  obtain ⟨first, second⟩ := Along.append.mp (inTime.and (.of_forall _ only))
  have reached := Interleaving.run_invariant (step db) init first
  rw [Interleaving.run_append]
  refine (Interleaving.run_invariant (step _) ?_ second).frozenSince left
  exact ⟨.refl marketId _, reached.decided, reached.flights⟩

/-- The member moves 50 points to SELL. -/
def lateChange : Job := .request desk (.putAllocation 1 1 ⟨[(.sell, 50)], by simp⟩ none)

def deskClose : Job := .request desk (.closeMarket 1)

def visit : Job := .closeAndDecide desk.settings desk.now (fun _ => desk.broker) 1

/-- The allocation overlaps with the close, but commits first. -/
theorem bets_frozen_settled :
    FrozenSince 1
      (run jobs (World.quiet (stateAfter Db.empty openedMarket))
        (overlapping lateChange deskClose)).shared
      (run jobs (World.quiet (stateAfter Db.empty openedMarket))
        (overlapping lateChange deskClose ++ Interleaving.serial 2
          [.request desk (.createDecision 1), .request desk (.resolveMarket 1),
            .request desk (.settleMarket 1)])) :=
  bets_frozen ((run_kept snapshots_empty openedMarket).2.decidedAtClose 1) _ _ (by decide)
    (by decide +kernel) (by decide +kernel)

/-- The same allocation commits after the close. In another run it commits while a visit
is deciding on the bets that it replaces. -/
theorem bets_thawed_overlapping :
    (LeftOpen 1 (run jobs (World.quiet (stateAfter Db.empty openedMarket))
        [.start lateChange, .start deskClose, .send 0, .send 1, .commit 1]).shared ∧
      ¬ FrozenSince 1
        (run jobs (World.quiet (stateAfter Db.empty openedMarket))
          [.start lateChange, .start deskClose, .send 0, .send 1, .commit 1]).shared
        (run jobs (World.quiet (stateAfter Db.empty openedMarket))
          ([.start lateChange, .start deskClose, .send 0, .send 1, .commit 1] ++ [.commit 0]))) ∧
    (LeftOpen 1 (run jobs (World.quiet (stateAfter Db.empty openedMarket))
        (overlapping lateChange visit)).shared ∧
      ¬ FrozenSince 1
        (run jobs (World.quiet (stateAfter Db.empty openedMarket))
          (overlapping lateChange visit)).shared
        (run jobs (World.quiet (stateAfter Db.empty openedMarket))
          (overlapping lateChange visit))) := by
  refine ⟨⟨by decide +kernel, fun frozen => ?_⟩, ⟨by decide +kernel, fun frozen => ?_⟩⟩
  · have bets := frozen.bets
    revert bets
    decide +kernel
  · obtain ⟨judgement, member, mine, stake⟩ : ∃ judgement ∈
        judgements (run jobs (World.quiet (stateAfter Db.empty openedMarket))
          (overlapping lateChange visit)).shared,
        judgement.marketId = 1 ∧ judgement.totalStake.val = 100 := by
      decide +kernel
    obtain ⟨consensus, computed, total, _⟩ := frozen.decided judgement member mine
    have current : ((getConsensus (run jobs (World.quiet (stateAfter Db.empty openedMarket))
        (overlapping lateChange visit)).shared 1).toOption.map Consensus.totalStake) = some 50 := by
      decide +kernel
    rw [mine] at computed
    rw [computed] at current
    simp only [Except.toOption, Option.map_some, Option.some.injEq] at current
    rw [stake, current] at total
    norm_num at total

end FundPolymarket
