import FundPolymarket.Acceptance

set_option autoImplicit false

/- Allocations of one member on an open market, one after another. The last one that was
accepted counts, and what is accepted depends on what the member owns, which no call
changes. -/
namespace FundPolymarket

open Decimal (Scaled)

/-- One call of `place_allocation` by a member whose market is understood. -/
structure Call where
  env : Env
  allocation : Allocation
  rationale : Option String

/-- The rationale can be stored. -/
def Call.FreeRationale (call : Call) : Prop := ∀ text ∈ call.rationale, FreeText text

def Call.served (marketId memberId : ℕ) (call : Call) (db : Db) : Served :=
  serve call.env (.putAllocation marketId memberId call.allocation call.rationale) db

/-- A call before the market closes, under settings that stay, in whole cents. -/
structure Call.Timely (settings : Settings) (market : Market) (call : Call) : Prop where
  settings_eq : call.env.settings = settings
  inTime : call.env.now < market.closesAt
  cents : ∀ entry ∈ call.allocation.entries, Scaled 2 entry.2

/-- The call of the member on the market that a step is. -/
def Step.call? (marketId memberId : ℕ) (s : Step) : Option Call :=
  match s.event with
  | .request env (.putAllocation market owner allocation rationale) =>
      if market = marketId ∧ owner = memberId then some ⟨env, allocation, rationale⟩ else none
  | _ => none

/-- A step of somebody else: it leaves the market, and the member's account there. -/
structure Step.Apart (marketId memberId : ℕ) (s : Step) : Prop where
  notCall : s.call? marketId memberId = none
  market : s.post.markets.get? marketId = s.pre.markets.get? marketId
  bets : ownBets s.post marketId memberId = ownBets s.pre marketId memberId
  balance : getBalance s.post memberId = getBalance s.pre memberId

/-- The calls of a run that were accepted, in order. -/
def acceptedCalls (marketId memberId : ℕ) (steps : List Step) : List Call :=
  (steps.filter fun s => s.served.result.isOk).filterMap (Step.call? marketId memberId)

/-- A member's bets on a market, as an allocation lists them. -/
def heldStakes (db : Db) (marketId memberId : ℕ) : List (Outcome × ℚ) :=
  (ownBets db marketId memberId).map fun bet => (bet.outcome, bet.stake.val)

/-- No row changes but the member's bets on the market and the new entries for them. -/
structure OthersKept (marketId memberId : ℕ) (db next : Db) : Prop where
  tables : ∀ name, name ≠ .bets → name ≠ .ledger → next.table name = db.table name
  bets : (next.bets.rows.filter fun row =>
      !decide (row.2.marketId = marketId ∧ row.2.memberId = memberId)) =
    db.bets.rows.filter fun row =>
      !decide (row.2.marketId = marketId ∧ row.2.memberId = memberId)
  ledger : ∃ entries, next.ledger.contents = db.ledger.contents ++ entries ∧
    ∀ entry ∈ entries, entry.memberId = memberId ∧ entry.marketId = some marketId

section Effect

variable {env : Env} {db next : Db} {marketId memberId : ℕ} {allocation : Allocation}
  {rationale : Option String} {writes : List Write} {entries : List LedgerEntry} {bets : List Bet}

theorem staked_heldStakes (db : Db) (marketId memberId : ℕ) :
    staked (ownBets db marketId memberId) =
      ((heldStakes db marketId memberId).map Prod.snd).sum := by
  rw [heldStakes, List.map_map]
  rfl

theorem total_exactly (cents : ∀ entry ∈ allocation.entries, Scaled 2 entry.2)
    (storable : allocation.total < 10 ^ 16) :
    allocation.total = (allocation.cleaned.map Prod.snd).sum := by
  refine Decimal.sum_exact ?_ ?_ ?_
  · intro x listed
    obtain ⟨entry, member, rfl⟩ := List.mem_map.mp listed
    exact cents entry (List.mem_filter.mp member).1
  · intro x listed
    obtain ⟨entry, member, rfl⟩ := List.mem_map.mp listed
    exact (cleaned_pos member).le
  · refine sum_lt_of_short (by simpa using cleaned_length allocation) fun x listed => ?_
    obtain ⟨entry, member, rfl⟩ := List.mem_map.mp listed
    exact entry_lt_of_total storable member

theorem Commits.heldStakes (nonneg : StakesNonneg db)
    (committed : Commits env db (.putAllocation marketId memberId allocation rationale) writes)
    (applied : applyWrites db writes = .ok next)
    (cents : ∀ entry ∈ allocation.entries, Scaled 2 entry.2) :
    heldStakes next marketId memberId = allocation.cleaned := by
  cases committed with
  | putAllocation found checked refunded stakes locked =>
      have reallocated := Reallocated.of_rows nonneg refunded stakes locked applied
      have stored : (_ : List Bet).map (fun bet => (bet.outcome, bet.stake.val)) =
          allocation.cleaned.map fun entry => entry :=
        forall₂_map_eq (newBets_eq_ok stakes) fun entry member bet new => Prod.ext new.outcome_eq
          (Decimal.Numeric.val_ofDecimal (cents entry (List.mem_filter.mp member).1) new.stored)
      rw [FundPolymarket.heldStakes, reallocated.ownBets, stored, List.map_id']

theorem Reallocated.accountOn
    (reallocated : Reallocated db marketId memberId allocation next entries bets)
    (cents : ∀ entry ∈ allocation.entries, Scaled 2 entry.2) :
    accountOn next marketId memberId = accountOn db marketId memberId := by
  have balanced := reallocated.balanced fun entry member =>
    cents entry (List.mem_filter.mp member).1
  rw [FundPolymarket.accountOn, FundPolymarket.accountOn, reallocated.ownBets,
    reallocated.balance]
  linarith

theorem Commits.othersKept (nonneg : StakesNonneg db)
    (committed : Commits env db (.putAllocation marketId memberId allocation rationale) writes)
    (applied : applyWrites db writes = .ok next) : OthersKept marketId memberId db next := by
  have frame := committed.frame applied
  cases committed with
  | putAllocation found checked refunded stakes locked =>
      have reallocated := Reallocated.of_rows nonneg refunded stakes locked applied
      refine ⟨fun name notBets notLedger => frame name ?_, ?_, ?_⟩
      · simp [Request.tables, notBets, notLedger]
      · rw [allocation_table applied, existingBets, @Table.rows_foldl_insert _ fun bet : Bet =>
            !decide (bet.marketId = marketId ∧ bet.memberId = memberId),
          Table.rows_foldl_delete_select, List.filter_filter]
        · simp only [Bool.and_self]
        · intro bet member
          have new := reallocated.news bet member
          simp [new.1, new.2.1]
      · exact ⟨_, reallocated.ledger, fun entry member =>
          have own := reallocated.own entry member
          ⟨own.1, own.2.1⟩⟩

/-- What an accepted call does, and what it must have been. -/
structure Call.Accepted (marketId memberId : ℕ) (db : Db) (call : Call) (next : Db) : Prop where
  acceptable : Acceptable call.env.settings (accountOn db marketId memberId) call.allocation
  free : call.FreeRationale
  nonneg : StakesNonneg next
  held : FundPolymarket.heldStakes next marketId memberId = call.allocation.cleaned
  account : accountOn next marketId memberId = accountOn db marketId memberId
  others : OthersKept marketId memberId db next

/-- A call raises and changes nothing, or is accepted. -/
theorem Call.served_cases (marketId memberId : ℕ) (nonneg : StakesNonneg db) {call : Call}
    (cents : ∀ entry ∈ call.allocation.entries, Scaled 2 entry.2) :
    ((call.served marketId memberId db).db = db ∧
        ∃ exc, (call.served marketId memberId db).result = .error exc) ∨
      ((call.served marketId memberId db).result = .ok () ∧
        call.Accepted marketId memberId db (call.served marketId memberId db).db) := by
  rcases serve_cases call.env (.putAllocation marketId memberId call.allocation call.rationale) db
    with raised | ⟨returned, writes, committed, applied⟩
  · exact .inl raised
  · obtain ⟨entries, bets, reallocated, _⟩ := committed.reallocated nonneg applied
    exact .inr ⟨returned, committed.acceptable nonneg, committed.rationale_free,
      reallocated.nonneg nonneg,
      committed.heldStakes nonneg applied cents, reallocated.accountOn cents,
      committed.othersKept nonneg applied⟩

theorem Call.others_kept (nonneg : StakesNonneg db) (call : Call) :
    OthersKept marketId memberId db (call.served marketId memberId db).db := by
  rcases serve_cases call.env (.putAllocation marketId memberId call.allocation call.rationale) db
    with ⟨same, _⟩ | ⟨_, writes, committed, applied⟩
  · rw [Call.served, same]
    exact ⟨fun _ _ _ => rfl, rfl, [], (List.append_nil _).symm, by simp⟩
  · exact committed.othersKept nonneg applied

end Effect

section Reached

/-- Every allocation is in whole cents. -/
def CentAllocations (_ : Env) : Request → Db → Prop
  | .putAllocation _ _ allocation _, _ => ∀ entry ∈ allocation.entries, Scaled 2 entry.2
  | _, _ => True

/-- The stakes that the ledger could refund. -/
structure Refundable (db : Db) : Prop where
  nonneg : StakesNonneg db
  fits : ∀ marketId memberId, staked (ownBets db marketId memberId) < 10 ^ 16

variable {env : Env} {request : Request} {db next : Db} {writes : List Write}

/-- The payout column does not count among the stakes. -/
theorem staked_ownBets_core (core : next.bets.contents.map Bet.core =
      db.bets.contents.map Bet.core) (marketId memberId : ℕ) :
    staked (ownBets next marketId memberId) = staked (ownBets db marketId memberId) := by
  have through : ∀ state : Db, staked (ownBets state marketId memberId) =
      staked ((state.bets.contents.map Bet.core).filter fun bet =>
        bet.marketId = marketId ∧ bet.memberId = memberId) := by
    intro state
    rw [List.filter_map, staked, staked, List.map_map]
    rfl
  rw [through, through, core]

theorem OthersKept.ownBets {marketId memberId : ℕ} (kept : OthersKept marketId memberId db next)
    {market member : ℕ} (other : ¬ (market = marketId ∧ member = memberId)) :
    ownBets next market member = FundPolymarket.ownBets db market member := by
  have through : ∀ state : Db, FundPolymarket.ownBets state market member =
      ((state.bets.rows.filter fun row =>
        !decide (row.2.marketId = marketId ∧ row.2.memberId = memberId)).map Prod.snd).filter
          fun bet => bet.marketId = market ∧ bet.memberId = member := by
    intro state
    rw [FundPolymarket.ownBets, Table.contents, List.filter_map, List.filter_map,
      List.filter_filter]
    congr 1
    refine List.filter_congr fun row _ => ?_
    by_cases own : row.2.marketId = market ∧ row.2.memberId = member
    · obtain ⟨rfl, rfl⟩ := own
      simp [other]
    · simp [own]
  rw [through, through, kept.bets]

theorem Commits.refundable (committed : Commits env db request writes)
    (applied : applyWrites db writes = .ok next) (cents : CentAllocations env request db)
    (refundable : Refundable db) : Refundable next := by
  have bets := committed.bets applied
  have nonneg := bets.nonneg refundable.nonneg
  refine ⟨nonneg, fun market member => ?_⟩
  by_cases allocation : ∃ marketId owner allocation rationale,
      request = .putAllocation marketId owner allocation rationale
  · obtain ⟨marketId, owner, allocation, rationale, rfl⟩ := allocation
    by_cases own : market = marketId ∧ member = owner
    · obtain ⟨rfl, rfl⟩ := own
      have storable := (committed.acceptable refundable.nonneg).storable
      rw [staked_heldStakes, committed.heldStakes refundable.nonneg applied cents,
        ← total_exactly cents storable]
      exact storable
    · rw [(committed.othersKept refundable.nonneg applied).ownBets own]
      exact refundable.fits market member
  · push Not at allocation
    generalize contents : next.bets.contents = after at bets
    cases bets with
    | same core =>
        rw [← contents] at core
        rw [staked_ownBets_core core]
        exact refundable.fits market member
    | allocated => exact absurd rfl (allocation _ _ _ _)

/-- Runs of allocations in whole cents keep all stakes small enough to be refunded. -/
theorem refundable_stateAfter (events : List Event)
    (cents : ∀ s ∈ stepsFrom Db.empty events, s.Meets CentAllocations) :
    Refundable (stateAfter Db.empty events) := by
  have scheduled : ∀ (env : Env) (request : Request) (db : Db), request.scheduled = true → True →
      CentAllocations env request db := by
    intro env request db isScheduled _
    cases request with
    | putAllocation => cases isScheduled
    | _ => trivial
  refine requests_invariant scheduled (fun _ _ _ _ _ permitted _ committed applied =>
    committed.refundable applied permitted) ⟨stakesNonneg_empty, fun _ _ => ?_⟩ events
    (fun _ _ => trusts_anything _) cents
  norm_num [ownBets, Db.empty, UniqueTable.empty, Table.empty, Table.contents]

end Reached

section Sequence

variable {settings : Settings} {market : Market} {marketId memberId : ℕ} {db now : Db}
  {steps : List Step} {s : Step} {call : Call}

/-- The steps of a sequence: timely calls of the member, and what leaves the member alone. -/
inductive Step.Allowed (settings : Settings) (market : Market) (marketId memberId : ℕ)
    (s : Step) : Prop where
  | call {call : Call} (made : s.call? marketId memberId = some call)
      (timely : call.Timely settings market)
  | apart (apart : s.Apart marketId memberId)

theorem Step.served_call (made : s.call? marketId memberId = some call) :
    s.served = call.served marketId memberId s.pre := by
  obtain ⟨event, pre⟩ := s
  rw [Step.call?] at made
  split at made
  · rename_i same
    split at made
    · rename_i own
      obtain ⟨rfl, rfl⟩ := own
      cases made
      dsimp only at same
      rw [Step.served, same]
      rfl
    · cases made
  · cases made

theorem acceptedCalls_snoc (steps : List Step) (s : Step) :
    acceptedCalls marketId memberId (steps ++ [s]) =
      acceptedCalls marketId memberId steps ++
        if s.served.result.isOk then (s.call? marketId memberId).toList else [] := by
  rw [acceptedCalls, List.filter_append, List.filterMap_append, ← acceptedCalls]
  congr 1
  by_cases returned : s.served.result.isOk = true
  · rw [List.filter_cons_of_pos (by simpa using returned), if_pos returned]
    cases found : s.call? marketId memberId <;> simp [found]
  · rw [List.filter_cons_of_neg (by simpa using returned), if_neg returned]
    rfl

/-- The state of a sequence against the state it started in. -/
structure CallsKept (settings : Settings) (market : Market) (marketId memberId : ℕ) (db : Db)
    (steps : List Step) (now : Db) : Prop where
  nonneg : StakesNonneg now
  found : now.markets.get? marketId = some market
  account : accountOn now marketId memberId = accountOn db marketId memberId
  untouched : acceptedCalls marketId memberId steps = [] →
    ownBets now marketId memberId = ownBets db marketId memberId
  held : ∀ last ∈ (acceptedCalls marketId memberId steps).getLast?,
    heldStakes now marketId memberId = last.allocation.cleaned
  accepted : ∀ earlier ∈ acceptedCalls marketId memberId steps,
    (∀ entry ∈ earlier.allocation.entries, Scaled 2 entry.2) ∧
      Acceptable settings (accountOn db marketId memberId) earlier.allocation

theorem CallsKept.step (kept : CallsKept settings market marketId memberId db steps s.pre)
    (allowed : s.Allowed settings market marketId memberId) :
    CallsKept settings market marketId memberId db (steps ++ [s]) s.post := by
  cases allowed with
  | apart apart =>
      have same : acceptedCalls marketId memberId (steps ++ [s]) =
          acceptedCalls marketId memberId steps := by
        rw [acceptedCalls_snoc, apart.notCall]
        simp
      refine ⟨?_, apart.market.trans kept.found, ?_, ?_, ?_, same ▸ kept.accepted⟩
      · exact stakesNonneg_stateAfter kept.nonneg [s.event]
      · rw [accountOn, apart.bets, apart.balance]
        exact kept.account
      · rw [same, apart.bets]
        exact kept.untouched
      · rw [same, heldStakes, apart.bets]
        exact kept.held
  | @call call made timely =>
      have served := Step.served_call made
      rw [Step.post, served]
      rcases Call.served_cases marketId memberId kept.nonneg timely.cents with
        ⟨unchanged, exc, raised⟩ | ⟨returned, accepted⟩
      · have same : acceptedCalls marketId memberId (steps ++ [s]) =
            acceptedCalls marketId memberId steps := by
          rw [acceptedCalls_snoc, served, raised]
          exact List.append_nil _
        rw [unchanged]
        exact ⟨kept.nonneg, kept.found, kept.account, same ▸ kept.untouched, same ▸ kept.held,
          same ▸ kept.accepted⟩
      · have added : acceptedCalls marketId memberId (steps ++ [s]) =
            acceptedCalls marketId memberId steps ++ [call] := by
          rw [acceptedCalls_snoc, served, returned, made]
          rfl
        have markets := accepted.others.tables .markets (by decide) (by decide)
        refine ⟨accepted.nonneg, ?_, accepted.account.trans kept.account, ?_, ?_, ?_⟩
        · exact (congrArg (fun table : Table Market => table.get? marketId) markets).trans
            kept.found
        · rw [added]
          exact fun empty => absurd empty (by simp)
        · rw [added, List.getLast?_concat]
          rintro last ⟨⟩
          exact accepted.held
        · rw [added]
          intro earlier member
          rcases List.mem_append.mp member with before | new
          · exact kept.accepted earlier before
          · rw [List.mem_singleton.mp new, ← timely.settings_eq, ← kept.account]
            exact ⟨timely.cents, accepted.acceptable⟩

theorem callsKept_run (nonneg : StakesNonneg db)
    (found : db.markets.get? marketId = some market) (events : List Event)
    (allowed : ∀ s ∈ stepsFrom db events, s.Allowed settings market marketId memberId) :
    CallsKept settings market marketId memberId db (stepsFrom db events)
      (stateAfter db events) := by
  refine run_induction (motive := fun steps now =>
    (∀ s ∈ steps, s.Allowed settings market marketId memberId) →
      CallsKept settings market marketId memberId db steps now) ?_ ?_ events allowed
  · exact fun _ => ⟨nonneg, found, rfl, fun _ => rfl, by simp [acceptedCalls],
      by simp [acceptedCalls]⟩
  · intro steps now event kept conditions
    exact (kept fun s member => conditions s (List.mem_append_left _ member)).step
      (s := ⟨event, now⟩) (conditions _ (List.mem_append_right _ (List.mem_singleton_self _)))

/-- What a member staked last is what the allocation adds up to. -/
theorem CallsKept.staked_eq (kept : CallsKept settings market marketId memberId db steps now)
    {last : Call} (isLast : last ∈ (acceptedCalls marketId memberId steps).getLast?) :
    staked (ownBets now marketId memberId) = last.allocation.total := by
  obtain ⟨cents, acceptable⟩ := kept.accepted last (List.mem_of_getLast? isLast)
  rw [staked_heldStakes, kept.held last isLast, total_exactly cents acceptable.storable]

theorem CallsKept.refundable (kept : CallsKept settings market marketId memberId db steps now)
    (start : acceptedCalls marketId memberId steps = [] →
      staked (ownBets db marketId memberId) < 10 ^ 16) :
    staked (ownBets now marketId memberId) < 10 ^ 16 := by
  cases latest : (acceptedCalls marketId memberId steps).getLast? with
  | none =>
      have nothing := List.getLast?_eq_none_iff.mp latest
      rw [kept.untouched nothing]
      exact start nothing
  | some last =>
      rw [kept.staked_eq latest]
      exact (kept.accepted last (List.mem_of_getLast? latest)).2.storable

theorem CallsKept.accepts (kept : CallsKept settings market marketId memberId db steps now)
    (isOpen : market.status = .open) (timely : call.Timely settings market)
    (start : acceptedCalls marketId memberId steps = [] →
      staked (ownBets db marketId memberId) < 10 ^ 16) :
    (call.served marketId memberId now).result = .ok () ↔
      Acceptable settings (accountOn db marketId memberId) call.allocation ∧
        call.FreeRationale := by
  rw [← kept.account, ← timely.settings_eq]
  constructor
  · intro returned
    rcases Call.served_cases marketId memberId kept.nonneg timely.cents with
      ⟨_, exc, raised⟩ | ⟨_, accepted⟩
    · rw [returned] at raised
      cases raised
    · exact ⟨accepted.acceptable, accepted.free⟩
  · rintro ⟨acceptable, free⟩
    exact putAllocation_accepted kept.nonneg kept.found isOpen timely.inTime
      (kept.refundable start) timely.cents acceptable free

/-- A state that a sequence of calls has led to, and the next call in it. -/
structure LastCounts (settings : Settings) (market : Market) (marketId memberId : ℕ) (db : Db)
    (steps : List Step) (now : Db) : Prop where
  unclaimed : acceptedCalls marketId memberId steps = [] →
    ownBets now marketId memberId = ownBets db marketId memberId ∧
      getBalance now memberId = getBalance db memberId
  last : ∀ last ∈ (acceptedCalls marketId memberId steps).getLast?,
    heldStakes now marketId memberId = last.allocation.cleaned ∧
      getBalance now memberId = getBalance db memberId + staked (ownBets db marketId memberId) -
        last.allocation.total
  account : accountOn now marketId memberId = accountOn db marketId memberId
  accepts : staked (ownBets db marketId memberId) < 10 ^ 16 →
    ∀ call : Call, call.Timely settings market →
      ((call.served marketId memberId now).result = .ok () ↔
        Acceptable settings (accountOn db marketId memberId) call.allocation ∧ call.FreeRationale)
  again : ∀ earlier ∈ acceptedCalls marketId memberId steps, ∀ call : Call,
    call.Timely settings market → call.allocation = earlier.allocation →
      ((call.served marketId memberId now).result = .ok () ↔ call.FreeRationale)
  idle : ∀ last ∈ (acceptedCalls marketId memberId steps).getLast?, ∀ call : Call,
    call.Timely settings market → call.allocation = last.allocation →
      heldStakes (call.served marketId memberId now).db marketId memberId =
          heldStakes now marketId memberId ∧
        getBalance (call.served marketId memberId now).db memberId = getBalance now memberId
  raising : ∀ call : Call, (call.served marketId memberId now).result ≠ .ok () →
    (call.served marketId memberId now).db = now
  others : ∀ call : Call, OthersKept marketId memberId now (call.served marketId memberId now).db

theorem CallsKept.lastCounts (kept : CallsKept settings market marketId memberId db steps now)
    (isOpen : market.status = .open) :
    LastCounts settings market marketId memberId db steps now := by
  have account := kept.account
  have again : ∀ earlier ∈ acceptedCalls marketId memberId steps, ∀ call : Call,
      call.Timely settings market → call.allocation = earlier.allocation →
        ((call.served marketId memberId now).result = .ok () ↔ call.FreeRationale) := by
    intro earlier member call timely same
    have some_accepted := List.ne_nil_of_mem member
    rw [kept.accepts isOpen timely fun nothing => absurd nothing some_accepted, same]
    exact and_iff_right (kept.accepted earlier member).2
  refine ⟨?_, ?_, account, ?_, again, ?_, ?_, fun call => Call.others_kept kept.nonneg call⟩
  · intro nothing
    have same := kept.untouched nothing
    rw [accountOn, accountOn, same] at account
    exact ⟨same, by linarith⟩
  · intro last isLast
    rw [accountOn, accountOn, kept.staked_eq isLast] at account
    exact ⟨kept.held last isLast, by linarith⟩
  · exact fun start call timely => kept.accepts isOpen timely fun _ => start
  · intro last isLast call timely same
    rcases Call.served_cases marketId memberId kept.nonneg timely.cents with
      ⟨unchanged, _⟩ | ⟨_, accepted⟩
    · rw [unchanged]
      exact ⟨rfl, rfl⟩
    · have held : heldStakes (call.served marketId memberId now).db marketId memberId =
          heldStakes now marketId memberId := by
        rw [accepted.held, kept.held last isLast, same]
      have sameAccount := accepted.account
      rw [accountOn, accountOn, staked_heldStakes, staked_heldStakes, held] at sameAccount
      exact ⟨held, by linarith⟩
  · intro call failed
    rcases serve_cases call.env (.putAllocation marketId memberId call.allocation call.rationale)
      now with ⟨same, _⟩ | ⟨returned, _⟩
    · exact same
    · exact absurd returned failed

/-- In any sequence of timely calls, also with what others do in between: only the last
accepted allocation counts, and whether one is accepted never changes, unless its rationale
cannot be stored. -/
theorem last_allocation_counts (nonneg : StakesNonneg db)
    (found : db.markets.get? marketId = some market) (isOpen : market.status = .open)
    (events : List Event)
    (allowed : ∀ s ∈ stepsFrom db events, s.Allowed settings market marketId memberId) :
    LastCounts settings market marketId memberId db (stepsFrom db events)
      (stateAfter db events) :=
  (callsKept_run nonneg found events allowed).lastCounts isOpen

/-- Allocations of another member are steps of somebody else. -/
theorem apart_of_other {env : Env} {market owner : ℕ} {allocation : Allocation}
    {rationale : Option String} (nonneg : StakesNonneg db) (other : owner ≠ memberId) :
    Step.Apart marketId memberId
      ⟨.request env (.putAllocation market owner allocation rationale), db⟩ := by
  have notCall : Step.call? marketId memberId
      ⟨.request env (.putAllocation market owner allocation rationale), db⟩ = none :=
    if_neg fun own => other own.2
  rcases serve_cases env (.putAllocation market owner allocation rationale) db with
    ⟨same, _⟩ | ⟨_, writes, committed, applied⟩
  · have unchanged : Step.post
        ⟨.request env (.putAllocation market owner allocation rationale), db⟩ = db := same
    exact ⟨notCall, by rw [unchanged], by rw [unchanged], by rw [unchanged]⟩
  · have kept := committed.othersKept nonneg applied
    obtain ⟨entries, bets, reallocated, _⟩ := committed.reallocated nonneg applied
    have markets := kept.tables .markets (by decide) (by decide)
    exact ⟨notCall, congrArg (fun table : Table Market => table.get? marketId) markets,
      kept.ownBets fun own => other own.2.symm, reallocated.balance_others other.symm⟩

/-- A market with two members; the first has staked 100 points on BUY. -/
def twoMembers : List Event :=
  openedMarket ++ [.request desk (.createMember { email := "b@example.com", name := "b" })]

/-- The first member stakes 60 and 40, then more than the limit; the second stakes 10. -/
def restakes : List Event :=
  [.request desk (.putAllocation 1 1 ⟨[(.sell, 60), (.hold, 40)], by decide⟩ none),
    .request desk (.putAllocation 1 2 ⟨[(.hold, 10)], by decide⟩ none),
    .request desk (.putAllocation 1 1 ⟨[(.buy, 501)], by decide⟩ none)]

theorem last_allocation_counts_restakes :
    heldStakes (stateAfter (stateAfter Db.empty twoMembers) restakes) 1 1 =
        [(.sell, 60), (.hold, 40)] ∧
      getBalance (stateAfter (stateAfter Db.empty twoMembers) restakes) 1 = 900 := by
  have nonneg : StakesNonneg (stateAfter Db.empty twoMembers) :=
    stakesNonneg_stateAfter stakesNonneg_empty twoMembers
  obtain ⟨market, found, isOpen, closesAt⟩ : ∃ market ∈
      (stateAfter Db.empty twoMembers).markets.get? 1, market.status = .open ∧
        desk.now < market.closesAt := by decide +kernel
  have timely : ∀ allocation : Allocation, (∀ entry ∈ allocation.entries, Scaled 2 entry.2) →
      Call.Timely {} market ⟨desk, allocation, none⟩ := fun _ cents => ⟨rfl, closesAt, cents⟩
  have counts := @last_allocation_counts {} market 1 1 _ nonneg found isOpen restakes (by
    intro s member
    simp only [restakes, stepsFrom, List.mem_cons, List.not_mem_nil, or_false] at member
    obtain rfl | rfl | rfl := member
    · exact .call rfl (timely _ (by decide +kernel))
    · exact .apart (apart_of_other (stakesNonneg_stateAfter nonneg [_]) (by decide))
    · exact .call rfl (timely _ (by decide +kernel)))
  have latest : ∃ last ∈ (acceptedCalls 1 1 (stepsFrom (stateAfter Db.empty twoMembers)
      restakes)).getLast?, last.allocation.entries = [(.sell, 60), (.hold, 40)] := by
    decide +kernel
  obtain ⟨last, isLast, entries⟩ := latest
  obtain ⟨held, balance⟩ := counts.last last isLast
  rw [Allocation.total, Allocation.cleaned, entries] at balance
  rw [Allocation.cleaned, entries] at held
  exact ⟨held.trans (by decide +kernel), balance.trans (by decide +kernel)⟩

/-- An allocation on BUY, with a rationale. -/
def stakeOnBuy (rationale : Option String) : Call :=
  ⟨desk, ⟨[(.buy, 60)], by decide⟩, rationale⟩

/-- The database has no place for the character U+0000: what was accepted is refused with a
rationale that holds one. -/
theorem resubmission_refused :
    ((stakeOnBuy none).served 1 1 (stateAfter Db.empty twoMembers)).result = .ok () ∧
      ((stakeOnBuy (some (String.singleton (Char.ofNat 0)))).served 1 1
        ((stakeOnBuy none).served 1 1 (stateAfter Db.empty twoMembers)).db).result =
          .error .dataError := by
  decide +kernel

end Sequence

end FundPolymarket
