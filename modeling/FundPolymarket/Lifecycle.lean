import FundPolymarket.Effects
import Mathlib.Logic.Relation

set_option autoImplicit false

/- The lifecycle of a market: how its status advances, and that its verdict is final. -/
namespace FundPolymarket

namespace MarketStatus

def terminal : MarketStatus → Bool
  | .settled | .cancelled => true
  | _ => false

/-- Between the close and the verdict. -/
def awaitsVerdict : MarketStatus → Bool
  | .closed | .decided | .executed => true
  | _ => false

/-- The intended transitions: forward along the stages, or out by a cancellation. -/
inductive Advance : MarketStatus → MarketStatus → Prop where
  | close : Advance .open .closed
  | decide : Advance .closed .decided
  | execute : Advance .decided .executed
  | resolve {status : MarketStatus} (awaits : status.awaitsVerdict = true) :
      Advance status .resolved
  | settle : Advance .resolved .settled
  | cancel {status : MarketStatus} (active : status.terminal = false) : Advance status .cancelled

def stage : MarketStatus → ℕ
  | .open => 0
  | .closed => 1
  | .decided => 2
  | .executed => 3
  | .resolved => 4
  | .settled => 5
  | .cancelled => 5

theorem Advance.stage_lt {status later : MarketStatus} (advance : Advance status later) :
    status.stage < later.stage := by
  cases advance with
  | close | decide | execute | settle => decide
  | resolve awaits => cases status <;> first | decide | cases awaits
  | cancel active => cases status <;> first | decide | cases active

theorem Advance.not_terminal {status later : MarketStatus} (advance : Advance status later) :
    status.terminal = false := by
  cases advance with
  | close | decide | execute | settle => rfl
  | resolve awaits => cases status <;> first | rfl | cases awaits
  | cancel active => exact active

/-- Any number of transitions. -/
abbrev Path : MarketStatus → MarketStatus → Prop := Relation.ReflTransGen Advance

/-- A terminal status is never left. -/
theorem Path.of_terminal {status later : MarketStatus} (path : Path status later)
    (terminal : status.terminal = true) : later = status := by
  rcases path.cases_head with same | ⟨middle, advance, _⟩
  · exact same.symm
  · rw [advance.not_terminal] at terminal
    cases terminal

/-- No status comes back. -/
theorem Path.stage_lt {status later : MarketStatus} (path : Path status later)
    (differs : later ≠ status) : status.stage < later.stage := by
  induction path with
  | refl => exact absurd rfl differs
  | @tail middle last _ advance ih =>
      by_cases same : middle = status
      · exact same ▸ advance.stage_lt
      · exact (ih same).trans advance.stage_lt

end MarketStatus

/-- The verdict on a market is there only once the market is past it. -/
def Market.Judged (row : Market) : Prop :=
  row.winningOutcome ≠ none ∨ row.resolutionPrice ≠ none →
    row.status = .resolved ∨ row.status.terminal = true

/-- What may become of the row of a market: the status advances, the verdict stays. -/
structure Market.Evolves (row later : Market) : Prop where
  path : row.status.Path later.status
  outcome : ∀ outcome, row.winningOutcome = some outcome → later.winningOutcome = some outcome
  price : ∀ price, row.resolutionPrice = some price → later.resolutionPrice = some price

namespace Market.Evolves

theorem refl (row : Market) : row.Evolves row := ⟨.refl, fun _ h => h, fun _ h => h⟩

theorem trans {row later last : Market} (first : row.Evolves later) (second : later.Evolves last) :
    row.Evolves last :=
  ⟨first.path.trans second.path, fun o h => second.outcome o (first.outcome o h),
    fun p h => second.price p (first.price p h)⟩

end Market.Evolves

/-- An approval comes in time when the market of a pending decision is still DECIDED. -/
def ApprovedInTime (_env : Env) (request : Request) (db : Db) : Prop :=
  match request with
  | .approveDecision decisionId _ =>
      ∀ decision ∈ db.decisions.get? decisionId, decision.status = .pendingApproval →
        ∀ market ∈ db.markets.get? decision.marketId, market.status = .decided
  | _ => True

instance (env : Env) (request : Request) (db : Db) : Decidable (ApprovedInTime env request db) :=
  match request with
  | .approveDecision decisionId _ =>
      inferInstanceAs (Decidable (∀ decision ∈ db.decisions.get? decisionId,
        decision.status = .pendingApproval →
          ∀ market ∈ db.markets.get? decision.marketId, market.status = .decided))
  | .createMember _ | .createFund _ _ _ | .createMarket _ _ | .putAllocation _ _ _ _
  | .closeMarket _ | .createDecision _ | .rejectDecision _ _ _ | .resolveMarket _
  | .settleMarket _ | .cancelMarket _ _ | .syncFund _ => .isTrue trivial

section Step

variable {env : Env} {db next : Db} {request : Request} {writes : List Write}

theorem Executed.in_time {decisionId adminId : ℕ} {decision : TradeDecision} {prepared : Prepared}
    {result : OrderResult} {row : Market}
    (inTime : ApprovedInTime env (.approveDecision decisionId adminId) db)
    (executed : Executed env db decisionId decision prepared result)
    (found : db.markets.get? decision.marketId = some row) : row.status = .decided :=
  inTime decision executed.found (prepareOrder_eq_ok executed.prepared_eq).pending row found

theorem MarketChange.evolves {id : ℕ} {row later : Market}
    (change : MarketChange env db request id row later)
    (inTime : ApprovedInTime env request db) (found : db.markets.get? id = some row)
    (judged : row.Judged) : row.Evolves later ∧ later.Judged := by
  -- Only the verdict writes the judged columns, and it finds them empty.
  have unjudged : row.status ≠ .resolved → row.status.terminal = false →
      row.winningOutcome = none ∧ row.resolutionPrice = none := by
    intro notResolved active
    by_contra set
    rcases judged (by tauto) with resolved | terminal
    · exact notResolved resolved
    · rw [active] at terminal
      cases terminal
  have advanced : ∀ status, row.status.Advance status → later.status = status →
      later.winningOutcome = row.winningOutcome → later.resolutionPrice = row.resolutionPrice →
      row.Evolves later := by
    intro status advance reached sameOutcome samePrice
    exact ⟨reached ▸ .single advance, fun _ h => sameOutcome ▸ h, fun _ h => samePrice ▸ h⟩
  cases change with
  | close isOpen =>
      obtain ⟨noOutcome, noPrice⟩ := unjudged (by simp [isOpen]) (by rw [isOpen]; rfl)
      exact ⟨advanced .closed (isOpen ▸ .close) rfl rfl rfl,
        fun set => by simp [Market.close, noOutcome, noPrice] at set⟩
  | decide isClosed =>
      obtain ⟨noOutcome, noPrice⟩ := unjudged (by simp [isClosed]) (by rw [isClosed]; rfl)
      exact ⟨advanced .decided (isClosed ▸ .decide) rfl rfl rfl,
        fun set => by simp [Market.decide, noOutcome, noPrice] at set⟩
  | execute executed =>
      have isDecided := executed.in_time inTime found
      obtain ⟨noOutcome, noPrice⟩ := unjudged (by simp [isDecided]) (by rw [isDecided]; rfl)
      exact ⟨advanced .executed (isDecided ▸ .execute) rfl rfl rfl,
        fun set => by simp [Market.execute, noOutcome, noPrice] at set⟩
  | resolve between =>
      have awaits : row.status.awaitsVerdict = true := by
        rcases between with status | status | status <;> rw [status] <;> rfl
      have notResolved : row.status ≠ .resolved := by
        rcases between with status | status | status <;> simp [status]
      have active : row.status.terminal = false := by
        rcases between with status | status | status <;> rw [status] <;> rfl
      obtain ⟨noOutcome, noPrice⟩ := unjudged notResolved active
      refine ⟨⟨.single (.resolve awaits), ?_, ?_⟩, fun _ => .inl rfl⟩
      · simp [noOutcome]
      · simp [noPrice]
  | settle isResolved =>
      exact ⟨advanced .settled (isResolved ▸ .settle) rfl rfl rfl, fun _ => .inr rfl⟩
  | cancel notSettled notCancelled =>
      have active : row.status.terminal = false := by
        cases status : row.status <;> first | rfl | contradiction
      exact ⟨advanced .cancelled (.cancel active) rfl rfl rfl, fun _ => .inr rfl⟩

/-- Every market of the first state is still there and has evolved; all are judged. -/
structure MarketsEvolve (start db : Db) : Prop where
  judged : ∀ id row, db.markets.get? id = some row → row.Judged
  evolved : ∀ id row, start.markets.get? id = some row →
    ∃ later, db.markets.get? id = some later ∧ row.Evolves later

theorem Commits.evolves {start : Db} (inTime : ApprovedInTime env request db)
    (committed : Commits env db request writes) (applied : applyWrites db writes = .ok next)
    (evolve : MarketsEvolve start db) : MarketsEvolve start next := by
  have after := committed.markets applied
  refine ⟨?_, ?_⟩
  · intro id later found
    rcases after.origin found with ⟨_, _, noOutcome, noPrice⟩ | ⟨row, before, same | change⟩
    · intro set
      simp [noOutcome, noPrice] at set
    · exact same ▸ evolve.judged id row before
    · exact (change.evolves inTime before (evolve.judged id row before)).2
  · intro id row found
    obtain ⟨middle, middleFound, evolves⟩ := evolve.evolved id row found
    obtain ⟨later, laterFound, same | change⟩ := after.kept middleFound
    · exact ⟨later, laterFound, same ▸ evolves⟩
    · exact ⟨later, laterFound, evolves.trans
        (change.evolves inTime middleFound (evolve.judged id middle middleFound)).1⟩

end Step

theorem scheduled_in_time (env : Env) (request : Request) (db : Db)
    (scheduled : request.scheduled = true) : ApprovedInTime env request db := by
  cases request with
  | approveDecision => cases scheduled
  | _ => trivial

/-- The run rule of the lifecycle. -/
theorem run_evolves {start : Db} (judged : ∀ id row, start.markets.get? id = some row → row.Judged)
    (events : List Event) (inTime : ∀ s ∈ stepsFrom start events, s.Meets ApprovedInTime) :
    MarketsEvolve start (stateAfter start events) :=
  requests_invariant (fun env request db scheduled _ => scheduled_in_time env request db scheduled)
    (fun _ _ _ _ _ permitted _ committed applied => committed.evolves permitted applied)
    ⟨judged, fun _ row found => ⟨row, found, .refl row⟩⟩ events (fun _ _ => trusts_anything _)
    inTime

/-- Along a run from the empty database every market evolves, and orders are sent
only for an approved decision whose market is DECIDED. -/
structure LifecycleSafe (events : List Event) : Prop where
  evolves : ∀ before after, events = before ++ after → ∀ id row,
    (stateAfter Db.empty before).markets.get? id = some row →
    ∃ later, (stateAfter Db.empty events).markets.get? id = some later ∧ row.Evolves later
  sent : ∀ s ∈ stepsFrom Db.empty events, ∀ request ∈ s.sent,
    ∃ env decisionId adminId decision market,
      s.event = .request env (.approveDecision decisionId adminId) ∧
        s.pre.decisions.get? decisionId = some decision ∧
        s.pre.markets.get? decision.marketId = some market ∧ market.status = .decided

/-- Markets are safe in every run whose approvals come in time. -/
theorem lifecycle_safe (events : List Event)
    (inTime : ∀ s ∈ stepsFrom Db.empty events, s.Meets ApprovedInTime) : LifecycleSafe events := by
  refine ⟨?_, ?_⟩
  · rintro before after rfl id row found
    rw [stepsFrom_append] at inTime
    have unjudged : ∀ id row, Db.empty.markets.get? id = some row → row.Judged := by
      simp [Db.empty]
    have reached := run_evolves unjudged before
      fun s member => inTime s (List.mem_append_left _ member)
    have onward := run_evolves reached.judged after
      fun s member => inTime s (List.mem_append_right _ member)
    rw [stateAfter_append]
    exact onward.evolved id row found
  · intro s member request sent
    obtain ⟨env, decisionId, adminId, decision, prepared, event, sends⟩ := Step.sent_approval sent
    have prepares := prepareOrder_eq_ok sends.prepared_eq
    have condition := inTime s member
    rw [Step.Meets, event] at condition
    exact ⟨env, decisionId, adminId, decision, prepared.market, event, sends.found, prepares.found,
      condition decision sends.found prepares.pending prepared.market prepares.found⟩

theorem lifecycle_safe_approval :
    LifecycleSafe (pendingDecision ++ [.request desk (.approveDecision 1 1)]) :=
  lifecycle_safe _ (by decide +kernel)

/-- A pending decision is approved after its market was cancelled: the market leaves
CANCELLED. -/
theorem lifecycle_unsafe_late_approval :
    ¬ LifecycleSafe (pendingDecision ++ [.request desk (.cancelMarket 1 "void"),
      .request desk (.approveDecision 1 1)]) := by
  intro safe
  have cancelled : ((stateAfter Db.empty
      (pendingDecision ++ [.request desk (.cancelMarket 1 "void")])).markets.get? 1).map
        Market.status = some .cancelled := by decide +kernel
  have executed : ((stateAfter Db.empty (pendingDecision ++ [.request desk (.cancelMarket 1 "void"),
      .request desk (.approveDecision 1 1)])).markets.get? 1).map Market.status =
        some .executed := by decide +kernel
  obtain ⟨row, found, status⟩ := Option.map_eq_some_iff.mp cancelled
  obtain ⟨later, laterFound, evolves⟩ := safe.evolves
    (pendingDecision ++ [.request desk (.cancelMarket 1 "void")])
    [.request desk (.approveDecision 1 1)] (by simp) 1 row found
  rw [laterFound] at executed
  have stays := evolves.path.of_terminal (by rw [status]; rfl)
  rw [Option.map_some, stays, status] at executed
  cases executed

end FundPolymarket
