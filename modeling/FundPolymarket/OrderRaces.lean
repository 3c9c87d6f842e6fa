import FundPolymarket.Accounts
import FundPolymarket.Jobs

set_option autoImplicit false

/- Decisions of one market that are built, approved and rejected while requests
overlap. The broker is called between the check of a status and the commit. -/
namespace FundPolymarket

open Interleaving (Act Along Flight Moves World run)

section Checks

def hasDecision (db : Db) (marketId : ℕ) : Bool :=
  db.decisions.contents.any fun decision => decision.marketId = marketId

def isPending (db : Db) (decisionId : ℕ) : Bool :=
  (db.decisions.get? decisionId).any fun decision => decision.status = .pendingApproval

def hasStatus (db : Db) (marketId : ℕ) (status : MarketStatus) : Bool :=
  (db.markets.get? marketId).any fun market => market.status = status

/-- The status checks of the requests on the decisions of a market. -/
def Job.passes (db : Db) : Job → Bool
  | .request _ (.createDecision marketId) =>
      hasStatus db marketId .closed && !hasDecision db marketId
  | .request _ (.approveDecision decisionId _) | .request _ (.rejectDecision decisionId _ _) =>
      isPending db decisionId
  | .closeAndDecide _ _ _ marketId => hasStatus db marketId .open && !hasDecision db marketId
  | .request _ _ => false

/-- The requests on one market and its decisions. -/
def Job.asksFor (marketId : ℕ) (db : Db) : Job → Prop
  | .request _ (.createDecision id) | .closeAndDecide _ _ _ id => id = marketId
  | .request _ (.approveDecision decisionId _) | .request _ (.rejectDecision decisionId _ _) =>
      ∀ decision ∈ db.decisions.get? decisionId, decision.marketId = marketId
  | .request _ _ => False

instance (marketId : ℕ) (db : Db) (job : Job) : Decidable (job.asksFor marketId db) :=
  match job with
  | .request _ (.createDecision id) => inferInstanceAs (Decidable (id = marketId))
  | .closeAndDecide _ _ _ id => inferInstanceAs (Decidable (id = marketId))
  | .request _ (.approveDecision decisionId _) => inferInstanceAs (Decidable
      (∀ decision ∈ db.decisions.get? decisionId, decision.marketId = marketId))
  | .request _ (.rejectDecision decisionId _ _) => inferInstanceAs (Decidable
      (∀ decision ∈ db.decisions.get? decisionId, decision.marketId = marketId))
  | .request _ (.createMember _) | .request _ (.createFund _ _ _) | .request _ (.createMarket _ _)
  | .request _ (.putAllocation _ _ _ _) | .request _ (.closeMarket _)
  | .request _ (.resolveMarket _) | .request _ (.settleMarket _) | .request _ (.cancelMarket _ _)
  | .request _ (.syncFund _) => .isFalse id

/-- The broker accepts every order, and its numbers can be committed. -/
def Job.answered : Job → Prop
  | .request env _ => ∀ sent, ∃ result, env.broker.placeOrder sent = .ok result ∧
      ∃ brokerOrderNo, storedOrderNo result = .ok brokerOrderNo
  | .closeAndDecide _ _ _ _ => True

/-- The decision that a job approves. -/
def Job.approves : Job → Option ℕ
  | .request _ (.approveDecision decisionId _) => some decisionId
  | _ => none

/-- The broker has been called, and the commit is still to come. -/
def awaits (flight : Flight Db Job) : Bool :=
  flight.stage = .sent ∧ jobs.sends flight.request flight.seen ≠ []

def OthersIdle (world : World Db Job OrderRequest) (index : ℕ) : Prop :=
  ∀ other < world.flights.length, other ≠ index →
    ∀ flight ∈ world.flights[other]?, awaits flight = false

instance (world : World Db Job OrderRequest) (index : ℕ) : Decidable (OthersIdle world index) := by
  unfold OthersIdle
  infer_instance

/-- A status check that was passed when the request read is passed now, and nobody
else is between the broker's answer and the commit. -/
def Exclusive (world : World Db Job OrderRequest) (index : ℕ) (flight : Flight Db Job) : Prop :=
  flight.request.passes flight.seen = true →
    flight.request.passes world.shared = true ∧ OthersIdle world index

instance (world : World Db Job OrderRequest) (index : ℕ) (flight : Flight Db Job) :
    Decidable (Exclusive world index flight) := by
  unfold Exclusive
  infer_instance

/-- Broker calls and commits are exclusive. -/
def OrdersInTime (world : World Db Job OrderRequest) : Act Job → Prop
  | .start _ => True
  | .send index => ∀ flight ∈ world.flights[index]?, flight.stage = .read →
      jobs.sends flight.request flight.seen ≠ [] → Exclusive world index flight
  | .commit index => ∀ flight ∈ world.flights[index]?, flight.stage = .sent →
      Exclusive world index flight

instance (world : World Db Job OrderRequest) (act : Act Job) : Decidable (OrdersInTime world act) :=
  match act with
  | .start _ => .isTrue trivial
  | .send index => inferInstanceAs (Decidable (∀ flight ∈ world.flights[index]?,
      flight.stage = .read → jobs.sends flight.request flight.seen ≠ [] →
        Exclusive world index flight))
  | .commit index => inferInstanceAs (Decidable (∀ flight ∈ world.flights[index]?,
      flight.stage = .sent → Exclusive world index flight))

/-- Acts of requests on the decisions of one market. -/
def AsksFor (marketId : ℕ) (world : World Db Job OrderRequest) : Act Job → Prop
  | .start job => job.asksFor marketId world.shared
  | .send _ | .commit _ => True

instance (marketId : ℕ) (world : World Db Job OrderRequest) (act : Act Job) :
    Decidable (AsksFor marketId world act) :=
  match act with
  | .start job => inferInstanceAs (Decidable (job.asksFor marketId world.shared))
  | .send _ | .commit _ => .isTrue trivial

def Answered : Act Job → Prop
  | .start job => job.answered
  | .send _ | .commit _ => True

end Checks

/-- The decisions on a market share one id. -/
def OneDecision (marketId : ℕ) (decisions : Table TradeDecision) : Prop :=
  ∀ row ∈ decisions.rows, ∀ other ∈ decisions.rows,
    row.2.marketId = marketId → other.2.marketId = marketId → row.1 = other.1

/-- At most one order goes out, and none for a decision that ends up rejected. -/
structure OrderedOnce (world : World Db Job OrderRequest) : Prop where
  once : world.sent.length ≤ 1
  kept : ∀ entry ∈ world.sent, ∀ decisionId ∈ entry.1.approves,
    ∀ decision ∈ world.shared.decisions.get? decisionId, decision.status ≠ .rejected

section Commit

variable {marketId : ℕ} {job : Job} {seen now : Db}

/-- What a commit does to the decisions, and the check behind it. -/
inductive DecisionsMove (marketId : ℕ) (seen now : Db) : Job → Table TradeDecision → Prop where
  | same {job : Job} : DecisionsMove marketId seen now job now.decisions
  | built {job : Job} {decision : TradeDecision} (passed : job.passes seen = true)
      (checked : job.passes now = true → hasDecision now marketId = false)
      (mine : decision.marketId = marketId) :
      DecisionsMove marketId seen now job (now.decisions.insert decision)
  | rejected {env : Env} {decisionId adminId : ℕ} {reason : String}
      (passed : isPending seen decisionId = true) :
      DecisionsMove marketId seen now (.request env (.rejectDecision decisionId adminId reason))
        (now.decisions.update decisionId fun row => row.reject adminId reason env.now)
  | executed {env : Env} {decisionId adminId : ℕ}
      (called : jobs.sends (.request env (.approveDecision decisionId adminId)) seen ≠ []) :
      DecisionsMove marketId seen now (.request env (.approveDecision decisionId adminId))
        (now.decisions.update decisionId fun row => row.execute adminId env.now)

theorem hasDecision_eq_false {db : Db}
    (none_exists : ∀ other ∈ db.decisions.contents, other.marketId ≠ marketId) :
    hasDecision db marketId = false := by
  apply List.any_eq_false.mpr
  intro other member
  simpa using none_exists other member

theorem closeAndDecideWrites_eq_ok {settings : Settings} {time : Time} {broker : TickCall → Broker}
    {writes : List Write}
    (success : closeAndDecideWrites settings time broker marketId seen = .ok writes) :
    (Job.closeAndDecide settings time broker marketId).passes seen = true ∧
      ∃ decision closing, decision.marketId = marketId ∧
        writes = [.updateMarket marketId closing, .insertDecision decision,
          .updateMarket marketId Market.decide] := by
  obtain ⟨closing, closed, building, rfl, closes, applied, builds⟩ :=
    closeAndDecideWrites_commits success
  have decisions : closed.decisions = seen.decisions :=
    closes.frame applied .decisions (by simp [Request.tables])
  cases builds with
  | createDecision _ _ none_exists built =>
      rw [decisions] at none_exists
      cases closes with
      | closeMarket found isOpen =>
          refine ⟨?_, _, _, built.marketId_eq, rfl⟩
          simp [Job.passes, hasDecision_eq_false none_exists, hasStatus, found, isOpen]

/-- An approval that returns has called the broker. -/
theorem approveDecision_calls {env : Env} {decisionId adminId : ℕ}
    (returned : (approveDecision env seen decisionId adminId).result = .ok ()) :
    (approveDecision env seen decisionId adminId).sent ≠ [] := by
  cases approveDecision_ends env seen decisionId adminId with
  | stopped _ ended | failed _ _ _ ended | unnumbered _ _ _ _ ended =>
      rw [ended] at returned
      cases returned
  | submitted _ once _ _ _ _ =>
      rw [once]
      exact List.cons_ne_nil _ _

/-- An approval whose order is accepted returns. -/
theorem approveDecision_returns {env : Env} {decisionId adminId : ℕ}
    (answered : (Job.request env (.approveDecision decisionId adminId)).answered)
    (called : (approveDecision env seen decisionId adminId).sent ≠ []) :
    (approveDecision env seen decisionId adminId).result = .ok () := by
  cases approveDecision_ends env seen decisionId adminId with
  | stopped silent _ => exact absurd silent called
  | failed _ _ answer _ =>
      obtain ⟨result, accepted, _⟩ := answered _
      rw [accepted] at answer
      cases answer
  | unnumbered _ _ answer unstorable _ =>
      obtain ⟨result, accepted, brokerOrderNo, numbered⟩ := answered _
      rw [accepted] at answer
      cases answer
      rw [numbered] at unstorable
      cases unstorable
  | submitted _ _ _ _ _ ended => exact ended

theorem commit_decisions (asks : job.asksFor marketId seen) :
    DecisionsMove marketId seen now job (jobs.commit job seen now).decisions := by
  rcases commit_cases job seen now with same | ⟨returned, applied⟩
  · rw [same]
    exact .same
  generalize jobs.commit job seen now = next at applied
  cases job with
  | closeAndDecide settings time broker id =>
      have mine : id = marketId := asks
      subst mine
      obtain ⟨passed, decision, closing, own, writes⟩ :=
        closeAndDecideWrites_eq_ok (Handled.ofService_ok returned)
      change applyWrites now (Handled.ofService (closeAndDecideWrites settings time broker id
        seen)).flushed = .ok next at applied
      rw [writes] at applied
      rw [show next.decisions = now.decisions.insert decision from applyWrites_table applied
        .decisions]
      refine .built passed (fun passes => ?_) own
      simpa using (Bool.and_eq_true_iff.mp passes).2
  | request env asked =>
      have committed : Commits env seen asked (handle env seen asked).flushed :=
        handle_commits returned
      change applyWrites now (handle env seen asked).flushed = .ok next at applied
      cases asked with
      | createDecision id =>
          have mine : id = marketId := asks
          subst mine
          generalize (handle env seen (.createDecision id)).flushed = writes at committed applied
          cases committed with
          | createDecision found isClosed none_exists built =>
              rw [show next.decisions = now.decisions.insert _ from applyWrites_table applied
                .decisions]
              refine .built ?_ (fun passes => ?_) built.marketId_eq
              · simp [Job.passes, hasDecision_eq_false none_exists, hasStatus, found, isClosed]
              · simpa using (Bool.and_eq_true_iff.mp passes).2
      | approveDecision decisionId adminId =>
          have called := approveDecision_calls returned
          generalize (handle env seen (.approveDecision decisionId adminId)).flushed = writes
            at committed applied
          cases committed with
          | approveDecision executed =>
              have decisions : next.decisions =
                  now.decisions.update decisionId fun row => row.execute adminId env.now :=
                applyWrites_table applied .decisions
              exact decisions ▸ .executed called
      | rejectDecision decisionId adminId reason =>
          generalize (handle env seen (.rejectDecision decisionId adminId reason)).flushed = writes
            at committed applied
          cases committed with
          | rejectDecision found pending =>
              have decisions : next.decisions =
                  now.decisions.update decisionId fun row => row.reject adminId reason env.now :=
                applyWrites_table applied .decisions
              exact decisions ▸ .rejected (by simp [isPending, found, pending])
      | _ => cases asks

/-- Only an approval calls the broker, once and for a pending decision. -/
theorem sends_approval (called : jobs.sends job seen ≠ []) :
    ∃ env decisionId adminId order, job = .request env (.approveDecision decisionId adminId) ∧
      isPending seen decisionId = true ∧ jobs.sends job seen = [order] := by
  cases job with
  | closeAndDecide => exact absurd (Handled.ofService_sent _) called
  | request env asked =>
      cases asked with
      | approveDecision decisionId adminId =>
          rcases approveDecision_sends decisionId adminId with
            silent | ⟨decision, prepared, sends, once⟩
          · exact absurd silent called
          · refine ⟨env, decisionId, adminId, _, rfl, ?_, once⟩
            simp [isPending, sends.found, (prepareOrder_eq_ok sends.prepared_eq).pending]
      | _ => exact absurd (Handled.ofService_sent _) called

theorem commit_executes {env : Env} {decisionId adminId : ℕ}
    (called : jobs.sends (.request env (.approveDecision decisionId adminId)) seen ≠ [])
    (answered : (Job.request env (.approveDecision decisionId adminId)).answered) :
    (jobs.commit (.request env (.approveDecision decisionId adminId)) seen now).decisions =
      now.decisions.update decisionId fun row => row.execute adminId env.now := by
  have returned : (handle env seen (.approveDecision decisionId adminId)).result = .ok () :=
    approveDecision_returns answered called
  have committed := handle_commits returned
  have flush : ∃ next, applyWrites now (handle env seen
      (.approveDecision decisionId adminId)).flushed = .ok next ∧
        next.decisions =
          now.decisions.update decisionId fun row => row.execute adminId env.now := by
    generalize (handle env seen (.approveDecision decisionId adminId)).flushed = writes
      at committed
    cases committed with
    | @approveDecision _ _ decision prepared _ brokerOrderNo =>
        obtain ⟨next, applied⟩ := applyWrites_unconstrained now <|
          @successWrites_unconstrained decisionId decision adminId env.now prepared brokerOrderNo
        exact ⟨next, applied, applyWrites_table applied .decisions⟩
  obtain ⟨next, applied, decisions⟩ := flush
  rw [show jobs.commit (.request env (.approveDecision decisionId adminId)) seen now = next from
    endRequest_eq_ok applied returned, decisions]

end Commit

section Invariant

/-- A decision of the market, with its status. -/
def DecisionAt (marketId : ℕ) (decisions : Table TradeDecision) (decisionId : ℕ)
    (status : DecisionStatus) : Prop :=
  ∃ row, decisions.get? decisionId = some row ∧ row.marketId = marketId ∧ row.status = status

/-- How far the order of the market has got: nothing has been sent, one approval waits
to commit a decision that is still pending, or the decision is executed. -/
inductive Ordered (marketId : ℕ) (world : World Db Job OrderRequest) : Prop where
  | none (nothing : world.sent = []) (idle : ∀ flight ∈ world.flights, awaits flight = false)
  | awaiting {index : ℕ} {flight : Flight Db Job} {decisionId : ℕ} {order : OrderRequest}
      (found : world.flights[index]? = some flight) (waits : awaits flight = true)
      (others : OthersIdle world index) (approves : flight.request.approves = some decisionId)
      (sent : world.sent = [(flight.request, order)])
      (pending : DecisionAt marketId world.shared.decisions decisionId .pendingApproval)
  | executed {job : Job} {decisionId : ℕ} {order : OrderRequest}
      (idle : ∀ flight ∈ world.flights, awaits flight = false)
      (approves : job.approves = some decisionId) (sent : world.sent = [(job, order)])
      (done : DecisionAt marketId world.shared.decisions decisionId .executed)

structure OneOrder (marketId : ℕ) (world : World Db Job OrderRequest) : Prop where
  single : OneDecision marketId world.shared.decisions
  asks : ∀ flight ∈ world.flights, flight.request.asksFor marketId flight.seen ∧
    flight.request.asksFor marketId world.shared ∧ flight.request.answered
  ordered : Ordered marketId world

variable {marketId : ℕ} {world : World Db Job OrderRequest} {index : ℕ} {flight : Flight Db Job}

theorem OneDecision.unique {decisions : Table TradeDecision}
    (single : OneDecision marketId decisions) {first second : ℕ} {status other : DecisionStatus}
    (one : DecisionAt marketId decisions first status)
    (two : DecisionAt marketId decisions second other) : status = other := by
  obtain ⟨row, found, mine, rfl⟩ := one
  obtain ⟨later, laterFound, laterMine, rfl⟩ := two
  have same := single _ ((decisions.mem_rows_iff first row).mpr found) _
    ((decisions.mem_rows_iff second later).mpr laterFound) mine laterMine
  dsimp only at same
  rw [same, laterFound] at found
  cases found
  rfl

theorem DecisionAt.hasDecision {db : Db} {decisionId : ℕ} {status : DecisionStatus}
    (one : DecisionAt marketId db.decisions decisionId status) :
    hasDecision db marketId = true := by
  obtain ⟨row, found, mine, _⟩ := one
  exact List.any_eq_true.mpr ⟨row, Table.get?_mem_contents found, decide_eq_true mine⟩

theorem isPending_at {db : Db} {decisionId : ℕ} (pending : isPending db decisionId = true)
    (own : ∀ decision ∈ db.decisions.get? decisionId, decision.marketId = marketId) :
    DecisionAt marketId db.decisions decisionId .pendingApproval := by
  obtain ⟨row, found, status⟩ := (Option.any_eq_true _ _).mp pending
  exact ⟨row, found, own row found, of_decide_eq_true status⟩

theorem OthersIdle.of_ne (others : OthersIdle world index) {other : ℕ} (differs : other ≠ index)
    (found : world.flights[other]? = some flight) : awaits flight = false :=
  others other (List.getElem?_eq_some_iff.mp found).1 differs flight found

theorem idle_advance {stage : Interleaving.Stage}
    (idle : ∀ other ∈ world.flights, awaits other = false)
    (idleAfter : awaits { flight with stage } = false) :
    ∀ other ∈ world.advance index flight stage, awaits other = false := by
  intro other member
  rcases World.mem_advance member with old | rfl
  · exact idle other old
  · exact idleAfter

/-- The others are idle still when a flight has moved on. -/
theorem OthersIdle.advance {moved waiting : ℕ} {stage : Interleaving.Stage}
    (others : OthersIdle world waiting)
    (found : world.flights[moved]? = some flight)
    (idleAfter : moved ≠ waiting → awaits { flight with stage } = false) {position : ℕ}
    (differs : position ≠ waiting) {seen : Flight Db Job}
    (seenAt : (world.advance moved flight stage)[position]? = some seen) : awaits seen = false := by
  by_cases here : position = moved
  · subst here
    rw [World.advance_self found] at seenAt
    cases seenAt
    exact idleAfter differs
  · rw [World.advance_of_ne here] at seenAt
    exact others.of_ne differs seenAt

/-- A flight that is not awaited moves on, and stays that way. -/
theorem Ordered.advance {stage : Interleaving.Stage} (ordered : Ordered marketId world)
    (found : world.flights[index]? = some flight) (idleBefore : awaits flight = false)
    (idleAfter : awaits { flight with stage } = false) {next : World Db Job OrderRequest}
    (flights : next.flights = world.advance index flight stage) (sent : next.sent = world.sent)
    (decisions : next.shared.decisions = world.shared.decisions) : Ordered marketId next := by
  have stays : (∀ other ∈ world.flights, awaits other = false) →
      ∀ other ∈ next.flights, awaits other = false := by
    intro idle
    rw [flights]
    exact idle_advance idle idleAfter
  cases ordered with
  | none nothing idle => exact .none (sent.trans nothing) (stays idle)
  | executed idle approves once done =>
      exact .executed (stays idle) approves (sent.trans once) (decisions ▸ done)
  | @awaiting at' waiting _ _ foundWaiting waits others approves once pending =>
      have differs : at' ≠ index := by
        rintro rfl
        rw [found] at foundWaiting
        cases foundWaiting
        rw [idleBefore] at waits
        cases waits
      have foundNext : next.flights[at']? = some waiting := by
        rw [flights, World.advance_of_ne differs]
        exact foundWaiting
      refine .awaiting foundNext waits ?_ approves (sent.trans once) (decisions ▸ pending)
      intro other _ otherDiffers seen seenAt
      rw [flights] at seenAt
      exact others.advance found (fun _ => idleAfter) otherDiffers seenAt

/-- A check that is passed exclusively finds that no order has gone out. -/
theorem OneOrder.nothing_sent (one : OneOrder marketId world)
    (found : world.flights[index]? = some flight) (others : OthersIdle world index)
    (notYet : awaits flight = false)
    (free : ∀ decisionId, ¬ DecisionAt marketId world.shared.decisions decisionId .executed) :
    world.sent = [] ∧ ∀ other ∈ world.flights, awaits other = false := by
  cases one.ordered with
  | none nothing idle => exact ⟨nothing, idle⟩
  | executed _ _ _ done => exact absurd done (free _)
  | @awaiting at' _ _ _ foundWaiting waits _ _ _ _ =>
      by_cases same : at' = index
      · subst same
        rw [found] at foundWaiting
        cases foundWaiting
        rw [notYet] at waits
        cases waits
      · rw [others.of_ne same foundWaiting] at waits
        cases waits

theorem pending_free {decisionId : ℕ} (single : OneDecision marketId world.shared.decisions)
    (pending : DecisionAt marketId world.shared.decisions decisionId .pendingApproval) (other : ℕ) :
    ¬ DecisionAt marketId world.shared.decisions other .executed := by
  intro done
  cases single.unique pending done

section Decisions

variable {seen now : Db} {job : Job} {decisions : Table TradeDecision}

/-- Where a decision comes from: its market never changes. -/
theorem DecisionsMove.origin (move : DecisionsMove marketId seen now job decisions) {id : ℕ}
    {row : TradeDecision} (found : decisions.get? id = some row) :
    row.marketId = marketId ∨
      ∃ old, now.decisions.get? id = some old ∧ old.marketId = row.marketId := by
  have updated : ∀ {target : ℕ} {set : TradeDecision → TradeDecision},
      (now.decisions.update target set).get? id = some row →
      (∀ old, (set old).marketId = old.marketId) →
      ∃ old, now.decisions.get? id = some old ∧ old.marketId = row.marketId := by
    intro target set found same
    rw [Table.get?_update] at found
    split at found
    · obtain ⟨old, oldFound, rfl⟩ := Option.map_eq_some_iff.mp found
      exact ⟨old, oldFound, (same old).symm⟩
    · exact ⟨row, found, rfl⟩
  cases move with
  | same => exact .inr ⟨row, found, rfl⟩
  | built _ _ mine =>
      rw [Table.get?_insert] at found
      split at found
      · cases found
        exact .inl mine
      · exact .inr ⟨row, found, rfl⟩
  | rejected => exact .inr (updated found fun _ => rfl)
  | executed => exact .inr (updated found fun _ => rfl)

theorem DecisionsMove.asks {db next : Db} {other : Job}
    (move : DecisionsMove marketId seen db job next.decisions)
    (asks : other.asksFor marketId db) : other.asksFor marketId next := by
  have own : ∀ decisionId,
      (∀ decision ∈ db.decisions.get? decisionId, decision.marketId = marketId) →
      ∀ decision ∈ next.decisions.get? decisionId, decision.marketId = marketId := by
    intro decisionId before decision found
    rcases move.origin found with mine | ⟨old, oldFound, same⟩
    · exact mine
    · rw [← same, before old oldFound]
  cases other with
  | closeAndDecide => exact asks
  | request env asked =>
      cases asked with
      | createDecision => exact asks
      | approveDecision decisionId | rejectDecision decisionId => exact own decisionId asks
      | _ => cases asks

theorem OneDecision.update (single : OneDecision marketId decisions) {target : ℕ}
    {set : TradeDecision → TradeDecision} (same : ∀ old, (set old).marketId = old.marketId) :
    OneDecision marketId (decisions.update target set) := by
  have old : ∀ row ∈ (decisions.update target set).rows, row.2.marketId = marketId →
      ∃ before ∈ decisions.rows, before.1 = row.1 ∧ before.2.marketId = marketId := by
    intro row member mine
    obtain ⟨before, beforeMember, rfl⟩ := List.mem_map.mp member
    refine ⟨before, beforeMember, rfl, ?_⟩
    dsimp only at mine
    split at mine
    · rwa [same] at mine
    · exact mine
  intro row member other otherMember mine otherMine
  obtain ⟨first, firstMember, sameId, firstMine⟩ := old row member mine
  obtain ⟨second, secondMember, otherId, secondMine⟩ := old other otherMember otherMine
  rw [← sameId, ← otherId]
  exact single first firstMember second secondMember firstMine secondMine

theorem OneDecision.insert {db : Db} (free : hasDecision db marketId = false)
    (decision : TradeDecision) : OneDecision marketId (db.decisions.insert decision) := by
  have absent : ∀ row ∈ db.decisions.rows, row.2.marketId ≠ marketId := by
    intro row member mine
    have none := List.any_eq_false.mp free row.2 (List.mem_map_of_mem member)
    simp [mine] at none
  have new : ∀ row ∈ (db.decisions.insert decision).rows, row.2.marketId = marketId →
      row.1 = db.decisions.nextId := by
    intro row member mine
    rcases List.mem_append.mp member with old | fresh
    · exact absurd mine (absent row old)
    · rw [List.mem_singleton.mp fresh]
  intro row member other otherMember mine otherMine
  rw [new row member mine, new other otherMember otherMine]

end Decisions

variable {next : World Db Job OrderRequest} {act : Act Job}

theorem OneOrder.send (one : OneOrder marketId world)
    (found : world.flights[index]? = some flight) (stage : flight.stage = .read)
    (exclusive : jobs.sends flight.request flight.seen ≠ [] → Exclusive world index flight) :
    Ordered marketId
      { world with
        flights := world.advance index flight .sent
        sent := world.sent ++
          (jobs.sends flight.request flight.seen).map (Prod.mk flight.request) } := by
  have notYet : awaits flight = false := by simp [awaits, stage]
  by_cases called : jobs.sends flight.request flight.seen = []
  · have idleAfter : awaits { flight with stage := .sent } = false := by simp [awaits, called]
    exact one.ordered.advance found notYet idleAfter rfl (by simp [called]) rfl
  · obtain ⟨env, decisionId, adminId, order, approval, pending, sends⟩ := sends_approval called
    obtain ⟨asksSeen, asksNow, _⟩ := one.asks flight (List.mem_of_getElem? found)
    have passed : flight.request.passes flight.seen = true := by
      rw [approval]
      exact pending
    obtain ⟨stillPasses, others⟩ := exclusive called passed
    have pendingNow : DecisionAt marketId world.shared.decisions decisionId .pendingApproval := by
      rw [approval] at stillPasses asksNow
      exact isPending_at stillPasses asksNow
    obtain ⟨nothing, idle⟩ := one.nothing_sent found others notYet
      (pending_free one.single pendingNow)
    have once : world.sent ++ (jobs.sends flight.request flight.seen).map
        (Prod.mk flight.request) = [(flight.request, order)] := by
      rw [nothing, sends]
      rfl
    refine .awaiting (World.advance_self found) ?_ ?_ ?_ once pendingNow
    · simp [awaits, called]
    · intro other _ differs seen seenAt
      exact others.advance found (absurd rfl) differs seenAt
    · rw [approval]
      rfl

/-- A commit that executes nothing changes no decision, or meets a market without orders. -/
theorem OneOrder.decisions (one : OneOrder marketId world)
    (found : world.flights[index]? = some flight) (notYet : awaits flight = false)
    (silent : jobs.sends flight.request flight.seen = []) (exclusive : Exclusive world index flight)
    {decisions : Table TradeDecision}
    (move : DecisionsMove marketId flight.seen world.shared flight.request decisions) :
    OneDecision marketId decisions ∧ (decisions = world.shared.decisions ∨
      world.sent = [] ∧ ∀ other ∈ world.flights, awaits other = false) := by
  obtain ⟨_, asksNow, _⟩ := one.asks flight (List.mem_of_getElem? found)
  obtain ⟨job, seen, stage⟩ := flight
  cases move with
  | same => exact ⟨one.single, .inl rfl⟩
  | built passed checked mine =>
      obtain ⟨passesNow, others⟩ := exclusive passed
      have free := checked passesNow
      refine ⟨.insert free _, .inr (one.nothing_sent found others notYet fun decisionId done => ?_)⟩
      rw [done.hasDecision] at free
      cases free
  | @rejected env decisionId adminId reason passed =>
      obtain ⟨passesNow, others⟩ := exclusive passed
      have pendingNow := isPending_at passesNow asksNow
      exact ⟨one.single.update fun _ => rfl,
        .inr (one.nothing_sent found others notYet (pending_free one.single pendingNow))⟩
  | executed called => exact absurd silent called

/-- The approval that the broker has answered commits: its decision is executed. -/
theorem OneOrder.executes (one : OneOrder marketId world)
    (found : world.flights[index]? = some flight) (stage : flight.stage = .sent)
    (called : jobs.sends flight.request flight.seen ≠ []) :
    OneDecision marketId (jobs.commit flight.request flight.seen world.shared).decisions ∧
      Ordered marketId
        { world with
          flights := world.advance index flight .done
          shared := jobs.commit flight.request flight.seen world.shared } := by
  obtain ⟨_, _, answered⟩ := one.asks flight (List.mem_of_getElem? found)
  have idleAfter : awaits { flight with stage := .done } = false := by simp [awaits]
  have waits : awaits flight = true := by simp [awaits, stage, called]
  obtain ⟨env, decisionId, adminId, order, approval, _, _⟩ := sends_approval called
  cases one.ordered with
  | none _ idle | executed idle _ _ _ =>
      rw [idle flight (List.mem_of_getElem? found)] at waits
      cases waits
  | @awaiting at' waiting awaited _ foundWaiting _ others approves once pending =>
      have same : index = at' := by
        by_contra differs
        rw [others.of_ne differs found] at waits
        cases waits
      subst same
      rw [found] at foundWaiting
      cases foundWaiting
      have sameId : decisionId = awaited := by
        rw [approval] at approves
        exact Option.some.inj approves
      subst sameId
      have executes : (jobs.commit flight.request flight.seen world.shared).decisions =
          world.shared.decisions.update decisionId fun row => row.execute adminId env.now := by
        rw [approval] at answered called ⊢
        exact commit_executes called answered
      rw [executes]
      obtain ⟨row, rowFound, mine, _⟩ := pending
      refine ⟨one.single.update fun _ => rfl, .executed (fun other member => ?_) approves once ?_⟩
      · obtain ⟨position, seenAt⟩ := List.mem_iff_getElem?.mp member
        by_cases here : position = index
        · subst here
          rw [World.advance_self found] at seenAt
          cases seenAt
          exact idleAfter
        · exact others.advance found (fun _ => idleAfter) here seenAt
      · refine ⟨row.execute adminId env.now, ?_, mine, rfl⟩
        rw [executes, Table.get?_update, if_pos rfl, rowFound]
        rfl

theorem OneOrder.commit (one : OneOrder marketId world)
    (found : world.flights[index]? = some flight) (stage : flight.stage = .sent)
    (exclusive : Exclusive world index flight) :
    OneDecision marketId (jobs.commit flight.request flight.seen world.shared).decisions ∧
      Ordered marketId
        { world with
          flights := world.advance index flight .done
          shared := jobs.commit flight.request flight.seen world.shared } := by
  by_cases silent : jobs.sends flight.request flight.seen = []
  · obtain ⟨asksSeen, _, _⟩ := one.asks flight (List.mem_of_getElem? found)
    have notYet : awaits flight = false := by simp [awaits, silent]
    have idleAfter : awaits { flight with stage := .done } = false := by simp [awaits]
    obtain ⟨single, same | ⟨nothing, idle⟩⟩ :=
      one.decisions found notYet silent exclusive (commit_decisions asksSeen)
    · exact ⟨single, one.ordered.advance found notYet idleAfter rfl rfl same⟩
    · exact ⟨single, .none nothing (idle_advance idle idleAfter)⟩
  · exact one.executes found stage silent

/-- A request that has just read awaits nothing. -/
theorem Ordered.start (ordered : Ordered marketId world) (job : Job) :
    Ordered marketId
      { world with flights := world.flights ++ [⟨job, world.shared, .read⟩] } := by
  have idleAfter : awaits ⟨job, world.shared, .read⟩ = false := by simp [awaits]
  have stays : (∀ other ∈ world.flights, awaits other = false) →
      ∀ other ∈ world.flights ++ [⟨job, world.shared, .read⟩], awaits other = false := by
    intro idle other member
    rcases List.mem_append.mp member with old | new
    · exact idle other old
    · rw [List.mem_singleton.mp new]
      exact idleAfter
  cases ordered with
  | none nothing idle => exact .none nothing (stays idle)
  | executed idle approves once done => exact .executed (stays idle) approves once done
  | @awaiting at' waiting _ _ found waits others approves once pending =>
      have inside := (List.getElem?_eq_some_iff.mp found).1
      refine .awaiting ((List.getElem?_append_left inside).trans found) waits ?_ approves once
        pending
      intro other _ differs flight flightFound
      by_cases old : other < world.flights.length
      · rw [List.getElem?_append_left old] at flightFound
        exact others.of_ne differs flightFound
      · rw [List.getElem?_append_right (not_lt.mp old)] at flightFound
        rw [List.mem_singleton.mp (List.mem_of_getElem? flightFound)]
        exact idleAfter

theorem OneOrder.moves (one : OneOrder marketId world) (moves : Moves jobs world act next)
    (inTime : OrdersInTime world act) (asks : AsksFor marketId world act)
    (answered : Answered act) : OneOrder marketId next := by
  have flights : (∀ {job : Job}, job.asksFor marketId world.shared →
        job.asksFor marketId next.shared) →
      ∀ flight ∈ next.flights, flight.request.asksFor marketId flight.seen ∧
        flight.request.asksFor marketId next.shared ∧ flight.request.answered := by
    intro stillAsks
    refine moves.forall_flights (P := fun job seen => job.asksFor marketId seen ∧
      job.asksFor marketId next.shared ∧ job.answered) ?_ ?_
    · intro flight member
      obtain ⟨asksSeen, asksNow, answers⟩ := one.asks flight member
      exact ⟨asksSeen, stillAsks asksNow, answers⟩
    · rintro job rfl
      exact ⟨asks, stillAsks asks, answered⟩
  cases moves with
  | idle => exact one
  | @start job => exact ⟨one.single, flights id, one.ordered.start job⟩
  | @send index flight found stage =>
      exact ⟨one.single, flights id, one.send found stage fun called =>
        inTime flight found stage called⟩
  | @commit index flight found stage =>
      obtain ⟨single, ordered⟩ := one.commit found stage (inTime flight found stage)
      have own := (one.asks flight (List.mem_of_getElem? found)).1
      exact ⟨single, flights (commit_decisions own).asks, ordered⟩

theorem OneOrder.orderedOnce (one : OneOrder marketId world) : OrderedOnce world := by
  have kept : ∀ {job : Job} {order : OrderRequest} {decisionId : ℕ} {status : DecisionStatus},
      world.sent = [(job, order)] → job.approves = some decisionId → status ≠ .rejected →
      DecisionAt marketId world.shared.decisions decisionId status → OrderedOnce world := by
    intro job order decisionId status once approves notRejected decided
    refine ⟨by simp [once], fun entry member approved same decision found => ?_⟩
    rw [once, List.mem_singleton] at member
    subst member
    rw [Option.mem_def, approves] at same
    cases same
    obtain ⟨row, rowFound, _, rfl⟩ := decided
    rw [Option.mem_def, rowFound] at found
    cases found
    exact notRejected
  cases one.ordered with
  | none nothing _ => exact ⟨by simp [nothing], by simp [nothing]⟩
  | awaiting _ _ _ approves once pending => exact kept once approves (by decide) pending
  | executed _ approves once done => exact kept once approves (by decide) done

end Invariant

/-- However the requests on a market overlap: with exclusive broker calls and commits at
most one order goes out, and none for a rejected decision. -/
theorem orders_once {marketId : ℕ} {db : Db} (single : OneDecision marketId db.decisions)
    (acts : List (Act Job)) (asks : Along jobs (AsksFor marketId) (World.quiet db) acts)
    (answered : ∀ act ∈ acts, Answered act)
    (inTime : Along jobs OrdersInTime (World.quiet db) acts) :
    OrderedOnce (run jobs (World.quiet db) acts) := by
  have init : OneOrder marketId (World.quiet db) := by
    refine ⟨single, fun flight member => ?_, .none rfl fun flight member => ?_⟩ <;> cases member
  have allowed := inTime.and (asks.and (.of_forall (World.quiet db) answered))
  exact (Interleaving.run_invariant (fun world act next allowed moves one =>
    OneOrder.moves one moves allowed.1 allowed.2.1 allowed.2.2) init allowed).orderedOnce

def approval : Job := .request desk (.approveDecision 1 1)

theorem orders_once_serial :
    OrderedOnce (run jobs (World.quiet (stateAfter Db.empty pendingDecision))
      (Interleaving.serial 0 [approval, .request desk (.rejectDecision 1 1 "late")])) := by
  have single : OneDecision 1 (stateAfter Db.empty pendingDecision).decisions := by
    unfold OneDecision
    decide +kernel
  refine orders_once single _ (by decide +kernel) ?_ (by decide +kernel)
  simp only [Interleaving.serial, Interleaving.alone, List.forall_mem_append, List.forall_mem_cons]
  have numbered : ∃ brokerOrderNo,
      storedOrderNo { brokerOrderNo := some "1" } = .ok brokerOrderNo := ⟨some "1", rfl⟩
  exact ⟨⟨fun _ => ⟨_, rfl, numbered⟩, trivial, trivial, by simp⟩,
    ⟨fun _ => ⟨_, rfl, numbered⟩, trivial, trivial, by simp⟩, by simp⟩

/-- Two approvals read the decision while it is pending, and both send its order. -/
theorem orders_twice_overlapping :
    ¬ OrderedOnce (run jobs (World.quiet (stateAfter Db.empty pendingDecision))
      (overlapping approval approval)) := by
  intro ordered
  have twice : (run jobs (World.quiet (stateAfter Db.empty pendingDecision))
      (overlapping approval approval)).sent.length = 2 := by decide +kernel
  have once := ordered.once
  rw [twice] at once
  omega

end FundPolymarket
