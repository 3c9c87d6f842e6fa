import FundPolymarket.Requests

set_option autoImplicit false

/- Runs of requests and ticks. A tick commits what some sequence of close, decide,
resolve and settle requests would commit, so an invariant of the requests is an
invariant of every run. -/
namespace FundPolymarket

/-- A request that ends in a commit of the given state. -/
structure Committed (env : Env) (request : Request) (db next : Db) : Prop where
  returned : (serve env request db).result = .ok ()
  state : (serve env request db).db = next

theorem committed_of_handle {env : Env} {request : Request} {db next : Db} {writes : List Write}
    (handled : handle env db request = .ofService (.ok writes))
    (applied : applyWrites db writes = .ok next) : Committed env request db next := by
  have served : serve env request db = ⟨next, [], .ok ()⟩ := by
    unfold serve endRequest Session.flush
    rw [handled]
    simp only [Handled.ofService, Session.begin, applied]
    rfl
  exact ⟨by rw [served], by rw [served]⟩

theorem Committed.commits {env : Env} {request : Request} {db next : Db}
    (committed : Committed env request db next) :
    ∃ writes, Commits env db request writes ∧ applyWrites db writes = .ok next := by
  rcases serve_cases env request db with ⟨_, exc, failed⟩ | ⟨_, writes, commits, applied⟩
  · rw [committed.returned] at failed
    cases failed
  · exact ⟨writes, commits, committed.state ▸ applied⟩

/-- The four requests that the scheduler makes by itself. -/
def Request.scheduled : Request → Bool
  | .closeMarket _ | .createDecision _ | .resolveMarket _ | .settleMarket _ => true
  | _ => false

section Ticks

variable {settings : Settings} {now : Time} {broker : TickCall → Broker} {marketId : ℕ}
  {db next : Db}

theorem closeAndDecide_committed
    (success : closeAndDecide settings now broker marketId db = .ok next) :
    ∃ closed,
      Committed ⟨settings, now, broker (.close marketId)⟩ (.closeMarket marketId) db closed ∧
      Committed ⟨settings, now, broker (.build marketId)⟩ (.createDecision marketId) closed
        next := by
  obtain ⟨market, found, rest⟩ := bind_eq_ok.mp success
  obtain ⟨closed, closedOk, rest⟩ := bind_eq_ok.mp rest
  obtain ⟨closing, closingOk, applied⟩ := bind_eq_ok.mp closedOk
  obtain ⟨reread, refound, rest⟩ := bind_eq_ok.mp rest
  obtain ⟨building, buildingOk, built⟩ := bind_eq_ok.mp rest
  refine ⟨closed, committed_of_handle ?_ applied, committed_of_handle ?_ built⟩
  · exact congrArg Handled.ofService (bind_eq_ok.mpr ⟨market, found, closingOk⟩)
  · exact congrArg Handled.ofService (bind_eq_ok.mpr ⟨reread, refound, buildingOk⟩)

theorem resolveAndSettle_committed
    (success : resolveAndSettle settings now broker marketId db = .ok next) :
    ∃ resolved,
      Committed ⟨settings, now, broker (.resolve marketId)⟩ (.resolveMarket marketId) db resolved ∧
      Committed ⟨settings, now, broker (.resolve marketId)⟩ (.settleMarket marketId) resolved
        next := by
  obtain ⟨market, found, rest⟩ := bind_eq_ok.mp success
  obtain ⟨resolved, resolvedOk, rest⟩ := bind_eq_ok.mp rest
  obtain ⟨resolving, resolvingOk, applied⟩ := bind_eq_ok.mp resolvedOk
  obtain ⟨reread, refound, rest⟩ := bind_eq_ok.mp rest
  obtain ⟨settling, settlingOk, settled⟩ := bind_eq_ok.mp rest
  refine ⟨resolved, committed_of_handle ?_ applied, committed_of_handle ?_ settled⟩
  · exact congrArg Handled.ofService (bind_eq_ok.mpr ⟨market, found, resolvingOk⟩)
  · exact congrArg Handled.ofService (bind_eq_ok.mpr ⟨reread, refound, settlingOk⟩)

/-- What closing and deciding keep is kept by the first loop. -/
theorem closeLoop_induction {motive : Db → Prop} (closing : RowOrder) (start : motive db)
    (step : ∀ call marketId request db next,
      request = .closeMarket marketId ∨ request = .createDecision marketId →
      Committed ⟨settings, now, broker call⟩ request db next → motive db → motive next) :
    motive (closeLoop settings now broker closing db) := by
  refine sweep_induction start start ?_
  intro key _ state after held success
  obtain ⟨closed, closeOk, buildOk⟩ := closeAndDecide_committed success
  exact step _ key _ _ _ (.inr rfl) buildOk (step _ key _ _ _ (.inl rfl) closeOk held)

/-- What every scheduled request keeps is kept by a tick. -/
theorem tick_induction {motive : Db → Prop} (closing resolving : RowOrder) (start : motive db)
    (step : ∀ call request db next, request.scheduled = true →
      Committed ⟨settings, now, broker call⟩ request db next → motive db → motive next) :
    motive (tick settings now broker closing resolving db) := by
  have closes : motive (closeLoop settings now broker closing db) := by
    refine closeLoop_induction closing start ?_
    rintro call marketId request db next (rfl | rfl) committed held
    · exact step call _ db next rfl committed held
    · exact step call _ db next rfl committed held
  unfold tick
  split
  · exact closes
  refine sweep_induction closes closes ?_
  intro key _ state after held success
  obtain ⟨resolved, resolveOk, settleOk⟩ := resolveAndSettle_committed success
  exact step _ _ _ _ rfl settleOk (step _ _ _ _ rfl resolveOk held)

end Ticks

/-- Only approvals send orders. -/
theorem Step.sent_approval {step : Step} {sent : OrderRequest} (member : sent ∈ step.sent) :
    ∃ env decisionId adminId decision prepared,
      step.event = .request env (.approveDecision decisionId adminId) ∧
        Sends env step.pre (.approveDecision decisionId adminId) sent decisionId decision
          prepared := by
  obtain ⟨event, pre⟩ := step
  cases event with
  | tick => cases member
  | request env request =>
      rw [Step.sent, Step.served, Event.serve, serve_sent] at member
      obtain ⟨decisionId, decision, prepared, sends⟩ := handle_sent member
      obtain ⟨adminId, rfl⟩ := sends.approval
      exact ⟨env, decisionId, adminId, decision, prepared, rfl, sends⟩

/-- A condition on the requests of a run; ticks are always allowed. -/
def Step.Meets (allowed : Env → Request → Db → Prop) (step : Step) : Prop :=
  match step.event with
  | .request env request => allowed env request step.pre
  | .tick _ _ _ _ _ => True

instance (allowed : Env → Request → Db → Prop)
    [∀ env request db, Decidable (allowed env request db)] (step : Step) :
    Decidable (step.Meets allowed) :=
  match step with
  | ⟨.request env request, pre⟩ => inferInstanceAs (Decidable (allowed env request pre))
  | ⟨.tick _ _ _ _ _, _⟩ => .isTrue trivial

theorem Step.meets_anything (step : Step) : step.Meets fun _ _ _ => True := by
  obtain ⟨event, pre⟩ := step
  cases event <;> trivial

/-- What is assumed of every answer of the broker. -/
def Event.Trusts (trusted : Broker → Prop) : Event → Prop
  | .request env _ => trusted env.broker
  | .tick _ _ broker _ _ => ∀ call, trusted (broker call)

theorem trusts_anything (event : Event) : event.Trusts fun _ => True := by
  cases event with
  | request => trivial
  | tick => exact fun _ => trivial

theorem stepsFrom_event {start : Db} {events : List Event} {step : Step}
    (member : step ∈ stepsFrom start events) : step.event ∈ events := by
  obtain ⟨before, after, rfl, _⟩ := stepsFrom_split member
  simp

/-- What every commit keeps is kept by a request and by a tick. -/
theorem committed_invariant {trusted : Broker → Prop} {invariant : Db → Prop}
    (step : ∀ env request db next, trusted env.broker → Committed env request db next →
      invariant db → invariant next)
    {event : Event} (trust : event.Trusts trusted) {db : Db} (held : invariant db) :
    invariant (event.serve db).db := by
  cases event with
  | request env request =>
      rcases serve_cases env request db with ⟨same, _⟩ | ⟨returned, _⟩
      · rwa [Event.serve, same]
      · exact step env request db _ trust ⟨returned, rfl⟩ held
  | tick settings now broker closing resolving =>
      refine tick_induction closing resolving held ?_
      intro call request db next _ committed before
      exact step _ request db next (trust call) committed before

/-- What every allowed commit keeps holds in every state of a run whose requests are
allowed and whose broker is trusted. -/
theorem requests_invariant {allowed : Env → Request → Db → Prop} {trusted : Broker → Prop}
    {invariant : Db → Prop} {start : Db}
    (scheduled : ∀ env request db, request.scheduled = true → trusted env.broker →
      allowed env request db)
    (step : ∀ env request db writes next, allowed env request db → trusted env.broker →
      Commits env db request writes → applyWrites db writes = .ok next → invariant db →
      invariant next)
    (init : invariant start) (events : List Event)
    (trust : ∀ event ∈ events, event.Trusts trusted)
    (conditions : ∀ s ∈ stepsFrom start events, s.Meets allowed) :
    invariant (stateAfter start events) := by
  have served : ∀ env request db, allowed env request db → trusted env.broker → invariant db →
      invariant (serve env request db).db := by
    intro env request db permitted sound held
    rcases serve_cases env request db with ⟨same, _⟩ | ⟨_, writes, committed, applied⟩
    · rwa [same]
    · exact step env request db writes _ permitted sound committed applied held
  refine run_invariant (fun s => s.Meets allowed ∧ s.event.Trusts trusted) init ?_ events
    fun s member => ⟨conditions s member, trust _ (stepsFrom_event member)⟩
  rintro ⟨event, pre⟩ ⟨condition, sound⟩ held
  cases event with
  | request env asked => exact served env asked pre condition sound held
  | tick settings now broker closing resolving =>
      refine tick_induction closing resolving held ?_
      intro call request db next isScheduled committed before
      rw [← committed.state]
      exact served _ request db (scheduled _ request db isScheduled (sound call)) (sound call)
        before

/-- A desk with default settings in the regular session of a Tuesday, and a broker
that quotes 50,000. -/
def desk : Env := { settings := {}, now := 1704155400000000, broker := .steady 50000 10000000 [] }

/-- One market, on which the only member has staked 100 points on BUY. -/
def openedMarket : List Event :=
  [.request desk (.createMember { email := "a@example.com", name := "a" }),
    .request desk (.createFund "fund" "1" "KIS"),
    .request desk (.createMarket
      { fundId := 1, title := "t", ticker := "005930", closesAt := desk.now + 1,
        resolveAt := desk.now + 2, notionalKrw := 100000 } 1),
    .request desk (.putAllocation 1 1 ⟨[(.buy, 100)], by decide⟩ none)]

/-- The same market with a decision that waits for approval. -/
def pendingDecision : List Event :=
  openedMarket ++ [.request desk (.closeMarket 1), .request desk (.createDecision 1)]

theorem pendingDecision_trusts {trusted : Broker → Prop} (trust : trusted desk.broker) :
    ∀ event ∈ pendingDecision, event.Trusts trusted := by
  intro event member
  simp only [pendingDecision, openedMarket, List.cons_append, List.nil_append, List.mem_cons,
    List.not_mem_nil, or_false] at member
  rcases member with rfl | rfl | rfl | rfl | rfl | rfl <;> exact trust

end FundPolymarket
