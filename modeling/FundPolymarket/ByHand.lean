import FundPolymarket.Conservation

set_option autoImplicit false

/- The scheduler does nothing that requests could not do: every run of requests and ticks is a
run of requests alone. -/
namespace FundPolymarket

/-- A close, decide, resolve or settle request that returned, at the time of a tick and with what
the broker told the tick. -/
def Step.MadeFor (tick : Event) (s : Step) : Prop :=
  ∃ settings now broker closing resolving call request,
    tick = .tick settings now broker closing resolving ∧
      s.event = .request ⟨settings, now, broker call⟩ request ∧
      request.scheduled = true ∧ s.served.result = .ok ()

def sentOrders (steps : List Step) : List OrderRequest := steps.flatMap Step.sent

theorem sentOrders_append (first second : List Step) :
    sentOrders (first ++ second) = sentOrders first ++ sentOrders second :=
  List.flatMap_append

/-- A run of requests in place of a run with ticks. -/
structure DoneByHand (start : Db) (events manual : List Event) : Prop where
  requests : ∀ event ∈ manual, event.isRequest = true
  asked : ((stepsFrom start events).filter fun s => s.event.isRequest).Sublist
    (stepsFrom start manual)
  added : ∀ s ∈ stepsFrom start manual,
    s ∈ stepsFrom start events ∨ ∃ tick ∈ events, s.MadeFor tick
  state : stateAfter start manual = stateAfter start events
  sent : sentOrders (stepsFrom start manual) = sentOrders (stepsFrom start events)

theorem Step.MadeFor.sent_eq_nil {tick : Event} {s : Step} (made : s.MadeFor tick) :
    s.sent = [] := by
  obtain ⟨settings, now, broker, closing, resolving, call, request, _, same, scheduled, _⟩ := made
  refine List.eq_nil_iff_forall_not_mem.mpr fun sent member => ?_
  obtain ⟨env, decisionId, adminId, decision, prepared, approval, _⟩ := Step.sent_approval member
  rw [same] at approval
  cases approval
  cases scheduled

theorem Step.MadeFor.isRequest {tick : Event} {s : Step} (made : s.MadeFor tick) :
    s.event.isRequest = true := by
  obtain ⟨_, _, _, _, _, _, _, _, same, _⟩ := made
  rw [same]
  rfl

theorem sentOrders_madeFor {tick : Event} {steps : List Step}
    (made : ∀ s ∈ steps, s.MadeFor tick) : sentOrders steps = [] := by
  apply List.flatMap_eq_nil_iff.mpr
  intro s member
  exact (made s member).sent_eq_nil

/-- The requests that a tick stands for. -/
theorem tick_by_hand (settings : Settings) (now : Time) (broker : TickCall → Broker)
    (closing resolving : RowOrder) (db : Db) :
    ∃ calls, (∀ s ∈ stepsFrom db calls, s.MadeFor (.tick settings now broker closing resolving)) ∧
      stateAfter db calls = tick settings now broker closing resolving db := by
  refine @tick_induction settings now broker db (fun next => ∃ calls,
    (∀ s ∈ stepsFrom db calls, s.MadeFor (.tick settings now broker closing resolving)) ∧
      stateAfter db calls = next) closing resolving
      ⟨[], List.forall_mem_nil _, rfl⟩ ?_
  rintro call request before next scheduled committed ⟨calls, made, rfl⟩
  refine ⟨calls ++ [.request ⟨settings, now, broker call⟩ request], ?_, ?_⟩
  · intro s member
    rw [stepsFrom_append] at member
    rcases List.mem_append.mp member with early | last
    · exact made s early
    · rw [List.mem_singleton.mp last]
      exact ⟨settings, now, broker, closing, resolving, call, request, rfl, rfl, scheduled,
        committed.returned⟩
  · rw [stateAfter_append]
    exact committed.state

/-- The events of the steps are the events of the run. -/
theorem stepsFrom_map_event (start : Db) (events : List Event) :
    (stepsFrom start events).map Step.event = events := by
  induction events generalizing start with
  | nil => rfl
  | cons event events ih => exact congrArg _ (ih (event.serve start).db)

section Expansion

variable {start : Db} {events manual : List Event}

theorem DoneByHand.request {env : Env} {request : Request}
    (done : DoneByHand (serve env request start).db events manual) :
    DoneByHand start (.request env request :: events) (.request env request :: manual) where
  requests := by
    intro event member
    rcases List.mem_cons.mp member with rfl | later
    · rfl
    · exact done.requests event later
  asked := done.asked.cons_cons _
  added := by
    intro s member
    rcases List.mem_cons.mp member with rfl | later
    · exact .inl List.mem_cons_self
    · rcases done.added s later with own | ⟨tick, listed, made⟩
      · exact .inl (List.mem_cons_of_mem _ own)
      · exact .inr ⟨tick, List.mem_cons_of_mem _ listed, made⟩
  state := done.state
  sent := congrArg ((serve env request start).sent ++ ·) done.sent

theorem DoneByHand.tick {settings : Settings} {now : Time} {broker : TickCall → Broker}
    {closing resolving : RowOrder} {calls : List Event}
    (made : ∀ s ∈ stepsFrom start calls, s.MadeFor (.tick settings now broker closing resolving))
    (reached : stateAfter start calls =
      FundPolymarket.tick settings now broker closing resolving start)
    (done : DoneByHand (FundPolymarket.tick settings now broker closing resolving start) events
      manual) :
    DoneByHand start (.tick settings now broker closing resolving :: events)
      (calls ++ manual) where
  requests := by
    intro event member
    rcases List.mem_append.mp member with early | later
    · rw [← stepsFrom_map_event start calls] at early
      obtain ⟨s, listed, rfl⟩ := List.mem_map.mp early
      exact (made s listed).isRequest
    · exact done.requests event later
  asked := by
    rw [stepsFrom_append, reached]
    exact done.asked.trans (List.sublist_append_right _ _)
  added := by
    intro s member
    rw [stepsFrom_append, reached] at member
    rcases List.mem_append.mp member with early | later
    · exact .inr ⟨_, List.mem_cons_self, made s early⟩
    · rcases done.added s later with own | ⟨tick, listed, made⟩
      · exact .inl (List.mem_cons_of_mem _ own)
      · exact .inr ⟨tick, List.mem_cons_of_mem _ listed, made⟩
  state := by
    rw [stateAfter_append, reached]
    exact done.state
  sent := by
    rw [stepsFrom_append, reached, sentOrders_append, sentOrders_madeFor made, done.sent]
    rfl

end Expansion

/-- Every run of requests and ticks is a run of requests alone: it has the same requests, which
find the same states, and, in place of every tick, close, decide, resolve and settle requests
that return; it ends in the same state and sends the same orders. -/
theorem ticks_are_requests (start : Db) (events : List Event) :
    ∃ manual, DoneByHand start events manual := by
  induction events generalizing start with
  | nil => exact ⟨[], List.forall_mem_nil _, .slnil, List.forall_mem_nil _, rfl, rfl⟩
  | cons event events ih =>
      cases event with
      | request env request =>
          obtain ⟨manual, done⟩ := ih (serve env request start).db
          exact ⟨_, done.request⟩
      | tick settings now broker closing resolving =>
          obtain ⟨manual, done⟩ := ih (tick settings now broker closing resolving start)
          obtain ⟨calls, made, reached⟩ :=
            tick_by_hand settings now broker closing resolving start
          exact ⟨_, done.tick made reached⟩

end FundPolymarket
