import FundPolymarket.Runs

set_option autoImplicit false

/- Approvals that fail. What the failed execution has flushed goes with the session,
so the decision can be approved again. -/
namespace FundPolymarket

/-- What went to the broker in a run. -/
def ordersSent (db : Db) (events : List Event) : List OrderRequest :=
  (stepsFrom db events).flatMap Step.sent

/-- A failed approval has left a trace, and no sequence of approvals that follows it
sends a second order for the decision. -/
structure FailureKept (env : Env) (db : Db) (decisionId adminId : ℕ) (exc : AppError) :
    Prop where
  order : ∃ order ∈ (serve env (.approveDecision decisionId adminId) db).db.orders.contents,
    order.decisionId = some decisionId ∧ order.status = .rejected ∧
      order.errorMessage = some exc.text
  decision : ∃ decision,
    (serve env (.approveDecision decisionId adminId) db).db.decisions.get? decisionId =
      some decision ∧ decision.status = .failed
  once : ∀ later : List (Env × ℕ),
    (ordersSent db ((env, adminId) :: later |>.map fun approval =>
      .request approval.1 (.approveDecision decisionId approval.2))).length ≤ 1

variable {env : Env} {db : Db} {decisionId adminId : ℕ} {decision : TradeDecision}
  {prepared : Prepared} {exc : AppError}

theorem serve_of_error {request : Request} (failed : (serve env request db).result = .error exc) :
    (serve env request db).db = db := by
  rcases serve_cases env request db with ⟨same, _⟩ | ⟨returned, _⟩
  · exact same
  · rw [returned] at failed
    cases failed

/-- Whatever the broker answers, an approval that passes the checks sends its order. -/
theorem serve_approval_sent (found : db.decisions.get? decisionId = some decision)
    (success : prepareOrder env.settings db decisionId decision env.broker env.now = .ok prepared)
    (allowed : prepared.verdict.allowed = true) :
    (serve env (.approveDecision decisionId adminId) db).sent =
      [orderRequest decision prepared] := by
  rw [serve_sent, handle, approveDecision_found (getDecision_eq_ok.mpr found)]
  cases executeDecision_ends success adminId with
  | blocked refused =>
      rw [allowed] at refused
      cases refused
  | failed _ once _ _ | unnumbered _ once _ _ _ | submitted _ once _ _ _ _ => exact once

/-- An event that changes nothing sends the same requests each time. -/
theorem ordersSent_replicate {event : Event} (same : (event.serve db).db = db) (n : ℕ) :
    ordersSent db (List.replicate n event) =
      (List.replicate n (event.serve db).sent).flatten := by
  induction n with
  | zero => rfl
  | succ n ih =>
      rw [List.replicate_succ, List.replicate_succ, List.flatten_cons, ← ih, ordersSent, stepsFrom,
        List.flatMap_cons, same]
      rfl

/-- A failed approval leaves nothing behind: the decision is still pending, and every
repetition sends the order again. -/
theorem failed_approval_lost (found : db.decisions.get? decisionId = some decision)
    (success : prepareOrder env.settings db decisionId decision env.broker env.now = .ok prepared)
    (failed : (serve env (.approveDecision decisionId adminId) db).result = .error exc) :
    ¬ FailureKept env db decisionId adminId exc ∧
      (serve env (.approveDecision decisionId adminId) db).db = db ∧
      (prepared.verdict.allowed = true → ∀ n,
        ordersSent db (List.replicate n (.request env (.approveDecision decisionId adminId))) =
          List.replicate n (orderRequest decision prepared)) := by
  have unchanged := serve_of_error failed
  refine ⟨?_, unchanged, ?_⟩
  · intro kept
    obtain ⟨after, afterFound, status⟩ := kept.decision
    rw [unchanged, found] at afterFound
    cases afterFound
    rw [(prepareOrder_eq_ok success).pending] at status
    cases status
  · intro allowed n
    have stays : ((Event.request env (.approveDecision decisionId adminId)).serve db).db = db :=
      unchanged
    have sent : ((Event.request env (.approveDecision decisionId adminId)).serve db).sent =
        [orderRequest decision prepared] := serve_approval_sent found success allowed
    rw [ordersSent_replicate stays, sent]
    exact List.flatten_replicate_singleton

/-- The broker accepts the order, but its answer is lost. -/
def timeoutDesk : Env :=
  { desk with broker := { desk.broker with placeOrder := fun _ => .error (.broker "timeout") } }

theorem failed_approval_lost_timeout : ∃ decision prepared,
    ¬ FailureKept timeoutDesk (stateAfter Db.empty pendingDecision) 1 1 (.broker "timeout") ∧
      ∀ n, ordersSent (stateAfter Db.empty pendingDecision)
        (List.replicate n (.request timeoutDesk (.approveDecision 1 1))) =
          List.replicate n (orderRequest decision prepared) := by
  obtain ⟨decision, found, prepared, success, allowed⟩ :
      ∃ decision ∈ (stateAfter Db.empty pendingDecision).decisions.get? 1,
        ∃ prepared ∈ (prepareOrder timeoutDesk.settings (stateAfter Db.empty pendingDecision) 1
          decision timeoutDesk.broker timeoutDesk.now).toOption,
          prepared.verdict.allowed = true := by
    decide +kernel
  have failed : (serve timeoutDesk (.approveDecision 1 1)
      (stateAfter Db.empty pendingDecision)).result = .error (.broker "timeout") := by
    decide +kernel
  have lost := failed_approval_lost found (toOption_eq_some.mp success) failed
  exact ⟨decision, prepared, lost.1, lost.2.2 allowed⟩

/-- After the failed approval the decision is still pending. -/
theorem failure_not_kept_timeout :
    ¬ FailureKept timeoutDesk (stateAfter Db.empty pendingDecision) 1 1 (.broker "timeout") := by
  intro kept
  obtain ⟨decision, found, status⟩ := kept.decision
  have pending : ((serve timeoutDesk (.approveDecision 1 1)
      (stateAfter Db.empty pendingDecision)).db.decisions.get? 1).map TradeDecision.status =
        some .pendingApproval := by decide +kernel
  rw [found, Option.map_some, status] at pending
  cases pending

end FundPolymarket
