import FundPolymarket.RiskGate
import FundPolymarket.SlidingWindow

set_option autoImplicit false

/- The daily order limit over a whole run. The check looks back from each approval; the
limit holds for every window of 24 hours, as long as every accepted order leaves its row. -/
namespace FundPolymarket

open SlidingWindow (Admitted recent within)

/-- The fund that a decision trades for. -/
def tradingFund (db : Db) (decisionId : ℕ) : Option ℕ := do
  let decision ← db.decisions.get? decisionId
  let market ← db.markets.get? decision.marketId
  pure market.fundId

/-- The times of the requests that the broker accepts. A broker that raises has placed
nothing. -/
def placed (env : Env) (sent : List OrderRequest) : List Time :=
  (sent.filter fun order => (env.broker.placeOrder order).isOk).map fun _ => env.now

/-- The times of the orders of a fund that the broker accepts in a step. -/
def Step.accepted (fundId : ℕ) (step : Step) : List Time :=
  match step.event with
  | .request env (.approveDecision decisionId _) =>
      if tradingFund step.pre decisionId = some fundId then placed env step.sent else []
  | _ => []

def acceptedTimes (fundId : ℕ) (steps : List Step) : List Time :=
  steps.flatMap (Step.accepted fundId)

/-- The number that the broker gives the order of an approval fits its column. -/
def NumberFits (env : Env) : Request → Db → Prop
  | .approveDecision decisionId _, db =>
      ∀ decision ∈ db.decisions.get? decisionId,
        ∀ prepared ∈ (prepareOrder env.settings db decisionId decision env.broker
            env.now).toOption, prepared.verdict.allowed = true →
          ∀ result ∈ (env.broker.placeOrder (orderRequest decision prepared)).toOption,
            ∀ number ∈ result.brokerOrderNo, StorableText 50 number
  | _, _ => True

instance (env : Env) (request : Request) (db : Db) : Decidable (NumberFits env request db) := by
  cases request <;> unfold NumberFits <;> infer_instance

theorem storedOrderNo_of_fits {result : OrderResult}
    (fits : ∀ number ∈ result.brokerOrderNo, StorableText 50 number) :
    ∃ brokerOrderNo, storedOrderNo result = .ok brokerOrderNo := by
  cases given : result.brokerOrderNo with
  | none => exact ⟨none, by rw [storedOrderNo, given]; rfl⟩
  | some number =>
      have storable := fits number given
      exact ⟨_, by
        rw [storedOrderNo, given, Option.mapM_some, storeText, if_pos storable]
        rfl⟩

/-- What the broker accepts for a fund in a step: nothing, or the order of an approval
that then commits. -/
inductive Accepts (fundId : ℕ) (step : Step) : Prop where
  | nothing (nothing : step.accepted fundId = [])
  | order {env : Env} {decisionId adminId : ℕ} {decision : TradeDecision} {prepared : Prepared}
      {result : OrderResult} {brokerOrderNo : Option String}
      (event : step.event = .request env (.approveDecision decisionId adminId))
      (executed : Executed env step.pre decisionId decision prepared result)
      (trades : prepared.market.fundId = fundId) (once : step.accepted fundId = [env.now])
      (applied : applyWrites step.pre
        (successWrites decisionId decision adminId env.now prepared brokerOrderNo) = .ok step.post)

theorem placed_of_error {env : Env} {order : OrderRequest} {exc : AppError}
    (answer : env.broker.placeOrder order = .error exc) : placed env [order] = [] := by
  simp [placed, answer, Except.isOk, Except.toBool]

theorem placed_of_ok {env : Env} {order : OrderRequest} {result : OrderResult}
    (answer : env.broker.placeOrder order = .ok result) : placed env [order] = [env.now] := by
  simp [placed, answer, Except.isOk, Except.toBool]

theorem accepted_approval {env : Env} {pre : Db} {decisionId adminId fundId : ℕ}
    (trades : tradingFund pre decisionId = some fundId) :
    (⟨.request env (.approveDecision decisionId adminId), pre⟩ : Step).accepted fundId =
      placed env (approveDecision env pre decisionId adminId).sent := by
  have sent := serve_sent env (.approveDecision decisionId adminId) pre
  exact (if_pos trades).trans (congrArg (placed env) sent)

theorem Step.accepts (fundId : ℕ) (step : Step) (fits : step.Meets NumberFits) :
    Accepts fundId step := by
  obtain ⟨event, pre⟩ := step
  cases event with
  | tick => exact .nothing rfl
  | request env request =>
      cases request with
      | approveDecision decisionId adminId =>
          by_cases trades : tradingFund pre decisionId = some fundId
          swap
          · exact .nothing (if_neg trades)
          cases approveDecision_ends env pre decisionId adminId with
          | stopped silent _ => exact .nothing (by rw [accepted_approval trades, silent]; rfl)
          | failed _ once answer _ =>
              exact .nothing (by rw [accepted_approval trades, once, placed_of_error answer])
          | unnumbered sends _ answer unstorable _ =>
              obtain ⟨brokerOrderNo, numbered⟩ := storedOrderNo_of_fits <|
                fits _ sends.found _ (toOption_eq_some.mpr sends.prepared_eq) sends.allowed _
                  (toOption_eq_some.mpr answer)
              rw [numbered] at unstorable
              cases unstorable
          | @submitted decision prepared _ brokerOrderNo sends once answer _ flushed ended =>
              obtain ⟨next, applied⟩ := applyWrites_unconstrained pre <|
                @successWrites_unconstrained decisionId decision adminId env.now prepared
                  brokerOrderNo
              have found := (prepareOrder_eq_ok sends.prepared_eq).found
              refine @Accepts.order _ _ env decisionId adminId decision prepared _ brokerOrderNo
                rfl ⟨sends.found, sends.prepared_eq, sends.allowed, answer⟩ ?_ ?_ ?_
              · simpa [tradingFund, sends.found, found] using trades
              · rw [accepted_approval trades, once, placed_of_ok answer]
              · rw [applied]
                exact congrArg _ (endRequest_eq_ok (flushed ▸ applied) ended).symm
      | _ => exact .nothing rfl

/-- No order is ever taken out of the count. -/
theorem orders_grow (event : Event) (db : Db) :
    ∃ added, (event.serve db).db.orders.contents = db.orders.contents ++ added := by
  have grows : ∀ env request db, ∃ added,
      (serve env request db).db.orders.contents = db.orders.contents ++ added := by
    intro env request db
    rcases serve_cases env request db with ⟨same, _⟩ | ⟨_, writes, _, applied⟩
    · exact ⟨[], by rw [same, List.append_nil]⟩
    · exact ⟨_, applyWrites_contents applied .orders rfl⟩
  cases event with
  | request env request => exact grows env request db
  | tick settings now broker closing resolving =>
      refine tick_induction (motive := fun later => ∃ added,
        later.orders.contents = db.orders.contents ++ added) closing resolving
          ⟨[], (List.append_nil _).symm⟩ ?_
      rintro call request before next _ committed ⟨earlier, same⟩
      obtain ⟨added, grown⟩ := grows ⟨settings, now, broker call⟩ request before
      exact ⟨earlier ++ added, by rw [← committed.state, grown, same, List.append_assoc]⟩

theorem dailyOrderCount_le (event : Event) (db : Db) (fundId : ℕ) (now : Time) :
    dailyOrderCount db fundId now ≤ dailyOrderCount (event.serve db).db fundId now := by
  obtain ⟨added, grown⟩ := orders_grow event db
  rw [dailyOrderCount, dailyOrderCount, grown, List.filter_append, List.length_append]
  exact Nat.le_add_right _ _

/-- The order of an accepted approval counts for the fund from its own time on. -/
theorem dailyOrderCount_submitted {env : Env} {db next : Db} {decisionId adminId : ℕ}
    {decision : TradeDecision} {prepared : Prepared} {result : OrderResult}
    {brokerOrderNo : Option String}
    (executed : Executed env db decisionId decision prepared result)
    (applied : applyWrites db
      (successWrites decisionId decision adminId env.now prepared brokerOrderNo) = .ok next)
    (now : Time) :
    dailyOrderCount next prepared.market.fundId now =
      dailyOrderCount db prepared.market.fundId now +
        (recent microsPerDay now [env.now]).length := by
  obtain ⟨fund, created⟩ := prepareOrder_order executed.prepared_eq
  obtain ⟨order, rows, fundId, createdAt, status⟩ : ∃ order : Order,
      next.orders.contents = db.orders.contents ++ [order] ∧
        order.fundId = prepared.market.fundId ∧ order.createdAt = env.now ∧
        order.status = .submitted :=
    ⟨_, applyWrites_contents applied .orders rfl, fund, created, rfl⟩
  rw [dailyOrderCount, dailyOrderCount, rows, List.filter_append, List.length_append]
  congr 1
  by_cases counts : now - microsPerDay ≤ env.now
  · rw [recent, List.filter_cons_of_pos (by simpa [fundId, createdAt, status] using counts),
      List.filter_cons_of_pos (by simpa using counts)]
    rfl
  · rw [recent, List.filter_cons_of_neg (by simpa [fundId, createdAt, status] using counts),
      List.filter_cons_of_neg (by simpa using counts)]
    rfl

/-- What is known along a run: every accepted order found room, and the check counts
all of them. -/
structure Capped (cap : ℤ) (fundId : ℕ) (steps : List Step) (db : Db) : Prop where
  admitted : Admitted microsPerDay cap.toNat (acceptedTimes fundId steps)
  counted : ∀ now, (recent microsPerDay now (acceptedTimes fundId steps)).length ≤
    dailyOrderCount db fundId now

/-- The limit that the settings of a request put on the orders of a day. -/
def CappedAt (cap : ℤ) (env : Env) (_request : Request) (_db : Db) : Prop :=
  env.settings.maxDailyOrders = cap

instance (cap : ℤ) (env : Env) (request : Request) (db : Db) :
    Decidable (CappedAt cap env request db) :=
  inferInstanceAs (Decidable (env.settings.maxDailyOrders = cap))

theorem Capped.serve {cap : ℤ} {fundId : ℕ} {steps : List Step} {db : Db} (event : Event)
    (limit : (⟨event, db⟩ : Step).Meets (CappedAt cap))
    (fits : (⟨event, db⟩ : Step).Meets NumberFits) (capped : Capped cap fundId steps db) :
    Capped cap fundId (steps ++ [⟨event, db⟩]) (event.serve db).db := by
  have times : acceptedTimes fundId (steps ++ [⟨event, db⟩]) =
      acceptedTimes fundId steps ++ Step.accepted fundId ⟨event, db⟩ := by
    simp [acceptedTimes]
  have grown := dailyOrderCount_le event db fundId
  cases Step.accepts fundId ⟨event, db⟩ fits with
  | nothing nothing =>
      rw [nothing, List.append_nil] at times
      exact ⟨times ▸ capped.admitted, fun now => times ▸ (capped.counted now).trans (grown now)⟩
  | @order env _ _ _ _ _ _ asked executed trades once applied =>
      rw [once] at times
      have prepares := prepareOrder_eq_ok executed.prepared_eq
      have room : (dailyOrderCount db fundId env.now : ℤ) < cap := by
        have below := daily_of_allowed (prepares.verdict_eq ▸ executed.allowed)
        rw [Step.Meets, asked] at limit
        rwa [prepares.ctx_eq, trades, show env.settings.maxDailyOrders = cap from limit] at below
      refine ⟨?_, fun now => ?_⟩
      · rw [times]
        refine capped.admitted.accept ?_
        have counted := capped.counted env.now
        omega
      · have submitted := dailyOrderCount_submitted executed applied now
        rw [times, recent, List.filter_append, List.length_append]
        rw [trades] at submitted
        have counted := capped.counted now
        exact submitted ▸ Nat.add_le_add_right counted _

end FundPolymarket
