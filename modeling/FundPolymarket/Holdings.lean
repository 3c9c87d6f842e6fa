import FundPolymarket.RiskGate

set_option autoImplicit false

/- The desk: the database beside a broker that fills every order at once. The sell
rule reads the local positions, which only a synchronisation updates. -/
namespace FundPolymarket

namespace MockBroker

variable {mock after : MockBroker} {request : OrderRequest} {result : OrderResult}

theorem find?_setHolding (holdings : List HoldingItem) (item : HoldingItem) (ticker : String) :
    (setHolding holdings item).find? (fun h => h.ticker = ticker) =
      if ticker = item.ticker then some item
      else holdings.find? fun h => h.ticker = ticker := by
  induction holdings with
  | nil =>
      by_cases same : ticker = item.ticker
      · simp [setHolding, same]
      · simp [setHolding, same, Ne.symm same]
  | cons h holdings ih =>
      by_cases here : h.ticker = item.ticker
      · by_cases same : ticker = item.ticker
        · simp [setHolding, here, same]
        · simp [setHolding, here, same, Ne.symm same]
      · by_cases same : ticker = item.ticker
        · subst same
          simpa [setHolding, here] using ih
        · by_cases listed : h.ticker = ticker
          · simp [setHolding, same, listed]
          · simpa [setHolding, here, same, listed] using ih

theorem heldQuantity_eq (mock : MockBroker) (ticker : String) :
    mock.heldQuantity ticker =
      ((mock.holdings.find? fun h => h.ticker = ticker).map HoldingItem.quantity).getD 0 := by
  unfold heldQuantity holding
  cases mock.holdings.find? fun h => h.ticker = ticker <;> rfl

/-- A purchase adds its quantity to the holding. -/
theorem held_after_buy (filled : mock.placeOrder request = .ok (result, after))
    (buys : request.side = .buy) (ticker : String) :
    after.heldQuantity ticker = mock.heldQuantity ticker +
      if ticker = request.ticker then request.quantity else 0 := by
  unfold placeOrder at filled
  dsimp only at filled
  rw [buys] at filled
  obtain ⟨_, same⟩ := raiseIf_bind_eq_ok.mp filled
  cases same
  rw [heldQuantity_eq, find?_setHolding]
  dsimp only
  split
  · rename_i here
    simp [here]
  · simp [heldQuantity_eq]

/-- A sale takes its quantity off the holding, which stops at zero. -/
theorem held_after_sell (filled : mock.placeOrder request = .ok (result, after))
    (sells : request.side = .sell) (ticker : String) :
    after.heldQuantity ticker =
      if ticker = request.ticker then max 0 (mock.heldQuantity ticker - request.quantity)
      else mock.heldQuantity ticker := by
  unfold placeOrder at filled
  dsimp only at filled
  rw [sells] at filled
  cases filled
  rw [heldQuantity_eq]
  dsimp only
  split
  · rename_i empty
    by_cases here : ticker = request.ticker
    · rw [if_pos here, here, empty]
      have gone : ((mock.holdings.filter fun h => h.ticker ≠ request.ticker).find?
          fun h => h.ticker = request.ticker) = none := by
        apply List.find?_eq_none.mpr
        intro h kept
        simpa using (List.mem_filter.mp kept).2
      rw [gone]
      rfl
    · have stays : ((mock.holdings.filter fun h => h.ticker ≠ request.ticker).find?
          fun h => h.ticker = ticker) = mock.holdings.find? fun h => h.ticker = ticker := by
        rw [List.find?_filter]
        congr 1
        funext h
        by_cases same : h.ticker = ticker
        · simp [same, here]
        · simp [same]
      rw [if_neg here, stays, heldQuantity_eq]
  · rw [find?_setHolding]
    by_cases here : ticker = request.ticker
    · rw [if_pos here, if_pos here, here]
      rfl
    · rw [if_neg here, if_neg here, heldQuantity_eq]

/-- What the broker is left with after the orders of a request. -/
def fill (mock : MockBroker) (sent : List OrderRequest) : MockBroker :=
  sent.foldl
    (fun mock request =>
      match mock.placeOrder request with
      | .ok (_, after) => after
      | .error _ => mock)
    mock

end MockBroker

/-- The database and the real holdings. -/
structure Desk where
  db : Db
  mock : MockBroker

/-- A decision is built or executed, with the settings and the clock of the moment. -/
inductive DeskEvent where
  | build (settings : Settings) (now : Time) (marketId : ℕ)
  | execute (settings : Settings) (now : Time) (decisionId adminId : ℕ)

namespace Desk

def served (desk : Desk) : DeskEvent → Served
  | .build settings now marketId =>
      serve ⟨settings, now, desk.mock.toBroker⟩ (.createDecision marketId) desk.db
  | .execute settings now decisionId adminId =>
      serve ⟨settings, now, desk.mock.toBroker⟩ (.approveDecision decisionId adminId) desk.db

def after (desk : Desk) (event : DeskEvent) : Desk :=
  ⟨(desk.served event).db, desk.mock.fill (desk.served event).sent⟩

/-- The orders of a run, each with the desk that it found. -/
def sentFrom : Desk → List DeskEvent → List (Desk × OrderRequest)
  | _, [] => []
  | desk, event :: events =>
      (desk.served event).sent.map (fun sent => (desk, sent)) ++ sentFrom (desk.after event) events

def stateAfter (desk : Desk) (events : List DeskEvent) : Desk := events.foldl after desk

end Desk

/-- The shares of a ticker that some orders buy or sell. -/
def orderedShares (side : OrderSide) (ticker : String) (sent : List OrderRequest) : ℤ :=
  ((sent.filter fun request => request.side = side ∧ request.ticker = ticker).map
    OrderRequest.quantity).sum

theorem orderedShares_append (side : OrderSide) (ticker : String)
    (first second : List OrderRequest) :
    orderedShares side ticker (first ++ second) =
      orderedShares side ticker first + orderedShares side ticker second := by
  simp [orderedShares]

theorem orderedShares_singleton (side : OrderSide) (ticker : String) (request : OrderRequest) :
    orderedShares side ticker [request] =
      if request.side = side ∧ request.ticker = ticker then request.quantity else 0 := by
  unfold orderedShares
  rw [List.filter_singleton]
  by_cases counted : request.side = side ∧ request.ticker = ticker <;> simp [counted]

/-- A filled order moves the holding by its quantity, as long as a sale is covered. -/
theorem MockBroker.held_fill {mock : MockBroker} {request : OrderRequest}
    (nonneg : ∀ ticker, 0 ≤ mock.heldQuantity ticker) (positive : 0 < request.quantity)
    (covered : request.side = .sell → request.quantity ≤ mock.heldQuantity request.ticker)
    (ticker : String) :
    (mock.fill [request]).heldQuantity ticker = mock.heldQuantity ticker +
      orderedShares .buy ticker [request] - orderedShares .sell ticker [request] := by
  obtain ⟨result, after, filled⟩ :
      ∃ result after, mock.placeOrder request = .ok (result, after) := by
    cases side : request.side with
    | sell => simp [placeOrder, side, pure, Except.pure]
    | buy =>
        have grows : mock.heldQuantity request.ticker + request.quantity ≠ 0 := by
          have := nonneg request.ticker
          omega
        simp [placeOrder, side, raiseIf, grows, pure, Except.pure, bind, Except.bind]
  have left : mock.fill [request] = after := by simp [fill, filled]
  rw [left, orderedShares_singleton, orderedShares_singleton]
  cases side : request.side with
  | buy =>
      rw [held_after_buy filled side]
      by_cases here : ticker = request.ticker
      · simp [here]
      · simp [here, Ne.symm here]
  | sell =>
      rw [held_after_sell filled side]
      by_cases here : ticker = request.ticker
      · have enough := covered side
        simp only [here, reduceCtorEq, false_and, and_self, if_false, if_true]
        omega
      · simp [here, Ne.symm here]

namespace Desk

/-- When a SELL is approved, the local position is not above the real holding. -/
def Backed (desk : Desk) : DeskEvent → Prop
  | .build _ _ _ => True
  | .execute _ _ decisionId _ =>
      ∀ decision ∈ desk.db.decisions.get? decisionId,
        decision.status = .pendingApproval → decision.action = .sell →
          ∀ market ∈ desk.db.markets.get? decision.marketId,
            positionQuantity desk.db market.fundId market.ticker ≤
              desk.mock.heldQuantity market.ticker

instance (desk : Desk) (event : DeskEvent) : Decidable (desk.Backed event) :=
  match event with
  | .build _ _ _ => .isTrue trivial
  | .execute _ _ decisionId _ =>
      inferInstanceAs (Decidable (∀ decision ∈ desk.db.decisions.get? decisionId,
        decision.status = .pendingApproval → decision.action = .sell →
          ∀ market ∈ desk.db.markets.get? decision.marketId,
            positionQuantity desk.db market.fundId market.ticker ≤
              desk.mock.heldQuantity market.ticker))

/-- A condition on every event of a run, where it happens. -/
def Along (condition : Desk → DeskEvent → Prop) : Desk → List DeskEvent → Prop
  | _, [] => True
  | desk, event :: events => condition desk event ∧ Along condition (desk.after event) events

instance (condition : Desk → DeskEvent → Prop) [∀ desk event, Decidable (condition desk event)]
    (desk : Desk) (events : List DeskEvent) : Decidable (desk.Along condition events) :=
  match events with
  | [] => .isTrue trivial
  | event :: events =>
      have := instDecidableAlong condition (desk.after event) events
      inferInstanceAs (Decidable (_ ∧ _))

/-- What an event sends is one order that is covered, or nothing. -/
theorem Backed.sent {desk : Desk} {event : DeskEvent} (backed : desk.Backed event) :
    (desk.served event).sent = [] ∨ ∃ request, (desk.served event).sent = [request] ∧
      0 < request.quantity ∧
        (request.side = .sell → request.quantity ≤ desk.mock.heldQuantity request.ticker) := by
  cases event with
  | build settings now marketId =>
      rw [served, serve_sent]
      exact .inl (Handled.ofService_sent _)
  | execute settings now decisionId adminId =>
      rw [served, serve_sent, handle]
      rcases approveDecision_sends decisionId adminId with
        nothing | ⟨decision, prepared, sends, once⟩
      · exact .inl nothing
      have prepares := prepareOrder_eq_ok sends.prepared_eq
      have allowed := prepares.verdict_eq ▸ sends.allowed
      refine .inr ⟨_, once, ?_, ?_⟩
      · have positive := quantity_of_allowed allowed
        rwa [prepares.ctx_eq] at positive
      · intro sells
        have action : decision.action = .sell := by
          have trades := prepares.trades
          cases side : decision.action with
          | buy => simp [orderRequest, orderSide, side] at sells
          | sell => rfl
          | hold => exact absurd side trades
        have below := position_of_allowed allowed (by rw [prepares.ctx_eq]; exact sells)
        rw [prepares.ctx_eq] at below
        exact below.trans (backed decision sends.found prepares.pending action prepared.market
          prepares.found)

/-- The law of the holdings: no sale is above what is really held, and in total no
more is sold than was held at the start and bought since. -/
structure NeverOversold (desk : Desk) (events : List DeskEvent) : Prop where
  covered : ∀ entry ∈ desk.sentFrom events, entry.2.side = .sell →
    entry.2.quantity ≤ entry.1.mock.heldQuantity entry.2.ticker
  total : ∀ ticker, orderedShares .sell ticker ((desk.sentFrom events).map Prod.snd) ≤
    desk.mock.heldQuantity ticker +
      orderedShares .buy ticker ((desk.sentFrom events).map Prod.snd)

theorem held_after {desk : Desk} {event : DeskEvent}
    (nonneg : ∀ ticker, 0 ≤ desk.mock.heldQuantity ticker) (backed : desk.Backed event)
    (ticker : String) :
    (desk.after event).mock.heldQuantity ticker = desk.mock.heldQuantity ticker +
        orderedShares .buy ticker (desk.served event).sent -
          orderedShares .sell ticker (desk.served event).sent ∧
      0 ≤ (desk.after event).mock.heldQuantity ticker := by
  rw [after]
  rcases backed.sent with nothing | ⟨request, once, positive, covered⟩
  · rw [nothing]
    refine ⟨?_, nonneg ticker⟩
    simp [MockBroker.fill, orderedShares]
  · rw [once]
    dsimp only
    have moved := MockBroker.held_fill nonneg positive covered ticker
    refine ⟨moved, ?_⟩
    rw [moved, orderedShares_singleton, orderedShares_singleton]
    have start := nonneg ticker
    by_cases here : request.ticker = ticker
    · subst here
      cases side : request.side with
      | buy =>
          simp only [reduceCtorEq, false_and, and_self, if_true, if_false]
          omega
      | sell =>
          have enough := covered side
          simp only [reduceCtorEq, false_and, and_self, if_true, if_false]
          omega
    · simpa [here] using start

/-- Nothing is oversold while the position of every approved SELL is backed. -/
theorem never_oversold (desk : Desk) (events : List DeskEvent)
    (nonneg : ∀ ticker, 0 ≤ desk.mock.heldQuantity ticker) (backed : desk.Along Backed events) :
    desk.NeverOversold events := by
  induction events generalizing desk with
  | nil =>
      refine ⟨by simp [sentFrom], fun ticker => ?_⟩
      simpa [sentFrom, orderedShares] using nonneg ticker
  | cons event events ih =>
      obtain ⟨now, later⟩ := backed
      have moved := held_after nonneg now
      have rest := ih (desk.after event) (fun ticker => (moved ticker).2) later
      refine ⟨?_, fun ticker => ?_⟩
      · intro entry member sells
        rcases List.mem_append.mp member with here | later
        · obtain ⟨sent, sentMember, rfl⟩ := List.mem_map.mp here
          rcases now.sent with nothing | ⟨request, once, _, covered⟩
          · rw [nothing] at sentMember
            cases sentMember
          · rw [once, List.mem_singleton] at sentMember
            subst sentMember
            exact covered sells
        · exact rest.covered entry later sells
      · have total := rest.total ticker
        rw [(moved ticker).1] at total
        have split : (desk.sentFrom (event :: events)).map Prod.snd =
            (desk.served event).sent ++ ((desk.after event).sentFrom events).map Prod.snd := by
          simp [sentFrom, List.map_append, List.map_map, Function.comp_def]
        rw [split, orderedShares_append, orderedShares_append]
        linarith

/-- The local positions of a fund are the real holdings. -/
def Synced (desk : Desk) (fundId : ℕ) : Prop :=
  ∀ ticker, positionQuantity desk.db fundId ticker = desk.mock.heldQuantity ticker

theorem served_positions (desk : Desk) (event : DeskEvent) :
    (desk.served event).db.positions.toTable = desk.db.positions.toTable := by
  have frame : ∀ env request, .positions ∉ request.tables →
      (serve env request desk.db).db.positions.toTable = desk.db.positions.toTable := by
    intro env request untouched
    rcases serve_cases env request desk.db with ⟨same, _⟩ | ⟨_, writes, committed, applied⟩
    · rw [same]
    · exact committed.frame applied .positions untouched
  cases event with
  | build => exact frame _ _ (by simp [Request.tables])
  | execute => exact frame _ _ (by simp [Request.tables])

theorem stateAfter_position (desk : Desk) (events : List DeskEvent) (fundId : ℕ) (ticker : String) :
    positionQuantity (desk.stateAfter events).db fundId ticker =
      positionQuantity desk.db fundId ticker := by
  induction events generalizing desk with
  | nil => rfl
  | cons event events ih =>
      refine (ih (desk.after event)).trans ?_
      rw [positionQuantity, positionQuantity]
      simp only [after, served_positions]

theorem held_stateAfter (desk : Desk) (events : List DeskEvent)
    (nonneg : ∀ ticker, 0 ≤ desk.mock.heldQuantity ticker) (backed : desk.Along Backed events)
    (ticker : String) :
    (desk.stateAfter events).mock.heldQuantity ticker = desk.mock.heldQuantity ticker +
      orderedShares .buy ticker ((desk.sentFrom events).map Prod.snd) -
        orderedShares .sell ticker ((desk.sentFrom events).map Prod.snd) := by
  induction events generalizing desk with
  | nil => simp [sentFrom, orderedShares, stateAfter]
  | cons event events ih =>
      obtain ⟨now, later⟩ := backed
      have moved := held_after nonneg now
      have rest := ih (desk.after event) (fun ticker => (moved ticker).2) later
      have split : (desk.sentFrom (event :: events)).map Prod.snd =
          (desk.served event).sent ++ ((desk.after event).sentFrom events).map Prod.snd := by
        simp [sentFrom, List.map_append, List.map_map, Function.comp_def]
      rw [split, orderedShares_append, orderedShares_append]
      rw [(moved ticker).1] at rest
      have unfolded : desk.stateAfter (event :: events) =
          (desk.after event).stateAfter events := rfl
      rw [unfolded, rest]
      ring

/-- After a synchronisation the local position runs ahead of the real holding by what
was sold beyond the purchases. -/
theorem position_ahead (desk : Desk) (events : List DeskEvent) (fundId : ℕ)
    (synced : desk.Synced fundId) (nonneg : ∀ ticker, 0 ≤ desk.mock.heldQuantity ticker)
    (backed : desk.Along Backed events) (ticker : String) :
    positionQuantity (desk.stateAfter events).db fundId ticker -
        (desk.stateAfter events).mock.heldQuantity ticker =
      orderedShares .sell ticker ((desk.sentFrom events).map Prod.snd) -
        orderedShares .buy ticker ((desk.sentFrom events).map Prod.snd) := by
  rw [stateAfter_position, synced ticker, held_stateAfter desk events nonneg backed]
  ring

end Desk

/-- Ten shares at the broker. -/
def tenShares : MockBroker :=
  { prices := [("005930", 50000)], holdings := [⟨"005930", none, 10, 50000, none⟩] }

/-- Two closed markets on one ticker whose members want to sell, and a synchronised
fund. -/
def twoSellMarkets : Desk :=
  let env : Env := { desk with broker := tenShares.toBroker }
  let market : MarketCreate :=
    { fundId := 1, title := "t", ticker := "005930", closesAt := desk.now + 1,
      resolveAt := desk.now + 2, notionalKrw := 100000 }
  ⟨stateAfter Db.empty
    [.request env (.createMember { email := "a@example.com", name := "a" }),
      .request env (.createFund "fund" "1" "KIS"),
      .request env (.createMarket market 1),
      .request env (.createMarket market 1),
      .request env (.putAllocation 1 1 ⟨[(.sell, 100)], by decide⟩ none),
      .request env (.putAllocation 2 1 ⟨[(.sell, 100)], by decide⟩ none),
      .request env (.closeMarket 1),
      .request env (.closeMarket 2),
      .request env (.syncFund 1)], tenShares⟩

theorem tenShares_held (ticker : String) :
    tenShares.heldQuantity ticker = if ticker = "005930" then 10 else 0 := by
  rw [MockBroker.heldQuantity_eq]
  by_cases here : ticker = "005930"
  · simp [tenShares, here]
  · simp [tenShares, here, Ne.symm here]

theorem twoSellMarkets_synced : twoSellMarkets.Synced 1 := by
  have rows : twoSellMarkets.db.positions.contents.map
      (fun p => (p.fundId, p.ticker, p.quantity)) = [(1, "005930", 10)] := by decide +kernel
  obtain ⟨p, contents, columns⟩ := List.map_eq_singleton_iff.mp rows
  have fund : p.fundId = 1 := congrArg Prod.fst columns
  have listed : p.ticker = "005930" := congrArg (fun c => c.2.1) columns
  have quantity : p.quantity = 10 := congrArg (fun c => c.2.2) columns
  intro ticker
  rw [show twoSellMarkets.mock = tenShares from rfl, tenShares_held, positionQuantity, contents]
  by_cases here : ticker = "005930"
  · simp [fund, listed, quantity, here]
  · simp [fund, listed, here, Ne.symm here]

namespace Desk

theorem never_oversold_single_sale : twoSellMarkets.NeverOversold
    [.build {} desk.now 1, .execute {} desk.now 1 1] :=
  never_oversold _ _ (fun ticker => by
    rw [show twoSellMarkets.mock = tenShares from rfl, tenShares_held]
    split <;> decide) (by decide +kernel)

/-- Both decisions sell the same ten shares. -/
theorem oversold_two_markets : twoSellMarkets.Synced 1 ∧ ¬ twoSellMarkets.NeverOversold
    [.build {} desk.now 1, .build {} desk.now 2, .execute {} desk.now 1 1,
      .execute {} desk.now 2 1] := by
  refine ⟨twoSellMarkets_synced, fun law => ?_⟩
  have total := law.total "005930"
  revert total
  decide +kernel

end Desk

end FundPolymarket
