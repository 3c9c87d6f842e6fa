import FundPolymarket.DecisionGate
import FundPolymarket.Effects

set_option autoImplicit false

/- Decisions and the orders they lead to. An execution that fails flushes its rows before
it raises; here they stay, as they do in a session that is kept. -/
namespace FundPolymarket

open Decimal (Numeric Scaled)

/-- Quotes that the price columns hold exactly. -/
def Broker.QuotesExactly (broker : Broker) : Prop :=
  ∀ ticker quote, broker.getQuote ticker = .ok quote → 0 < quote.price ∧ Scaled 4 quote.price

/-- An event of a run, or `execute_decision` in a session that keeps what is flushed. -/
inductive Operation where
  | serve (event : Event)
  | execute (env : Env) (decisionId adminId : ℕ)

namespace Operation

def apply : Operation → Db → Db
  | .serve event, db => (event.serve db).db
  | .execute env decisionId adminId, db =>
      (do
        let decision ← getDecision db decisionId
        applyWrites db (executeDecision env.settings db decisionId decision env.broker adminId
          env.now).flushed).toOption.getD db

def Trusts (trusted : Broker → Prop) : Operation → Prop
  | .serve event => event.Trusts trusted
  | .execute env _ _ => trusted env.broker

end Operation

/-- The state that a sequence of operations ends in. -/
def stateOf (db : Db) (operations : List Operation) : Db :=
  operations.foldl (fun db operation => operation.apply db) db

/-- What is to be traded, which no later step changes. -/
structure Terms where
  marketId : ℕ
  action : Outcome
  targetQuantity : ℤ
  limitPrice : Option Price
  orderType : OrderType

def TradeDecision.terms (decision : TradeDecision) : Terms :=
  { marketId := decision.marketId
    action := decision.action
    targetQuantity := decision.targetQuantity
    limitPrice := decision.limitPrice
    orderType := decision.orderType }

/-- A trade: shares at a positive limit, and for a purchase as many as the notional buys. -/
structure Terms.Tradable (terms : Terms) (db : Db) : Prop where
  trades : terms.action ≠ .hold
  limit : terms.orderType = .limit
  quantity : 1 ≤ terms.targetQuantity
  priced : ∃ limitPrice, terms.limitPrice = some limitPrice ∧ 0 < limitPrice.val ∧
    ∃ market, db.markets.get? terms.marketId = some market ∧ (terms.action = .buy →
      terms.targetQuantity * limitPrice.val ≤ market.notionalKrw.val ∧
        market.notionalKrw.val < (terms.targetQuantity + 1) * limitPrice.val)

/-- A decision to trade has tradable terms; one that was skipped has none, and a reason. -/
structure TradeDecision.WellFormed (decision : TradeDecision) (db : Db) : Prop where
  trades : decision.status ≠ .skipped → decision.terms.Tradable db
  skipped : decision.status = .skipped → decision.targetQuantity = 0 ∧
    decision.limitPrice = none ∧ ∃ reason, decision.reason = some reason ∧ reason ≠ ""

/-- The order of a decision to trade has the decision's terms. -/
structure Order.Carries (order : Order) (decision : TradeDecision) : Prop where
  trades : decision.status ≠ .skipped ∧ decision.action ≠ .hold
  side : order.side = orderSide decision.action
  quantity : order.quantity = decision.targetQuantity
  price : order.price = decision.limitPrice

structure WellFormed (db : Db) : Prop where
  decisions : ∀ decision ∈ db.decisions.contents, decision.WellFormed db
  orders : ∀ order ∈ db.orders.contents, ∀ decisionId, order.decisionId = some decisionId →
    ∃ decision, db.decisions.get? decisionId = some decision ∧ order.Carries decision

section Reasons

theorem append_ne_empty {first : String} (filled : first ≠ "") (second : String) :
    first ++ second ≠ "" := fun empty => filled (String.append_eq_empty_iff.mp empty).1

/-- A list of reasons is joined to a reason. -/
theorem intercalate_ne_empty {separator : String} {reasons : List String}
    (some_reason : reasons ≠ []) (filled : ∀ reason ∈ reasons, reason ≠ "") :
    separator.intercalate reasons ≠ "" := by
  cases reasons with
  | nil => exact absurd rfl some_reason
  | cons first rest =>
      have head := filled first (by simp)
      cases rest with
      | nil => rwa [String.intercalate_singleton]
      | cons second rest =>
          rw [String.intercalate_cons_cons]
          exact append_ne_empty (append_ne_empty head _) _

variable {settings : Settings} {db : Db} {market : Market} {consensus : Consensus}
  {action : Outcome} {broker : Broker} {sized : Sizing}

theorem consensusReasons_filled :
    ∀ reason ∈ consensusReasons settings db consensus, reason ≠ "" := by
  have quorum : ∀ reason ∈ quorumReasons settings db consensus, reason ≠ "" := by
    intro reason member
    unfold quorumReasons at member
    split at member
    · rw [List.mem_singleton.mp member]
      decide
    · split at member
      · dsimp only at member
        split at member
        · rw [List.mem_singleton.mp member]
          simp only [String.append_assoc]
          exact append_ne_empty (by decide) _
        · cases member
      · cases member
  intro reason member
  unfold consensusReasons at member
  split at member
  · rw [List.mem_singleton.mp member]
    simp only [String.append_assoc]
    exact append_ne_empty (by decide) _
  · exact quorum reason member

theorem sizing_filled (success : sizing settings db market consensus action broker = .ok sized) :
    ∀ reason ∈ sized.reasons, reason ≠ "" := by
  unfold sizing at success
  split at success
  swap
  · cases success
    simp
  obtain ⟨quote, _, rest⟩ := bind_eq_ok.mp success
  split at rest
  · obtain ⟨quantity, _, same⟩ := bind_eq_ok.mp rest
    cases same
    intro reason member
    dsimp only at member
    split at member
    · rw [List.mem_singleton.mp member]
      simp only [String.append_assoc]
      exact append_ne_empty (by decide) _
    · cases member
  · cases rest
    intro reason member
    dsimp only at member
    split at member
    · rw [List.mem_singleton.mp member]
      decide
    · cases member

theorem skipReasons_filled
    (success : sizing settings db market consensus action broker = .ok sized) :
    ∀ reason ∈ skipReasons settings db consensus action sized, reason ≠ "" := by
  intro reason member
  unfold skipReasons at member
  dsimp only at member
  split at member
  · rw [List.mem_singleton.mp member]
    decide
  · rcases List.mem_append.mp member with weak | unsized
    · exact consensusReasons_filled reason weak
    · exact sizing_filled success reason unsized

end Reasons

section Build

variable {settings : Settings} {db : Db} {marketId : ℕ} {market : Market} {consensus : Consensus}
  {action : Outcome} {broker : Broker} {sized : Sizing} {writes : List Write}

/-- A sized order has its price, and a purchase as many shares as the notional buys. -/
theorem sizeOrder_tradable (exactly : broker.QuotesExactly)
    (success : sizeOrder db market action broker = .ok sized) (clear : sized.reasons = []) :
    0 < sized.quantity ∧ ∃ price, sized.limitPrice = some price ∧ 0 < price ∧ Scaled 4 price ∧
      (action = .buy → sized.quantity * price ≤ market.notionalKrw.val ∧
        market.notionalKrw.val < (sized.quantity + 1) * price) := by
  obtain ⟨quote, quoted, rest⟩ := bind_eq_ok.mp success
  obtain ⟨pricePos, scaled⟩ := exactly _ _ quoted
  have positive : 0 < sized.quantity := (sizeOrder_eq_ok success).2.1 clear
  refine ⟨positive, quote.price, ?_, pricePos, scaled, ?_⟩
  · obtain ⟨other, otherQuoted, price⟩ := (sizeOrder_eq_ok success).1
    rw [quoted] at otherQuoted
    cases otherQuoted
    exact price
  · intro buys
    rw [if_pos buys] at rest
    obtain ⟨quantity, floored, same⟩ := bind_eq_ok.mp rest
    cases same
    exact Decimal.floordiv_bounds pricePos (orRaise_eq_ok.mp floored) positive

/-- The decision that is inserted for a market is well formed. -/
theorem buildDecision_wellFormed (exactly : broker.QuotesExactly)
    (found : db.markets.get? marketId = some market)
    (success : buildDecision settings db marketId market broker = .ok writes) :
    ∃ decision, writes = [.insertDecision decision, .updateMarket marketId Market.decide] ∧
      decision.WellFormed db := by
  obtain ⟨_, rest⟩ := raiseIf_bind_eq_ok.mp success
  split at rest
  · cases rest
  obtain ⟨consensus, _, rest⟩ := bind_eq_ok.mp rest
  obtain ⟨sized, sizedOk, rest⟩ := bind_eq_ok.mp rest
  obtain ⟨totalStake, _, rest⟩ := bind_eq_ok.mp rest
  obtain ⟨participants, _, rest⟩ := bind_eq_ok.mp rest
  obtain ⟨quantity, quantityOk, rest⟩ := bind_eq_ok.mp rest
  obtain ⟨limitPrice, priced, same⟩ := bind_eq_ok.mp rest
  refine ⟨_, (Except.ok.inj same).symm, ?_⟩
  have sameQuantity := (storeInteger_eq_ok.mp quantityOk).2
  by_cases goes : skipReasons settings db consensus (consensus.leadingOutcome.getD .hold)
    sized = []
  · rw [storedLimitPrice, if_pos goes] at priced
    obtain ⟨trades, size, clear⟩ := sizing_goes sizedOk goes
    obtain ⟨positive, price, limit, pricePos, scaled, bought⟩ :=
      sizeOrder_tradable exactly size clear
    rw [limit] at priced
    obtain ⟨stored, storedOk, same⟩ := map_eq_ok.mp priced
    subst same
    have stores := Numeric.val_ofDecimal scaled (orRaise_eq_ok.mp storedOk)
    refine ⟨fun _ => ⟨trades, rfl, ?_, stored, rfl, stores ▸ pricePos, market, found, ?_⟩, ?_⟩
    · have least : 1 ≤ sized.quantity := positive
      simpa [TradeDecision.terms, newDecision, sameQuantity, goes] using least
    · simpa [TradeDecision.terms, newDecision, sameQuantity, goes, stores] using bought
    · simp [newDecision, goes]
  · rw [storedLimitPrice, if_neg goes] at priced
    cases priced
    refine ⟨fun live => absurd (by simp [newDecision, goes]) live, fun _ => ⟨?_, rfl,
      "; ".intercalate _, if_neg goes, intercalate_ne_empty goes (skipReasons_filled sizedOk)⟩⟩
    simp [newDecision, sameQuantity, goes]

end Build

section Step

variable {db next : Db}

/-- A later row of a decision: itself, or a decision to trade that has moved on. -/
def TradeDecision.Follows (later decision : TradeDecision) : Prop :=
  later = decision ∨
    decision.status ≠ .skipped ∧ later.terms = decision.terms ∧ later.status ≠ .skipped

/-- How a step develops the rows: markets keep their notional, decisions their terms, a new
decision is well formed, and a new order carries a decision to trade. -/
structure Develops (db next : Db) : Prop where
  markets : ∀ id market, db.markets.get? id = some market → ∃ later,
    next.markets.get? id = some later ∧ later.notionalKrw = market.notionalKrw
  kept : ∀ id decision, db.decisions.get? id = some decision → ∃ later,
    next.decisions.get? id = some later ∧ later.Follows decision
  decisions : ∀ later ∈ next.decisions.contents,
    (∃ decision ∈ db.decisions.contents, later.Follows decision) ∨ later.WellFormed db
  orders : ∀ order ∈ next.orders.contents, order ∈ db.orders.contents ∨
    ∃ decisionId decision, order.decisionId = some decisionId ∧
      db.decisions.get? decisionId = some decision ∧ order.Carries decision

theorem Order.Carries.follow {order : Order} {decision later : TradeDecision}
    (carries : order.Carries decision) (follows : later.Follows decision) :
    order.Carries later := by
  rcases follows with rfl | ⟨_, terms, live⟩
  · exact carries
  · have action : later.action = decision.action := congrArg Terms.action terms
    have quantity : later.targetQuantity = decision.targetQuantity :=
      congrArg Terms.targetQuantity terms
    have price : later.limitPrice = decision.limitPrice := congrArg Terms.limitPrice terms
    exact ⟨⟨live, action ▸ carries.trades.2⟩, by rw [carries.side, action],
      by rw [carries.quantity, quantity], by rw [carries.price, price]⟩

theorem Terms.Tradable.develop {terms : Terms} (tradable : terms.Tradable db)
    (develops : Develops db next) : terms.Tradable next := by
  obtain ⟨trades, limit, quantity, limitPrice, listed, positive, market, found, bought⟩ := tradable
  obtain ⟨later, laterFound, notional⟩ := develops.markets _ _ found
  exact ⟨trades, limit, quantity, limitPrice, listed, positive, later, laterFound,
    by rwa [notional]⟩

theorem TradeDecision.WellFormed.develop {decision later : TradeDecision}
    (wellFormed : decision.WellFormed db) (follows : later.Follows decision)
    (develops : Develops db next) : later.WellFormed next := by
  rcases follows with rfl | ⟨traded, terms, live⟩
  · exact ⟨fun trades => (wellFormed.trades trades).develop develops, wellFormed.skipped⟩
  · exact ⟨fun _ => terms ▸ (wellFormed.trades traded).develop develops,
      fun skipped => absurd skipped live⟩

theorem WellFormed.develop (wellFormed : WellFormed db) (develops : Develops db next) :
    WellFormed next := by
  refine ⟨fun later member => ?_, fun order member decisionId listed => ?_⟩
  · rcases develops.decisions later member with ⟨decision, decisionMember, follows⟩ | fresh
    · exact (wellFormed.decisions decision decisionMember).develop follows develops
    · exact fresh.develop (.inl rfl) develops
  · have carried : ∃ decision, db.decisions.get? decisionId = some decision ∧
        order.Carries decision := by
      rcases develops.orders order member with old | ⟨id, decision, fresh, found, carries⟩
      · exact wellFormed.orders order old decisionId listed
      · rw [listed] at fresh
        cases fresh
        exact ⟨decision, found, carries⟩
    obtain ⟨decision, found, carries⟩ := carried
    obtain ⟨later, laterFound, follows⟩ := develops.kept decisionId decision found
    exact ⟨later, laterFound, carries.follow follows⟩

theorem Develops.refl (db : Db) : Develops db db :=
  ⟨fun _ market found => ⟨market, found, rfl⟩, fun _ decision found => ⟨decision, found, .inl rfl⟩,
    fun later member => .inl ⟨later, member, .inl rfl⟩, fun _ member => .inl member⟩

/-- A decision to trade moves on. -/
theorem follows_update {decisionId : ℕ} {decision : TradeDecision}
    {set : TradeDecision → TradeDecision} (found : db.decisions.get? decisionId = some decision)
    (moves : (set decision).Follows decision) :
    (∀ id row, db.decisions.get? id = some row → ∃ later,
        (db.decisions.update decisionId set).get? id = some later ∧ later.Follows row) ∧
      ∀ later ∈ (db.decisions.update decisionId set).contents,
        ∃ row ∈ db.decisions.contents, later.Follows row := by
  constructor
  · intro id row rowFound
    rw [Table.get?_update]
    by_cases same : id = decisionId
    · subst same
      rw [found] at rowFound
      cases rowFound
      exact ⟨set decision, by simp [found], moves⟩
    · exact ⟨row, by simp [same, rowFound], .inl rfl⟩
  · intro later member
    obtain ⟨id, laterFound⟩ := (Table.mem_contents_iff _ _).mp member
    rw [Table.get?_update] at laterFound
    split at laterFound
    · rename_i same
      rw [same, found] at laterFound
      cases laterFound
      exact ⟨decision, Table.get?_mem_contents found, moves⟩
    · exact ⟨later, Table.get?_mem_contents laterFound, .inl rfl⟩

section Execute

variable {settings : Settings} {decisionId : ℕ} {decision : TradeDecision} {broker : Broker}
  {adminId : ℕ} {now : Time} {prepared : Prepared}

/-- The order row has the terms of the decision: a positive limit price is taken as it is. -/
theorem prepareOrder_carries (wellFormed : decision.WellFormed db)
    (success : prepareOrder settings db decisionId decision broker now = .ok prepared) :
    prepared.order.Carries decision := by
  obtain ⟨pending, rest⟩ := raiseIf_bind_eq_ok.mp success
  obtain ⟨trades, rest⟩ := raiseIf_bind_eq_ok.mp rest
  obtain ⟨market, _, rest⟩ := bind_eq_ok.mp rest
  obtain ⟨price, priced, rest⟩ := bind_eq_ok.mp rest
  obtain ⟨stored, storedOk, rest⟩ := bind_eq_ok.mp rest
  obtain ⟨quantity, quantityOk, rest⟩ := bind_eq_ok.mp rest
  obtain ⟨brokerEnv, _, same⟩ := bind_eq_ok.mp rest
  cases same
  have live : decision.status ≠ .skipped := by
    rw [not_not.mp pending]
    decide
  have tradable := wellFormed.trades live
  obtain ⟨limitPrice, listed, positive, _⟩ := tradable.priced
  have limit : decision.orderType = .limit := tradable.limit
  have hasPrice : decision.limitPrice = some limitPrice := listed
  refine ⟨⟨live, trades⟩, rfl, (storeInteger_eq_ok.mp quantityOk).2, ?_⟩
  rw [hasPrice, orderPrice, if_neg positive.ne'] at priced
  cases priced
  rw [limit, storedPrice, store, Numeric.ofDecimal_val] at storedOk
  cases storedOk
  exact hasPrice.symm

theorem order_develops (found : db.decisions.get? decisionId = some decision) {order : Order}
    (names : order.decisionId = some decisionId) (carries : order.Carries decision)
    (orders : next.orders = db.orders.insert order)
    (decisions : next.decisions = db.decisions ∨ ∃ set : TradeDecision → TradeDecision,
      next.decisions = db.decisions.update decisionId set ∧ (set decision).Follows decision)
    (markets : next.markets = db.markets ∨
      next.markets = db.markets.update decision.marketId Market.execute) : Develops db next := by
  have rows : (∀ id row, db.decisions.get? id = some row → ∃ later,
        next.decisions.get? id = some later ∧ later.Follows row) ∧
      ∀ later ∈ next.decisions.contents, ∃ row ∈ db.decisions.contents, later.Follows row := by
    rcases decisions with same | ⟨set, updated, moves⟩
    · rw [same]
      exact ⟨fun _ row rowFound => ⟨row, rowFound, .inl rfl⟩,
        fun later member => ⟨later, member, .inl rfl⟩⟩
    · rw [updated]
      exact follows_update found moves
  refine ⟨?_, rows.1, fun later member => .inl (rows.2 later member), ?_⟩
  · intro id market marketFound
    rcases markets with same | executed
    · exact ⟨market, by rw [same, marketFound], rfl⟩
    · rw [executed, Table.get?_update, marketFound]
      split
      · exact ⟨market.execute, rfl, rfl⟩
      · exact ⟨market, rfl, rfl⟩
  · intro other member
    rw [orders, Table.contents_insert, List.mem_append, List.mem_singleton] at member
    rcases member with old | rfl
    · exact .inl old
    · exact .inr ⟨decisionId, decision, names, found, carries⟩

section Flushed

variable (found : db.decisions.get? decisionId = some decision)
  (names : prepared.order.decisionId = some decisionId) (carries : prepared.order.Carries decision)
include found names carries

theorem failure_develops {message reason : String}
    (applied : applyWrites db (failureWrites decisionId prepared message reason) = .ok next) :
    Develops db next := by
  have keeps : (prepared.order.reject message).Carries decision :=
    ⟨carries.trades, carries.side, carries.quantity, carries.price⟩
  have named : (prepared.order.reject message).decisionId = some decisionId := names
  have failed : DecisionStatus.failed ≠ .skipped := by decide
  exact order_develops found named keeps (applyWrites_table applied .orders)
    (.inr ⟨fun row => row.fail reason, applyWrites_table applied .decisions,
      .inr ⟨carries.trades.1, rfl, failed⟩⟩)
    (.inl (applyWrites_table applied .markets))

/-- The order alone, as the session creates it. -/
theorem unsubmitted_develops (applied : applyWrites db [.insertOrder prepared.order] = .ok next) :
    Develops db next :=
  order_develops found names carries (applyWrites_table applied .orders)
    (.inl (applyWrites_table applied .decisions)) (.inl (applyWrites_table applied .markets))

theorem refused_develops {sent : List OrderRequest} {message reason : String} {exc : AppError}
    (applied : applyWrites db
      (refused decisionId prepared sent message reason exc).flushed = .ok next) :
    Develops db next := by
  rw [refused] at applied
  split at applied
  · exact unsubmitted_develops found names carries applied
  · exact failure_develops found names carries applied

theorem success_develops {brokerOrderNo : Option String}
    (applied : applyWrites db (successWrites decisionId decision adminId now prepared
      brokerOrderNo) = .ok next) : Develops db next := by
  have keeps : (prepared.order.submit brokerOrderNo now).Carries decision :=
    ⟨carries.trades, carries.side, carries.quantity, carries.price⟩
  have named : (prepared.order.submit brokerOrderNo now).decisionId = some decisionId := names
  have executed : DecisionStatus.executed ≠ .skipped := by decide
  exact order_develops found named keeps (applyWrites_table applied .orders)
    (.inr ⟨fun row => row.execute adminId now, applyWrites_table applied .decisions,
      .inr ⟨carries.trades.1, rfl, executed⟩⟩)
    (.inr (applyWrites_table applied .markets))

end Flushed

/-- An execution leaves its order, whether it succeeds or raises. -/
theorem execute_develops (wellFormed : WellFormed db)
    (found : db.decisions.get? decisionId = some decision)
    (applied : applyWrites db (executeDecision settings db decisionId decision broker adminId
      now).flushed = .ok next) : Develops db next := by
  cases attempt : prepareOrder settings db decisionId decision broker now with
  | error exc =>
      rw [executeDecision_of_error attempt] at applied
      cases applied
      exact .refl db
  | ok prepared =>
      have carries := prepareOrder_carries
        (wellFormed.decisions decision (Table.get?_mem_contents found)) attempt
      have names := (prepareOrder_eq_ok attempt).decisionId_eq
      rw [executeDecision, attempt] at applied
      dsimp only at applied
      split at applied
      · exact refused_develops found names carries applied
      · split at applied
        · exact refused_develops found names carries applied
        · exact unsubmitted_develops found names carries applied
        · split at applied
          · exact unsubmitted_develops found names carries applied
          · exact success_develops found names carries applied

end Execute

section Events

variable {env : Env} {request : Request}

theorem MarketChange.notional {id : ℕ} {row later : Market}
    (change : MarketChange env db request id row later) : later.notionalKrw = row.notionalKrw := by
  cases change <;> rfl

theorem Commits.notional_kept {writes : List Write} (commits : Commits env db request writes)
    (applied : applyWrites db writes = .ok next) (id : ℕ) (market : Market)
    (found : db.markets.get? id = some market) : ∃ later,
      next.markets.get? id = some later ∧ later.notionalKrw = market.notionalKrw := by
  obtain ⟨later, laterFound, rfl | change⟩ := (commits.markets applied).kept found
  · exact ⟨later, laterFound, rfl⟩
  · exact ⟨later, laterFound, change.notional⟩

theorem build_develops {marketId : ℕ} (exactly : env.broker.QuotesExactly)
    (committed : Committed env (.createDecision marketId) db next) : Develops db next := by
  obtain ⟨returned, applied⟩ := serve_returned committed.returned
  have markets := (handle_commits returned).notional_kept applied
  obtain ⟨market, found, success⟩ := bind_eq_ok.mp (Handled.ofService_ok returned)
  obtain ⟨decision, writes, wellFormed⟩ :=
    buildDecision_wellFormed exactly (getMarket_eq_ok.mp found) success
  rw [committed.state] at applied markets
  rw [handle, writes] at applied
  have decisions : next.decisions = db.decisions.insert decision :=
    applyWrites_table applied .decisions
  have orders : next.orders = db.orders := applyWrites_table applied .orders
  refine ⟨markets, ?_, ?_, ?_⟩
  · intro id row rowFound
    exact ⟨row, by rw [decisions, Table.get?_insert_of_some _ rowFound], .inl rfl⟩
  · intro later member
    rw [decisions, Table.contents_insert, List.mem_append, List.mem_singleton] at member
    rcases member with old | rfl
    · exact .inl ⟨later, old, .inl rfl⟩
    · exact .inr wellFormed
  · intro order member
    rw [orders] at member
    exact .inl member

theorem approve_develops {decisionId adminId : ℕ} (wellFormed : WellFormed db)
    (committed : Committed env (.approveDecision decisionId adminId) db next) :
    Develops db next := by
  obtain ⟨returned, applied⟩ := serve_returned committed.returned
  rw [committed.state] at applied
  rw [handle] at returned applied
  cases search : getDecision db decisionId with
  | error exc =>
      rw [approveDecision_not_found search] at returned
      cases returned
  | ok decision =>
      rw [approveDecision_found search] at applied
      exact execute_develops wellFormed (getDecision_eq_ok.mp search) applied

/-- The other requests create neither a decision nor an order. -/
theorem Commits.develops {writes : List Write} (commits : Commits env db request writes)
    (applied : applyWrites db writes = .ok next) (untouched : .orders ∉ request.tables)
    (builds : ∀ marketId, request ≠ .createDecision marketId) : Develops db next := by
  have orders : next.orders = db.orders := commits.frame applied .orders untouched
  have rows : (∀ id row, db.decisions.get? id = some row → ∃ later,
        next.decisions.get? id = some later ∧ later.Follows row) ∧
      ∀ later ∈ next.decisions.contents, ∃ row ∈ db.decisions.contents, later.Follows row := by
    have after := commits.decisions applied
    generalize next.decisions = decisions at after ⊢
    cases after with
    | same =>
        exact ⟨fun _ row found => ⟨row, found, .inl rfl⟩,
          fun later member => ⟨later, member, .inl rfl⟩⟩
    | built => exact absurd rfl (builds _)
    | @rejected decisionId adminId reason decision found pending =>
        have live : decision.status ≠ .skipped := by
          rw [pending]
          decide
        have rejected : DecisionStatus.rejected ≠ .skipped := by decide
        exact follows_update found (.inr ⟨live, rfl, rejected⟩)
    | executed => exact absurd List.mem_cons_self untouched
  exact ⟨commits.notional_kept applied, rows.1, fun later member => .inl (rows.2 later member),
    fun order member => .inl (by rwa [orders] at member)⟩

/-- What a committed request does to the decisions and the orders. -/
theorem Committed.develops (exactly : env.broker.QuotesExactly) (wellFormed : WellFormed db)
    (committed : Committed env request db next) : Develops db next := by
  obtain ⟨writes, commits, applied⟩ := committed.commits
  cases request with
  | approveDecision => exact approve_develops wellFormed committed
  | createDecision => exact build_develops exactly committed
  | createMember | createFund | createMarket | putAllocation | closeMarket | rejectDecision
  | resolveMarket | settleMarket | cancelMarket | syncFund =>
      exact commits.develops applied (by simp [Request.tables]) (by simp)

end Events

theorem Operation.develops_wellFormed {operation : Operation}
    (exactly : operation.Trusts Broker.QuotesExactly) (wellFormed : WellFormed db) :
    WellFormed (operation.apply db) := by
  cases operation with
  | serve event =>
      exact committed_invariant (fun _ _ _ _ trusted committed held =>
        held.develop (committed.develops trusted held)) exactly wellFormed
  | execute env decisionId adminId =>
      rw [Operation.apply]
      cases search : getDecision db decisionId with
      | error exc => exact wellFormed
      | ok decision =>
          dsimp only [bind, Except.bind]
          cases applied : applyWrites db (executeDecision env.settings db decisionId decision
            env.broker adminId env.now).flushed with
          | error exc => exact wellFormed
          | ok next =>
              exact wellFormed.develop
                (execute_develops wellFormed (getDecision_eq_ok.mp search) applied)

end Step

section Runs

theorem wellFormed_empty : WellFormed Db.empty :=
  ⟨by simp [Db.empty], by simp [Db.empty]⟩

/-- Every sequence of operations keeps the rows well formed. -/
theorem wellFormed_stateOf {start : Db} (wellFormed : WellFormed start)
    {operations : List Operation}
    (exactly : ∀ operation ∈ operations, operation.Trusts Broker.QuotesExactly) :
    WellFormed (stateOf start operations) := by
  induction operations generalizing start with
  | nil => exact wellFormed
  | cons operation operations ih =>
      exact ih (operation.develops_wellFormed (exactly operation (by simp)) wellFormed)
        fun other member => exactly other (by simp [member])

/-- Without a trade an execution raises at its guards. -/
theorem executeDecision_without_trade {settings : Settings} {db : Db} {decision : TradeDecision}
    (none_traded : decision.action = .hold ∨ decision.status = .skipped) (decisionId : ℕ)
    (broker : Broker) (adminId : ℕ) (now : Time) :
    ∃ exc, executeDecision settings db decisionId decision broker adminId now =
      ⟨[], [], .error exc⟩ := by
  cases attempt : prepareOrder settings db decisionId decision broker now with
  | error exc => exact ⟨exc, executeDecision_of_error attempt⟩
  | ok prepared =>
      have prepares := prepareOrder_eq_ok attempt
      rcases none_traded with holds | skips
      · exact absurd holds prepares.trades
      · rw [prepares.pending] at skips
        cases skips

/-- Decisions and their orders are well formed in every state that is reached, and a
decision to hold or to skip has no order, nor does an execution of it place one. -/
theorem decisions_well_formed (operations : List Operation)
    (exactly : ∀ operation ∈ operations, operation.Trusts Broker.QuotesExactly) :
    WellFormed (stateOf Db.empty operations) ∧
      ∀ decisionId decision,
        (stateOf Db.empty operations).decisions.get? decisionId = some decision →
        decision.action = .hold ∨ decision.status = .skipped →
          (∀ order ∈ (stateOf Db.empty operations).orders.contents,
            order.decisionId ≠ some decisionId) ∧
          ∀ (env : Env) (adminId : ℕ), ∃ exc,
            executeDecision env.settings (stateOf Db.empty operations) decisionId decision
              env.broker adminId env.now = ⟨[], [], .error exc⟩ := by
  have wellFormed := wellFormed_stateOf wellFormed_empty exactly
  refine ⟨wellFormed, fun decisionId decision found none_traded => ⟨?_, fun env adminId =>
    executeDecision_without_trade none_traded decisionId env.broker adminId env.now⟩⟩
  intro order member named
  obtain ⟨other, otherFound, carries⟩ := wellFormed.orders order member decisionId named
  rw [found] at otherFound
  cases otherFound
  rcases none_traded with holds | skips
  · exact carries.trades.2 holds
  · exact carries.trades.1 skips

theorem desk_quotesExactly : desk.broker.QuotesExactly := by
  intro ticker quote quoted
  cases quoted
  exact ⟨by norm_num, 500000000, by norm_num⟩

/-- The approval of a pending purchase is blocked, and its order row stays. -/
def blockedExecution : List Operation :=
  pendingDecision.map .serve ++ [.execute { desk with settings := { killSwitch := true } } 1 1]

theorem decisions_well_formed_blocked :
    WellFormed (stateOf Db.empty blockedExecution) ∧
      ∃ order ∈ (stateOf Db.empty blockedExecution).orders.contents, order.status = .rejected ∧
        order.quantity = 2 := by
  refine ⟨(decisions_well_formed blockedExecution ?_).1, by decide +kernel⟩
  intro operation member
  rcases List.mem_append.mp member with served | blocked
  · obtain ⟨event, eventMember, rfl⟩ := List.mem_map.mp served
    exact pendingDecision_trusts desk_quotesExactly event eventMember
  · rw [List.mem_singleton.mp blocked]
    exact desk_quotesExactly

end Runs

end FundPolymarket
