import FundPolymarket.Risk

set_option autoImplicit false

/- `services/execution.py`. -/
namespace FundPolymarket

def getDecision (db : Db) (decisionId : ℕ) : Except AppError TradeDecision :=
  orRaise (.notFound s!"결정 {decisionId}을(를) 찾을 수 없습니다.") (db.decisions.get? decisionId)

/-- The columns that `reject_decision` sets. -/
def TradeDecision.reject (row : TradeDecision) (adminId : ℕ) (reason : String) (now : Time) :
    TradeDecision :=
  { row with
    status := .rejected
    reason := some reason
    approvedBy := some adminId
    approvedAt := some now }

def rejectDecision (decisionId : ℕ) (decision : TradeDecision) (adminId : ℕ) (reason : String)
    (now : Time) : Except AppError (List Write) := do
  raiseIf (decision.status ≠ .pendingApproval)
    (.conflict s!"결정이 {decision.status} 상태라 반려할 수 없습니다.")
  checkText (some reason)
  pure [.updateDecision decisionId fun row => row.reject adminId reason now]

/-- What `execute_decision` has read before it creates the order row. -/
structure Prepared where
  market : Market
  price : ℚ
  ctx : RiskContext
  verdict : RiskVerdict
  order : Order

def orderSide (action : Outcome) : OrderSide := if action = .buy then .buy else .sell

/-- `decision.limit_price or broker.get_quote(market.ticker).price`. -/
def orderPrice (limitPrice : Option Price) (ticker : String) (broker : Broker) :
    Except AppError ℚ :=
  match limitPrice with
  | some stored =>
      if stored.val = 0 then Quote.price <$> broker.getQuote ticker else pure stored.val
  | none => Quote.price <$> broker.getQuote ticker

/-- Only a limit order has a price. -/
def storedPrice (orderType : OrderType) (price : ℚ) : Except AppError (Option Price) :=
  match orderType with
  | .limit => some <$> store 18 4 price
  | .market => pure none

section ExecuteDecision

variable (settings : Settings) (db : Db) (decisionId : ℕ) (decision : TradeDecision)
  (broker : Broker) (adminId : ℕ) (now : Time)

/-- The guards, the risk check and the order row of `execute_decision`. -/
def prepareOrder : Except AppError Prepared := do
  raiseIf (decision.status ≠ .pendingApproval)
    (.conflict s!"결정이 {decision.status} 상태라 집행할 수 없습니다.")
  raiseIf (decision.action = .hold) (.conflict "HOLD 결정은 집행할 주문이 없습니다.")
  let market ← getMarket db decision.marketId
  let price ← orderPrice decision.limitPrice market.ticker broker
  let ctx : RiskContext :=
    { fundId := market.fundId
      ticker := market.ticker
      side := orderSide decision.action
      quantity := decision.targetQuantity
      price
      orderType := decision.orderType }
  let stored ← storedPrice decision.orderType price
  let quantity ← storeInteger decision.targetQuantity
  let brokerEnv ← storeText 10 broker.env
  let order : Order :=
    { decisionId := some decisionId
      marketId := some decision.marketId
      fundId := market.fundId
      ticker := market.ticker
      side := orderSide decision.action
      orderType := decision.orderType
      quantity
      price := stored
      brokerEnv
      createdAt := now }
  pure { market, price, ctx, verdict := checkOrder settings db ctx now broker, order }

/-- The request that the broker gets, rebuilt from the decision. -/
def orderRequest (prepared : Prepared) : OrderRequest :=
  { ticker := prepared.market.ticker
    side := orderSide decision.action
    quantity := decision.targetQuantity
    orderType := decision.orderType
    price := if decision.orderType = .limit then some prepared.price else none }

def TradeDecision.fail (row : TradeDecision) (reason : String) : TradeDecision :=
  { row with status := .failed, reason := some reason }

def TradeDecision.execute (row : TradeDecision) (adminId : ℕ) (now : Time) : TradeDecision :=
  { row with status := .executed, approvedBy := some adminId, approvedAt := some now }

def Market.execute (row : Market) : Market := { row with status := .executed }

def Order.reject (order : Order) (message : String) : Order :=
  { order with status := .rejected, errorMessage := some message }

def Order.submit (order : Order) (brokerOrderNo : Option String) (now : Time) : Order :=
  { order with
    status := .submitted
    brokerOrderNo
    submittedAt := some now }

/-- The number of an accepted order, on its way into its column. -/
def storedOrderNo (result : OrderResult) : Except AppError (Option String) :=
  result.brokerOrderNo.mapM (storeText 50)

/-- The rejected order and the failed decision, as flushed before the raise. -/
def failureWrites (prepared : Prepared) (message reason : String) : List Write :=
  [.insertOrder (prepared.order.reject message),
    .updateDecision decisionId fun row => row.fail reason]

def successWrites (prepared : Prepared) (brokerOrderNo : Option String) : List Write :=
  [.insertOrder (prepared.order.submit brokerOrderNo now),
    .updateDecision decisionId fun row => row.execute adminId now,
    .updateMarket decision.marketId Market.execute]

/-- How an execution ends: what is flushed in the session, the requests that went
to the broker, and the result or the exception. -/
structure Execution where
  flushed : List Write
  sent : List OrderRequest
  result : Except AppError Order

/-- A refusal leaves its message in the rows, where the columns take it, and is raised. -/
def refused (prepared : Prepared) (sent : List OrderRequest) (message reason : String)
    (exc : AppError) : Execution :=
  match checkText (some message) with
  | .error failure => ⟨[.insertOrder prepared.order], sent, .error failure⟩
  | .ok _ => ⟨failureWrites decisionId prepared message reason, sent, .error exc⟩

/-- An approved decision goes out as an order. Only a `BrokerError` of the broker
is caught; an order number that its column does not take is noticed after the
order has gone out. -/
def executeDecision : Execution :=
  match prepareOrder settings db decisionId decision broker now with
  | .error exc => ⟨[], [], .error exc⟩
  | .ok prepared =>
      if prepared.verdict.allowed = false then
        let message := prepared.verdict.reasonText
        refused decisionId prepared [] message ("리스크 차단: " ++ message) (.riskLimit message)
      else
        match broker.placeOrder (orderRequest decision prepared) with
        | .error (.broker message) =>
            refused decisionId prepared [orderRequest decision prepared] message
              ("브로커 오류: " ++ message) (.broker message)
        | .error exc =>
            ⟨[.insertOrder prepared.order], [orderRequest decision prepared], .error exc⟩
        | .ok result =>
            match storedOrderNo result with
            | .error exc =>
                ⟨[.insertOrder prepared.order], [orderRequest decision prepared], .error exc⟩
            | .ok brokerOrderNo =>
                ⟨successWrites decisionId decision adminId now prepared brokerOrderNo,
                  [orderRequest decision prepared],
                  .ok (prepared.order.submit brokerOrderNo now)⟩

end ExecuteDecision

/-- The positions of a fund, by ticker. -/
def positionsOf (db : Db) (fundId : ℕ) : List (ℕ × Position) :=
  db.positions.select fun p => p.fundId = fundId

/-- The latest values of a position in the session. -/
structure Synced where
  id : Option ℕ
  ticker : String
  tickerName : Option String
  quantity : ℤ
  avgPrice : ℚ

/-- `holding.name or position.ticker_name`. -/
def nameOr (name fallback : Option String) : Option String :=
  if truthy name then name else fallback

/-- One holding of the snapshot. The map of known positions is the one built
before the loop, so a new ticker that comes twice is added twice. -/
def syncHolding (existing : List (ℕ × Position)) (session : List Synced) (holding : HoldingItem) :
    List Synced :=
  if existing.any fun row => row.2.ticker = holding.ticker then
    session.map fun s =>
      if s.id.isSome ∧ s.ticker = holding.ticker then
        { s with
          tickerName := nameOr holding.name s.tickerName
          quantity := holding.quantity
          avgPrice := holding.avgPrice }
      else s
  else
    session ++ [⟨none, holding.ticker, nameOr holding.name none, holding.quantity,
      holding.avgPrice⟩]

/-- The columns that a synchronisation sets. -/
structure Synced.Stored where
  tickerName : Option String
  quantity : ℤ
  avgPrice : Price

def Synced.stored (s : Synced) : Except AppError Synced.Stored := do
  let tickerName ← s.tickerName.mapM (storeText 100)
  let quantity ← storeInteger s.quantity
  let avgPrice ← store 18 4 s.avgPrice
  pure { tickerName, quantity, avgPrice }

def syncedWrite (fundId : ℕ) (s : Synced) : Except AppError Write := do
  let stored ← s.stored
  match s.id with
  | some id => pure (.setPosition id stored.tickerName stored.quantity stored.avgPrice)
  | none => do
      let ticker ← storeText 20 s.ticker
      pure (.insertPosition
        ⟨fundId, ticker, stored.tickerName, stored.quantity, stored.avgPrice⟩)

/-- The balance of the broker overwrites the local positions. -/
def syncPositions (db : Db) (fundId : ℕ) (broker : Broker) : Except AppError (List Write) := do
  let snapshot ← broker.getBalance
  let existing := positionsOf db fundId
  let loaded : List Synced := existing.map fun row =>
    ⟨some row.1, row.2.ticker, row.2.tickerName, row.2.quantity, row.2.avgPrice.val⟩
  let session := snapshot.holdings.foldl (syncHolding existing) loaded
  let seen := snapshot.holdings.map HoldingItem.ticker
  let zeroed := session.map fun s =>
    if s.id.isSome ∧ s.ticker ∉ seen then { s with quantity := 0 } else s
  zeroed.mapM (syncedWrite fundId)

end FundPolymarket
