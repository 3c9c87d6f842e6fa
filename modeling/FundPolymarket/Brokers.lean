import FundPolymarket.Enums
import FundPolymarket.Session

set_option autoImplicit false

/- `brokers/base.py` and `brokers/mock.py`. -/
namespace FundPolymarket

structure Quote where
  ticker : String
  price : ℚ
  name : Option String := none

structure OrderRequest where
  ticker : String
  side : OrderSide
  quantity : ℤ
  orderType : OrderType
  price : Option ℚ := none
  deriving DecidableEq, Repr

structure OrderResult where
  brokerOrderNo : Option String
  message : String := ""

structure HoldingItem where
  ticker : String
  name : Option String
  quantity : ℤ
  avgPrice : ℚ
  currentPrice : Option ℚ := none

structure BalanceSnapshot where
  cashKrw : ℚ
  holdings : List HoldingItem

/-- The `Broker` protocol, as it answers during one service call. No call asks the
same question twice, so a broker whose answers change over time is covered by a
different value for every call. -/
structure Broker where
  env : String
  getQuote : String → Except AppError Quote
  placeOrder : OrderRequest → Except AppError OrderResult
  getBalance : Except AppError BalanceSnapshot

/-- A broker that quotes one price, accepts every order and reports one balance. -/
def Broker.steady (price cash : ℚ) (holdings : List HoldingItem) : Broker where
  env := "mock"
  getQuote ticker := .ok { ticker, price }
  placeOrder _ := .ok { brokerOrderNo := some "1" }
  getBalance := .ok { cashKrw := cash, holdings }

/-- Python's `x or y` on an optional decimal: zero is as good as absent. -/
def orDecimal (x : Option ℚ) (y : ℚ) : ℚ :=
  match x with
  | some value => if value = 0 then y else value
  | none => y

def HoldingItem.price (h : HoldingItem) : ℚ := orDecimal h.currentPrice h.avgPrice

def HoldingItem.value (h : HoldingItem) : ℚ := Decimal.mul h.price h.quantity

structure MockBroker where
  prices : List (String × ℚ) := []
  defaultPrice : ℚ := 70000
  cash : ℚ := 10000000
  holdings : List HoldingItem := []
  submitted : List OrderRequest := []
  counter : ℕ := 1

namespace MockBroker

/-- `self._holdings.get(ticker)`. -/
def holding (mock : MockBroker) (ticker : String) : Option HoldingItem :=
  mock.holdings.find? fun h => h.ticker = ticker

def heldQuantity (mock : MockBroker) (ticker : String) : ℤ :=
  match mock.holding ticker with
  | some h => h.quantity
  | none => 0

def price (mock : MockBroker) (ticker : String) : ℚ :=
  ((mock.prices.find? fun entry => entry.1 = ticker).map Prod.snd).getD mock.defaultPrice

def getQuote (mock : MockBroker) (ticker : String) : Quote :=
  { ticker := ticker, price := mock.price ticker, name := some ("MOCK-" ++ ticker) }

/-- `self._holdings[item.ticker] = item`. -/
def setHolding (holdings : List HoldingItem) (item : HoldingItem) : List HoldingItem :=
  match holdings with
  | [] => [item]
  | h :: rest => if h.ticker = item.ticker then item :: rest else h :: setHolding rest item

def orderNo (counter : ℕ) : String :=
  let digits := toString counter
  "MOCK" ++ String.ofList (List.replicate (8 - digits.length) '0') ++ digits

/-- Every order is filled at once. A sale beyond the holding is clamped at zero
shares and still credited in full. -/
def placeOrder (mock : MockBroker) (request : OrderRequest) :
    Except AppError (OrderResult × MockBroker) := do
  let fillPrice := orDecimal request.price (mock.price request.ticker)
  let amount := Decimal.mul fillPrice request.quantity
  let prevQty := mock.heldQuantity request.ticker
  let result := { brokerOrderNo := some (orderNo mock.counter), message := "mock filled" }
  let submitted := mock.submitted ++ [request]
  let counter := mock.counter + 1
  match request.side with
  | .buy => do
      let prevCost := match mock.holding request.ticker with
        | some h => Decimal.mul h.avgPrice prevQty
        | none => 0
      let newQty := prevQty + request.quantity
      raiseIf (newQty = 0) .invalidOperation
      let newAvg := Decimal.div (Decimal.add prevCost amount) newQty
      pure (result,
        { mock with
          holdings := setHolding mock.holdings
            { ticker := request.ticker, name := none, quantity := newQty, avgPrice := newAvg }
          cash := Decimal.sub mock.cash amount
          submitted, counter })
  | .sell => do
      let newQty := max 0 (prevQty - request.quantity)
      let avgPrice := match mock.holding request.ticker with
        | some h => h.avgPrice
        | none => 0
      let holdings :=
        if newQty = 0 then mock.holdings.filter fun h => h.ticker ≠ request.ticker
        else setHolding mock.holdings
          { ticker := request.ticker, name := none, quantity := newQty, avgPrice := avgPrice }
      pure (result,
        { mock with holdings, cash := Decimal.add mock.cash amount, submitted, counter })

def getBalance (mock : MockBroker) : BalanceSnapshot :=
  { cashKrw := mock.cash, holdings := mock.holdings }

/-- The broker that a service call sees in a given state of the mock. -/
def toBroker (mock : MockBroker) : Broker where
  env := "mock"
  getQuote ticker := .ok (mock.getQuote ticker)
  placeOrder request := Prod.fst <$> mock.placeOrder request
  getBalance := .ok mock.getBalance

end MockBroker

end FundPolymarket
