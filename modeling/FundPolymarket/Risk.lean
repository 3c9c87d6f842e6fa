import FundPolymarket.MarketService

set_option autoImplicit false

/- `services/market_hours.py` and `services/risk.py`. -/
namespace FundPolymarket

inductive SessionWindow where
  | closed
  | preMarket
  | regular
  | afterMarket
  deriving DecidableEq, Repr

namespace SessionWindow

def isOpen (window : SessionWindow) : Bool := window ≠ .closed

def marketOrderAllowed (window : SessionWindow) : Bool := window = .regular

def describe : SessionWindow → String
  | .closed => "장 운영시간 외"
  | .preMarket => "장 전 시간외 (08:00~09:00, 지정가만)"
  | .regular => "정규장 (09:00~15:30)"
  | .afterMarket => "장 후 시간외 (15:40~18:00, 지정가만)"

end SessionWindow

/-- `time(hour, minute)`, in microseconds since midnight. -/
def clock (hour minute : ℤ) : ℤ := (hour * 60 + minute) * 60000000

/-- The session at a point in time, in Korean local time. Day 0 is a Thursday;
holidays are not known. -/
def currentSession (now : Time) : SessionWindow :=
  let kst := now + clock 9 0
  let weekday := (kst / microsPerDay + 3) % 7
  let t := kst % microsPerDay
  if 5 ≤ weekday then .closed
  else if clock 8 0 ≤ t ∧ t < clock 9 0 then .preMarket
  else if clock 9 0 ≤ t ∧ t ≤ clock 15 30 then .regular
  else if clock 15 40 ≤ t ∧ t ≤ clock 18 0 then .afterMarket
  else .closed

structure RiskContext where
  fundId : ℕ
  ticker : String
  side : OrderSide
  quantity : ℤ
  price : ℚ
  orderType : OrderType := .limit

def RiskContext.notional (ctx : RiskContext) : ℚ := Decimal.mul ctx.price ctx.quantity

structure RiskVerdict where
  allowed : Bool
  reasons : List String

def RiskVerdict.reasonText (verdict : RiskVerdict) : String := "; ".intercalate verdict.reasons

/-- The orders of the fund in the last 24 hours that were not rejected. -/
def dailyOrderCount (db : Db) (fundId : ℕ) (now : Time) : ℕ :=
  (db.orders.contents.filter fun order =>
    order.fundId = fundId ∧ now - microsPerDay ≤ order.createdAt ∧
      order.status ≠ .rejected).length

section CheckOrder

variable (settings : Settings) (db : Db) (ctx : RiskContext) (now : Time)

def killSwitchReasons : List String :=
  if settings.killSwitch then ["킬 스위치가 켜져 있습니다(KILL_SWITCH=true)."] else []

def quantityReasons : List String :=
  if ctx.quantity ≤ 0 then ["주문 수량이 0 이하입니다."] else []

def amountReasons : List String :=
  if settings.maxOrderAmountKrw < ctx.notional then
    ["주문금액 " ++ Decimal.formatFixed 0 ctx.notional ++ "원이 1회 한도 " ++
      Decimal.formatFixed 0 settings.maxOrderAmountKrw ++ "원을 초과합니다."]
  else []

def sessionReasons : List String :=
  if settings.enforceMarketHours then
    let window := currentSession now
    if !window.isOpen then [window.describe ++ "입니다. 주문할 수 없습니다."]
    else if ctx.orderType = .market ∧ !window.marketOrderAllowed then
      [window.describe ++ "에는 시장가 주문을 낼 수 없습니다."]
    else []
  else []

def dailyReasons : List String :=
  let daily := dailyOrderCount db ctx.fundId now
  if settings.maxDailyOrders ≤ daily then
    ["최근 24시간 주문 " ++ toString daily ++ "건으로 한도(" ++
      toString settings.maxDailyOrders ++ ")에 도달했습니다."]
  else []

def positionReasons : List String :=
  if ctx.side = .sell then
    let held := positionQuantity db ctx.fundId ctx.ticker
    if held < ctx.quantity then
      ["보유수량(" ++ toString held ++ ")보다 많은 " ++ toString ctx.quantity ++
        "주를 매도하려 합니다."]
    else []
  else []

def cashReasons (snapshot : BalanceSnapshot) : List String :=
  if snapshot.cashKrw < ctx.notional then
    ["주문가능 현금 " ++ Decimal.formatFixed 0 snapshot.cashKrw ++ "원 < 주문금액 " ++
      Decimal.formatFixed 0 ctx.notional ++ "원"]
  else []

def equity (snapshot : BalanceSnapshot) : ℚ :=
  Decimal.add snapshot.cashKrw (Decimal.sum (snapshot.holdings.map HoldingItem.value))

/-- The value of the first row of the ticker. -/
def existingValue (snapshot : BalanceSnapshot) (ticker : String) : ℚ :=
  match snapshot.holdings.find? fun h => h.ticker = ticker with
  | some h => h.value
  | none => 0

def positionWeight (snapshot : BalanceSnapshot) : ℚ :=
  Decimal.div (Decimal.add (existingValue snapshot ctx.ticker) ctx.notional) (equity snapshot)

def weightReasons (snapshot : BalanceSnapshot) : List String :=
  if 0 < equity snapshot then
    if settings.maxPositionWeight < positionWeight ctx snapshot then
      [ctx.ticker ++ " 비중이 " ++ Decimal.formatPercent 1 (positionWeight ctx snapshot) ++
        "로 한도 " ++ Decimal.formatPercent 1 settings.maxPositionWeight ++ "를 넘습니다."]
    else []
  else []

/-- Without a balance the order is blocked. -/
def balanceReasons (broker : Broker) : List String :=
  if ctx.side = .buy then
    match broker.getBalance with
    | .error exc => ["잔고 조회에 실패해 주문을 차단했습니다: " ++ exc.text]
    | .ok snapshot => cashReasons ctx snapshot ++ weightReasons settings ctx snapshot
  else []

/-- The only gate to the broker. -/
def checkOrder (broker : Broker) : RiskVerdict :=
  let reasons := killSwitchReasons settings ++ quantityReasons ctx ++
    amountReasons settings ctx ++ sessionReasons settings ctx now ++
    dailyReasons settings db ctx now ++ positionReasons db ctx ++
    balanceReasons settings ctx broker
  { allowed := reasons.isEmpty, reasons }

end CheckOrder

-- 2024-01-02 was a Tuesday; 00:30 UTC is 09:30 in Seoul.
example : currentSession 1704155400000000 = .regular := by decide

end FundPolymarket
