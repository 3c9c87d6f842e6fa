import FundPolymarket.Brokers
import FundPolymarket.KisClient

set_option autoImplicit false

/- `brokers/kis/broker.py` and the transaction ids of `brokers/kis/constants.py`. -/
namespace FundPolymarket.Kis

open Python (ExtendedDecimal Json Unicode)

def pathInquirePrice : String := "/uapi/domestic-stock/v1/quotations/inquire-price"

def pathOrderCash : String := "/uapi/domestic-stock/v1/trading/order-cash"

def pathInquireBalance : String := "/uapi/domestic-stock/v1/trading/inquire-balance"

def trInquirePrice : String := "FHKST01010100"

/-- The ids that environment variables can replace. -/
structure TrIds where
  orderBuy : String := "TTTC0802U"
  orderSell : String := "TTTC0801U"
  balance : String := "TTTC8434R"

def toPaperTrId (trId : String) : String :=
  match trId.toList with
  | 'T' :: rest | 'J' :: rest | 'C' :: rest => String.ofList ('V' :: rest)
  | _ => trId

def resolveTrId (trId : String) (env : KisEnv) : String :=
  if env = .live then trId else toPaperTrId trId

def marketDivStock : String := "J"

def ordDvsnLimit : String := "00"

def ordDvsnMarket : String := "01"

/-- The answers of the adapter keep what KIS sent as it came. -/
structure Quote where
  ticker : String
  price : ExtendedDecimal
  name : Json
  prevClose : Option ExtendedDecimal
  raw : Json

structure OrderResult where
  brokerOrderNo : Json
  message : Json
  requestPayload : List (String × String)
  responsePayload : Json

structure HoldingItem where
  ticker : String
  name : Json
  quantity : ℤ
  avgPrice : ExtendedDecimal
  currentPrice : Option ExtendedDecimal

structure BalanceSnapshot where
  cashKrw : ExtendedDecimal
  holdings : List HoldingItem
  raw : Json

def zero : ExtendedDecimal := .finite false 0 0

section Fields

variable [Unicode]

/-- `Decimal(str(value).strip())`. -/
def decimalOf (value : Json) : Option ExtendedDecimal :=
  Python.decimalOfText (Python.strip value.text)

/-- `_dec`. -/
def dec (value : Json) (default : ExtendedDecimal := zero) : ExtendedDecimal :=
  if value.isNone || value.isText "" || value.isText "-" then default
  else (decimalOf value).getD default

/-- `_int`: of the conversions of a decimal, only that of a NaN is caught. -/
def int (value : Json) (default : ℤ := 0) : Except Python.Exception ℤ :=
  match decimalOf value with
  | none => .ok default
  | some d =>
      match d.toInt with
      | .error .valueError => .ok default
      | result => result

end Fields

structure KisBroker where
  client : KisClient
  trIds : TrIds := {}
  cano : String
  acntPrdtCd : String

namespace KisBroker

def quoteParams (ticker : String) : List (String × String) :=
  [("FID_COND_MRKT_DIV_CODE", marketDivStock), ("FID_INPUT_ISCD", ticker)]

/-- The quote that is made of a body. -/
def readQuote [Unicode] (ticker : String) (body : Json) : Except Failure Quote := do
  let output ← raises (body.get "output")
  let output := output.or (.dict [])
  let priceText ← raises (output.get "stck_prpr")
  let price := dec priceText
  let nonpositive ← raises price.nonpositive
  raiseIf (nonpositive = true)
    (.broker (ticker ++ " 현재가를 가져오지 못했습니다: " ++ output.text))
  let name ← raises (output.get "hts_kor_isnm")
  let prevClose ← raises (output.get "stck_sdpr")
  pure { ticker, price, name, prevClose := (dec prevClose).orNone, raw := output }

def getQuote [Unicode] (broker : KisBroker) (s : Surroundings) (ticker : String) :
    Except Failure Quote := do
  let body ← broker.client.get s pathInquirePrice trInquirePrice (s.quote (quoteParams ticker))
  readQuote ticker body

def orderTrId (broker : KisBroker) (side : OrderSide) : String :=
  let live := match side with
    | .buy => broker.trIds.orderBuy
    | .sell => broker.trIds.orderSell
  resolveTrId live broker.client.env

/-- `int(price)` cuts towards zero. -/
def wholeWon (price : ℚ) : ℤ := price.num.tdiv price.den

def orderFields (broker : KisBroker) (request : OrderRequest) (ordDvsn ordUnpr : String) :
    List (String × String) :=
  [("CANO", broker.cano), ("ACNT_PRDT_CD", broker.acntPrdtCd), ("PDNO", request.ticker),
    ("ORD_DVSN", ordDvsn), ("ORD_QTY", toString request.quantity), ("ORD_UNPR", ordUnpr)]

/-- The division code and the unit price of a request that is sent at all. -/
def orderTerms (request : OrderRequest) : Except Failure (String × String) := do
  raiseIf (request.quantity ≤ 0) (.broker "주문 수량은 1주 이상이어야 합니다.")
  match request.orderType with
  | .market => pure (ordDvsnMarket, "0")
  | .limit =>
      match request.price with
      | some price => do
          raiseIf (price ≤ 0) (.broker "지정가 주문에는 가격이 필요합니다.")
          pure (ordDvsnLimit, toString (wholeWon price))
      | none => .error (.broker "지정가 주문에는 가격이 필요합니다.")

/-- What is read of the answer to an order that KIS has accepted. -/
def readOrder (fields : List (String × String)) (response : Json) : Except Failure OrderResult := do
  let output ← raises (response.get "output")
  let brokerOrderNo ← raises ((output.or (.dict [])).get "ODNO")
  let message ← raises (response.get "msg1" (.str ""))
  pure { brokerOrderNo, message, requestPayload := fields, responsePayload := response }

def placeOrder [Unicode] (broker : KisBroker) (s : Surroundings) (request : OrderRequest) :
    Except Failure OrderResult := do
  let terms ← orderTerms request
  let fields := broker.orderFields request terms.1 terms.2
  let response ← broker.client.post s pathOrderCash (broker.orderTrId request.side) fields
    (s.order fields)
  readOrder fields response

def balanceParams (broker : KisBroker) : List (String × String) :=
  [("CANO", broker.cano), ("ACNT_PRDT_CD", broker.acntPrdtCd), ("AFHR_FLPR_YN", "N"),
    ("OFL_YN", ""), ("INQR_DVSN", "02"), ("UNPR_DVSN", "01"), ("FUND_STTL_ICLD_YN", "N"),
    ("FNCG_AMT_AUTO_RDPT_YN", "N"), ("PRCS_DVSN", "00"), ("CTX_AREA_FK100", ""),
    ("CTX_AREA_NK100", "")]

/-- The elements that `for row in value` runs through: the keys of a dict, and the characters
of a text. -/
def iterate : Json → Except Python.Exception (List Json)
  | .list items => .ok items
  | .dict entries => .ok (entries.map fun entry => .str entry.1)
  | .str text => .ok (text.toList.map fun c => .str c.toString)
  | _ => .error .typeError

/-- `value[0]`. -/
def first : Json → Except Python.Exception Json
  | .list (item :: _) => .ok item
  | .list [] => .error .indexError
  | .dict _ => .error .keyError
  | .str text => match text.toList with
    | c :: _ => .ok (.str c.toString)
    | [] => .error .indexError
  | _ => .error .typeError

/-- A row without shares is no holding. -/
def readHolding [Unicode] (row : Json) : Except Failure (Option HoldingItem) := do
  let quantityText ← raises (row.get "hldg_qty")
  let quantity ← raises (int quantityText)
  if quantity ≤ 0 then pure none
  else do
    let ticker ← raises (row.get "pdno" (.str ""))
    let name ← raises (row.get "prdt_name")
    let avgPrice ← raises (row.get "pchs_avg_pric")
    let currentPrice ← raises (row.get "prpr")
    pure (some
      { ticker := Python.strip ticker.text, name, quantity, avgPrice := dec avgPrice,
        currentPrice := (dec currentPrice).orNone })

/-- `summary_rows[0]`, or an empty dict. -/
def summaryRow (output2 : Json) : Except Python.Exception Json :=
  if output2.truthy then first output2 else .ok (.dict [])

def readBalance [Unicode] (body : Json) : Except Failure BalanceSnapshot := do
  let output1 ← raises (body.get "output1")
  let rows ← raises (iterate (output1.or (.list [])))
  let holdings ← rows.mapM readHolding
  let output2 ← raises (body.get "output2")
  let summary ← raises (summaryRow output2)
  let cash ← raises (summary.get "dnca_tot_amt")
  pure { cashKrw := dec cash, holdings := holdings.filterMap id, raw := body }

def getBalance [Unicode] (broker : KisBroker) (s : Surroundings) :
    Except Failure BalanceSnapshot := do
  let body ← broker.client.get s pathInquireBalance
    (resolveTrId broker.trIds.balance broker.client.env) (s.balance broker.balanceParams)
  readBalance body

end KisBroker

end FundPolymarket.Kis
