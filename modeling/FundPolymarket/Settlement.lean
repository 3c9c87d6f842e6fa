import FundPolymarket.MarketService

set_option autoImplicit false

/- `services/settlement.py`. -/
namespace FundPolymarket

/-- The columns that `resolve_market` sets. -/
def Market.resolve (row : Market) (resolutionPrice : Price) (winningOutcome : Outcome)
    (now : Time) : Market :=
  { row with
    resolutionPrice := some resolutionPrice
    winningOutcome := some winningOutcome
    status := .resolved
    resolvedAt := some now }

/-- The price at the time of the verdict decides the right outcome. -/
def resolveMarket (marketId : ℕ) (market : Market) (broker : Broker) (now : Time) :
    Except AppError (List Write) := do
  raiseIf (market.status ≠ .closed ∧ market.status ≠ .decided ∧ market.status ≠ .executed)
    (.conflict s!"마켓이 {market.status} 상태라 판정할 수 없습니다.")
  let referencePrice ← orRaise
    (.conflict "기준가가 없습니다. 마감(close) 단계를 먼저 거쳐야 합니다.") market.referencePrice
  let quote ← broker.getQuote market.ticker
  let verdict ← resolveOutcome referencePrice.val quote.price market.buyThresholdPct.val
    market.sellThresholdPct.val
  let resolutionPrice ← store 18 4 quote.price
  pure [.updateMarket marketId fun row => row.resolve resolutionPrice verdict.1 now]

section SettleMarket

variable (db : Db) (marketId : ℕ)

def payoutMemo (winningOutcome : Outcome) : String :=
  s!"마켓 #{marketId} 정산 (정답 {winningOutcome})"

/-- The payouts that are still to be recorded. -/
def duePayouts (payouts : List (ℕ × ℚ)) : List (ℕ × ℚ) :=
  payouts.filter fun entry => 0 < entry.2 ∧ ¬ hasEntry db entry.1 marketId .payout

def payoutEntry (winningOutcome : Outcome) (entry : ℕ × ℚ) : Except AppError LedgerEntry :=
  record entry.1 .payout entry.2 (some marketId) (some (payoutMemo marketId winningOutcome))

/-- `total_stake_by_member`, and the refunds of a cancellation. -/
def stakeByMember : List (ℕ × ℚ) :=
  Tally.ofList ((db.betsOf marketId).map fun row => (row.2.memberId, row.2.stake.val))

/-- A row's part of the member's payout, in proportion to its stake. -/
def shownPayout (memberTotal memberPayout stake : ℚ) : Except AppError ℚ :=
  if 0 < memberTotal then q (Decimal.div (Decimal.mul memberPayout stake) memberTotal) 2 .halfEven
  else pure 0

/-- The member's payout, split over the member's rows for display. -/
def rowPayout (payouts : List (ℕ × ℚ)) (row : ℕ × Bet) : Except AppError ℚ :=
  shownPayout (Tally.get (stakeByMember db marketId) row.2.memberId)
    (Tally.get payouts row.2.memberId) row.2.stake.val

/-- The part of a row, and its way into the column. -/
def betPayout (payouts : List (ℕ × ℚ)) (row : ℕ × Bet) : Except AppError (ℕ × Points) := do
  let shown ← rowPayout db marketId payouts row
  let payout ← store 18 2 shown
  pure (row.1, payout)

def Market.settle (row : Market) (now : Time) : Market :=
  { row with status := .settled, settledAt := some now }

/-- The points of a resolved market are paid out, once. -/
def settleMarket (settings : Settings) (market : Market) (now : Time) :
    Except AppError (List Write) := do
  raiseIf (market.status = .settled) (.conflict "이미 정산된 마켓입니다.")
  let refusal : AppError := .conflict s!"마켓이 {market.status} 상태라 정산할 수 없습니다."
  raiseIf (market.status ≠ .resolved) refusal
  let winningOutcome ← orRaise refusal market.winningOutcome
  let payouts ← settleParimutuel (loadStakes db marketId) winningOutcome settings.rakeBps
  -- Every part is computed before the one flush at the end.
  let _parts ← (db.betsOf marketId).mapM (rowPayout db marketId payouts)
  let entries ← (duePayouts db marketId payouts).mapM (payoutEntry marketId winningOutcome)
  let shown ← (db.betsOf marketId).mapM (betPayout db marketId payouts)
  pure (entries.map Write.insertLedger ++ shown.map (fun entry => .setPayout entry.1 entry.2) ++
    [.updateMarket marketId fun row => row.settle now])

/-- The refunds that are still to be recorded. -/
def dueRefunds : List (ℕ × ℚ) :=
  (stakeByMember db marketId).filter fun entry => ¬ hasEntry db entry.1 marketId .cancelRefund

/-- The memo quotes the reason, which is the only text of the caller in it. -/
def refundEntry (reason : String) (entry : ℕ × ℚ) : Except AppError LedgerEntry := do
  checkText (some reason)
  record entry.1 .cancelRefund entry.2 (some marketId) (some s!"마켓 #{marketId} 취소 환불: {reason}")

def Market.cancel (row : Market) (now : Time) : Market :=
  { row with status := .cancelled, settledAt := some now }

/-- A market is voided and every stake given back. -/
def cancelMarket (market : Market) (reason : String) (now : Time) :
    Except AppError (List Write) := do
  raiseIf (market.status = .settled ∨ market.status = .cancelled)
    (.conflict s!"마켓이 이미 {market.status} 상태입니다.")
  let entries ← (dueRefunds db marketId).mapM (refundEntry marketId reason)
  pure (entries.map Write.insertLedger ++ [.updateMarket marketId fun row => row.cancel now])

end SettleMarket

end FundPolymarket
