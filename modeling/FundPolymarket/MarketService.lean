import FundPolymarket.Brokers
import FundPolymarket.Consensus
import FundPolymarket.Models

set_option autoImplicit false

/- `services/ledger_service.py` and `services/market_service.py`. A service returns
the writes that it flushes; the caller commits them. -/
namespace FundPolymarket

def getBalance (db : Db) (memberId : ℕ) : ℚ :=
  ((db.ledger.contents.filter fun entry => entry.memberId = memberId).map
    fun entry => entry.amount.val).sum

/-- The rows of `GROUP BY member_id` over the entries of some members. -/
def balanceRows (db : Db) (memberIds : List ℕ) : List (ℕ × ℚ) :=
  let entries := db.ledger.contents.filter fun entry => entry.memberId ∈ memberIds
  (entries.map LedgerEntry.memberId).dedup.map fun memberId =>
    (memberId, ((entries.filter fun entry => entry.memberId = memberId).map
      fun entry => entry.amount.val).sum)

def getBalances (db : Db) (memberIds : List ℕ) : List (ℕ × ℚ) :=
  if memberIds = [] then []
  else
    (balanceRows db memberIds).foldl (fun balances row => Tally.set balances row.1 row.2)
      (Tally.zeros memberIds)

/-- The row that is added; rows are never changed or removed. -/
def record (memberId : ℕ) (entryType : LedgerEntryType) (amount : ℚ) (marketId : Option ℕ)
    (memo : Option String) : Except AppError LedgerEntry := do
  let amount ← store 18 2 amount
  pure { memberId, marketId, entryType, amount, memo }

def hasEntry (db : Db) (memberId marketId : ℕ) (entryType : LedgerEntryType) : Bool :=
  db.ledger.contents.any fun entry =>
    entry.memberId = memberId ∧ entry.marketId = some marketId ∧ entry.entryType = entryType

def getMarket (db : Db) (marketId : ℕ) : Except AppError Market :=
  orRaise (.notFound s!"마켓 {marketId}을(를) 찾을 수 없습니다.") (db.markets.get? marketId)

def Bet.toStake (bet : Bet) : Stake := ⟨bet.memberId, bet.outcome, bet.stake.val⟩

def loadStakes (db : Db) (marketId : ℕ) : List Stake :=
  (db.betsOf marketId).map fun row => row.2.toStake

def getConsensus (db : Db) (marketId : ℕ) : Except AppError Consensus :=
  computeConsensus (loadStakes db marketId)

/-- A `dict[Outcome, Decimal]`. -/
structure Allocation where
  entries : List (Outcome × ℚ)
  nodup : (entries.map Prod.fst).Nodup

/-- The entries that are staked. -/
def Allocation.cleaned (allocation : Allocation) : List (Outcome × ℚ) :=
  allocation.entries.filter fun entry => 0 < entry.2

def Allocation.total (allocation : Allocation) : ℚ :=
  Decimal.sum (allocation.cleaned.map Prod.snd)

/-- The member's rows on the market. -/
def existingBets (db : Db) (marketId memberId : ℕ) : List (ℕ × Bet) :=
  db.bets.select fun bet => bet.marketId = marketId ∧ bet.memberId = memberId

def previousTotal (db : Db) (marketId memberId : ℕ) : ℚ :=
  Decimal.sum ((existingBets db marketId memberId).map fun row => row.2.stake.val)

section PlaceAllocation

variable (settings : Settings) (db : Db) (marketId : ℕ) (market : Market) (memberId : ℕ)
  (allocation : Allocation) (rationale : Option String) (now : Time)

/-- The checks of `place_allocation`; all of them precede the first write. -/
def checkAllocation : Except AppError Unit := do
  raiseIf (market.status ≠ .open)
    (.conflict s!"마켓이 {market.status} 상태라 베팅할 수 없습니다.")
  raiseIf (market.closesAt ≤ now) (.conflict "베팅 마감 시각이 지났습니다.")
  raiseIf (allocation.cleaned = []) (.domain "최소 한 개 결과에 포인트를 배분해야 합니다.")
  raiseIf (∃ entry ∈ allocation.cleaned, entry.2 < settings.minStake)
    (.domain ("결과당 최소 " ++ Decimal.text settings.minStake ++ " 포인트 이상 걸어야 합니다."))
  -- The old stakes count as free: they are refunded before the new lock.
  let balance := Decimal.add (getBalance db memberId) (previousTotal db marketId memberId)
  raiseIf (balance < allocation.total)
    (.insufficientPoints ("보유 포인트 " ++ Decimal.formatFixed 0 balance ++ "로는 " ++
      Decimal.formatFixed 0 allocation.total ++ "를 걸 수 없습니다."))
  let maxAllowed ← q (Decimal.mul balance settings.maxStakeRatio) 2 .halfEven
  raiseIf (maxAllowed < allocation.total)
    (.domain ("한 마켓에는 보유 포인트의 " ++ Decimal.formatPercent 0 settings.maxStakeRatio ++
      "까지만 걸 수 있습니다 (최대 " ++ Decimal.formatFixed 0 maxAllowed ++ ")."))

def previousRefund : Except AppError (List LedgerEntry) :=
  if 0 < previousTotal db marketId memberId then do
    let refund ← record memberId .betRefund (previousTotal db marketId memberId) (some marketId)
      (some "배분 변경에 따른 이전 스테이크 환불")
    pure [refund]
  else pure []

def newBet (entry : Outcome × ℚ) : Except AppError Bet := do
  let stake ← store 18 2 entry.2
  checkText rationale
  pure { marketId, memberId, outcome := entry.1, stake, rationale }

/-- The whole allocation of a member is replaced: the old stakes are refunded and
deleted, the new ones inserted and locked. -/
def placeAllocation : Except AppError (List Write) := do
  checkAllocation settings db marketId market memberId allocation now
  let refund ← previousRefund db marketId memberId
  let bets ← allocation.cleaned.mapM (newBet marketId memberId rationale)
  let lock ← record memberId .betLock (-allocation.total) (some marketId)
    (some s!"마켓 #{marketId} 베팅")
  pure (refund.map Write.insertLedger ++
    (existingBets db marketId memberId).map (fun row => Write.deleteBet row.1) ++
    bets.map Write.insertBet ++ [.insertLedger lock])

end PlaceAllocation

/-- Python's truth value of an optional string. -/
def truthy (text : Option String) : Bool :=
  match text with
  | some value => value ≠ ""
  | none => false

/-- The columns that `close_market` sets. -/
def Market.close (row : Market) (quotedName : Option String) (referencePrice : Price)
    (now : Time) : Market :=
  { row with
    referencePrice := some referencePrice
    tickerName := quotedName.orElse fun _ => row.tickerName
    status := .closed
    closedAt := some now }

/-- The name of the quote, where the market has none of its own. -/
def quotedName (market : Market) (quote : Quote) : Except AppError (Option String) :=
  if truthy quote.name ∧ ¬ truthy market.tickerName then quote.name.mapM (storeText 100)
  else pure none

/-- Betting ends and the reference price is taken. -/
def closeMarket (marketId : ℕ) (market : Market) (broker : Broker) (now : Time) :
    Except AppError (List Write) := do
  raiseIf (market.status ≠ .open) (.conflict s!"마켓이 이미 {market.status} 상태입니다.")
  let quote ← broker.getQuote market.ticker
  let referencePrice ← store 18 4 quote.price
  let name ← quotedName market quote
  pure [.updateMarket marketId fun row => row.close name referencePrice now]

section BuildDecision

variable (settings : Settings) (db : Db) (market : Market) (consensus : Consensus)

def activeCount : ℕ := (db.members.contents.filter Member.isActive).length

/-- Nobody bet, or too few of the active members did. -/
def quorumReasons : List String :=
  if consensus.totalStake ≤ 0 then ["아무도 베팅하지 않았습니다."]
  else if 0 < activeCount db then
    let participation := Decimal.div consensus.participantCount (activeCount db)
    if participation < settings.quorumRatio then
      ["참여율 " ++ Decimal.formatPercent 0 participation ++ "가 정족수 " ++
        Decimal.formatPercent 0 settings.quorumRatio ++ "에 미달합니다 (" ++
        toString consensus.participantCount ++ "/" ++ toString (activeCount db) ++ "명)."]
    else []
  else []

/-- The quorum reasons, or else a leading probability below the threshold. -/
def consensusReasons : List String :=
  if quorumReasons settings db consensus = [] ∧
      consensus.leadingProbability < settings.executionMinProbability then
    ["1등 확률 " ++ Decimal.formatPercent 0 consensus.leadingProbability ++ "가 집행 기준 " ++
      Decimal.formatPercent 0 settings.executionMinProbability ++ "에 미달합니다."]
  else quorumReasons settings db consensus

def positionQuantity (fundId : ℕ) (ticker : String) : ℤ :=
  match db.positions.contents.find? fun p => p.fundId = fundId ∧ p.ticker = ticker with
  | some p => p.quantity
  | none => 0

structure Sizing where
  quantity : ℤ
  limitPrice : Option ℚ
  reasons : List String

/-- The size of an order: what the notional buys, or the whole position. -/
def sizeOrder (action : Outcome) (broker : Broker) : Except AppError Sizing := do
  let quote ← broker.getQuote market.ticker
  if action = .buy then do
    let quantity ← orRaise .invalidOperation
      (Decimal.floordiv market.notionalKrw.val quote.price)
    let reasons := if quantity ≤ 0 then
        ["주문금액 " ++ Decimal.formatFixed 0 market.notionalKrw.val ++
          "원으로는 1주도 살 수 없습니다(현재가 " ++ Decimal.formatFixed 0 quote.price ++ ")."]
      else []
    pure ⟨quantity, some quote.price, reasons⟩
  else
    let quantity := positionQuantity db market.fundId market.ticker
    let reasons := if quantity ≤ 0 then ["매도할 보유 수량이 없습니다."] else []
    pure ⟨quantity, some quote.price, reasons⟩

/-- The order is sized only where the consensus is strong enough to trade. -/
def sizing (action : Outcome) (broker : Broker) : Except AppError Sizing :=
  if consensusReasons settings db consensus = [] ∧ action ≠ .hold then
    sizeOrder db market action broker
  else pure ⟨0, none, []⟩

/-- Everything that speaks against an order. -/
def skipReasons (action : Outcome) (sized : Sizing) : List String :=
  let reasons := consensusReasons settings db consensus ++ sized.reasons
  if action = .hold ∧ reasons = [] then ["합의 결과가 HOLD입니다. 주문 없음."] else reasons

variable {settings db consensus} in
theorem skipReasons_eq_nil {action : Outcome} {sized : Sizing} :
    skipReasons settings db consensus action sized = [] ↔
      consensusReasons settings db consensus = [] ∧ sized.reasons = [] ∧ action ≠ .hold := by
  rw [skipReasons]
  by_cases hold : action = .hold
  · by_cases nothing : consensusReasons settings db consensus ++ sized.reasons = []
    · simp [hold, nothing]
    · simp [hold, nothing]
  · simp [hold]

end BuildDecision

def storedLimitPrice (reasons : List String) (sized : Sizing) : Except AppError (Option Price) :=
  if reasons = [] then sized.limitPrice.mapM (store 18 4) else pure none

def storedQuantity (reasons : List String) (sized : Sizing) : Except AppError ℤ :=
  storeInteger (if reasons = [] then sized.quantity else 0)

/-- The row that is added. The texts of the reasons are the program's own. -/
def newDecision (marketId : ℕ) (action : Outcome) (consensus : Consensus) (totalStake : Points)
    (participantCount : ℕ) (targetQuantity : ℤ) (limitPrice : Option Price)
    (reasons : List String) : TradeDecision :=
  { marketId
    action
    probabilities := consensus.asDict
    totalStake
    participantCount
    targetQuantity
    limitPrice
    orderType := .limit
    status := if reasons = [] then .pendingApproval else .skipped
    reason := if reasons = [] then none else some ("; ".intercalate reasons) }

def Market.decide (row : Market) : Market := { row with status := .decided }

/-- The decision of a closed market, from the consensus of its bets. No order is
sent here. -/
def buildDecision (settings : Settings) (db : Db) (marketId : ℕ) (market : Market)
    (broker : Broker) : Except AppError (List Write) := do
  raiseIf (market.status ≠ .closed)
    (.conflict s!"마켓이 {market.status} 상태라 결정을 만들 수 없습니다.")
  match db.decisions.rows.find? fun row => row.2.marketId = marketId with
  | some existing =>
      throw (.conflict s!"마켓 #{marketId}의 결정이 이미 존재합니다(#{existing.1}).")
  | none => do
      let consensus ← getConsensus db marketId
      let action := consensus.leadingOutcome.getD .hold
      let sized ← sizing settings db market consensus action broker
      let reasons := skipReasons settings db consensus action sized
      let totalStake ← store 18 2 consensus.totalStake
      let participantCount ← storeCount consensus.participantCount
      let targetQuantity ← storedQuantity reasons sized
      let limitPrice ← storedLimitPrice reasons sized
      pure [.insertDecision
          (newDecision marketId action consensus totalStake participantCount targetQuantity
            limitPrice reasons),
        .updateMarket marketId Market.decide]

/-- The search of `build_decision` for an earlier decision finds none. -/
theorem search_none {db : Db} {marketId : ℕ}
    (fresh : ∀ decision ∈ db.decisions.contents, decision.marketId ≠ marketId) :
    db.decisions.rows.find? (fun row => row.2.marketId = marketId) = none := by
  rw [List.find?_eq_none]
  intro row member
  rw [decide_eq_true_eq]
  exact fresh row.2 (List.mem_map_of_mem member)

end FundPolymarket
