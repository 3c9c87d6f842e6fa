import FundPolymarket.Api
import FundPolymarket.Scoring

set_option autoImplicit false

/- `api/v1/`: the requests that only read, and `schemas/`: what they answer. Columns that the
database fills in by itself, such as the time of creation, are left out. -/
namespace FundPolymarket

open Decimal (Numeric)

section Schemas

structure MarketOut where
  id : ℕ
  fundId : ℕ
  title : String
  description : Option String
  ticker : String
  tickerName : Option String
  status : MarketStatus
  closesAt : Time
  resolveAt : Time
  buyThresholdPct : Numeric 6 2
  sellThresholdPct : Numeric 6 2
  referencePrice : Option Price
  resolutionPrice : Option Price
  winningOutcome : Option Outcome
  notionalKrw : Points

def MarketOut.ofRow (row : ℕ × Market) : MarketOut :=
  { row.2 with id := row.1 }

structure ConsensusOut where
  probabilities : List (Outcome × ℚ)
  stakeByOutcome : List (Outcome × ℚ)
  totalStake : ℚ
  participantCount : ℕ
  leadingOutcome : Option Outcome

/-- `_consensus_out`. -/
def ConsensusOut.ofConsensus (c : Consensus) : ConsensusOut :=
  { probabilities := c.asDict
    stakeByOutcome := allOutcomes.map fun outcome => (outcome, c.stakeByOutcome outcome)
    totalStake := c.totalStake
    participantCount := c.participantCount
    leadingOutcome := c.leadingOutcome }

structure BetOut where
  id : ℕ
  memberId : ℕ
  outcome : Outcome
  stake : Points
  rationale : Option String
  payout : Option Points

def BetOut.ofRow (row : ℕ × Bet) : BetOut := { row.2 with id := row.1 }

structure MarketDetailOut extends MarketOut where
  consensus : ConsensusOut
  myAllocation : List (Outcome × ℚ)
  bets : List BetOut

structure MemberWithBalance where
  id : ℕ
  email : String
  name : String
  role : Role
  isActive : Bool
  balance : ℚ

structure LedgerEntryOut where
  id : ℕ
  marketId : Option ℕ
  entryType : LedgerEntryType
  amount : Points
  memo : Option String

def LedgerEntryOut.ofRow (row : ℕ × LedgerEntry) : LedgerEntryOut := { row.2 with id := row.1 }

structure PositionOut where
  id : ℕ
  ticker : String
  tickerName : Option String
  quantity : ℤ
  avgPrice : Price

def PositionOut.ofRow (row : ℕ × Position) : PositionOut := { row.2 with id := row.1 }

structure OrderOut where
  id : ℕ
  marketId : Option ℕ
  decisionId : Option ℕ
  ticker : String
  side : OrderSide
  orderType : OrderType
  quantity : ℤ
  price : Option Price
  brokerEnv : String
  brokerOrderNo : Option String
  status : OrderStatus
  errorMessage : Option String

def OrderOut.ofRow (row : ℕ × Order) : OrderOut := { row.2 with id := row.1 }

end Schemas

/-- `.order_by(id.desc()).limit(min(limit, most))`; the database refuses a negative limit. -/
def newest {α : Type} (limit most : ℤ) (rows : List (ℕ × α)) : Except AppError (List (ℕ × α)) := do
  raiseIf (min limit most < 0) .dataError
  pure ((rows.insertionSort fun first second => second.1 ≤ first.1).take (min limit most).toNat)

/-- `.order_by(id)`. -/
def byId {α : Type} (rows : List (ℕ × α)) : List (ℕ × α) :=
  rows.insertionSort fun first second => first.1 ≤ second.1

/-- `get_current_member`, behind the token. -/
def getCurrentMember (db : Db) (memberId : ℕ) : Except AppError Member := do
  let member ← orRaise (.other "인증 정보가 유효하지 않습니다.") (db.members.get? memberId)
  raiseIf (member.isActive = false) (.other "인증 정보가 유효하지 않습니다.")
  pure member

def memberWithBalance (balance : ℚ) (row : ℕ × Member) : MemberWithBalance :=
  { row.2 with id := row.1, balance }

namespace Api

variable (db : Db)

def listMarkets (status : Option String) (limit : ℤ) : Except AppError (List MarketOut) := do
  let rows ← newest limit 200 (db.markets.rows.filter fun row =>
    !truthy status || some (toString row.2.status) = status)
  pure (rows.map MarketOut.ofRow)

/-- Before the close the bets of others are hidden, but for the consensus. -/
def getMarket (memberId marketId : ℕ) : Except AppError MarketDetailOut := do
  let market ← FundPolymarket.getMarket db marketId
  let consensus ← getConsensus db marketId
  let bets := db.betsOf marketId
  let own := bets.filter fun row => row.2.memberId = memberId
  let visible := if market.status ≠ .open then bets else own
  pure
    { MarketOut.ofRow (marketId, market) with
      consensus := .ofConsensus consensus
      myAllocation := own.map fun row => (row.2.outcome, row.2.stake.val)
      bets := visible.map BetOut.ofRow }

def getMarketConsensus (marketId : ℕ) : Except AppError ConsensusOut := do
  let _market ← FundPolymarket.getMarket db marketId
  let consensus ← getConsensus db marketId
  pure (.ofConsensus consensus)

def getDecision (marketId : ℕ) : Except AppError (ℕ × TradeDecision) :=
  orRaise (.notFound s!"마켓 {marketId}의 결정이 아직 없습니다.")
    (db.decisions.rows.find? fun row => row.2.marketId = marketId)

def listMembers : List MemberWithBalance :=
  let members := byId db.members.rows
  let balances := getBalances db (members.map Prod.fst)
  members.map fun row => memberWithBalance (Tally.get balances row.1) row

def myLedger (memberId : ℕ) (limit : ℤ) : Except AppError (List LedgerEntryOut) := do
  let rows ← newest limit 500 (db.ledger.rows.filter fun row => row.2.memberId = memberId)
  pure (rows.map LedgerEntryOut.ofRow)

def listOrders (limit : ℤ) : Except AppError (List OrderOut) := do
  let rows ← newest limit 200 db.orders.rows
  pure (rows.map OrderOut.ofRow)

def listPositions (fundId : ℕ) : Except AppError (List PositionOut) := do
  let _fund ← orRaise (.notFound s!"펀드 {fundId}을(를) 찾을 수 없습니다.") (db.funds.get? fundId)
  pure ((db.positions.select fun row => row.fundId = fundId ∧ 0 < row.quantity).map
    PositionOut.ofRow)

end Api

inductive ReadRequest where
  | listMarkets (status : Option String) (limit : ℤ)
  | getMarket (marketId : ℕ)
  | getMarketConsensus (marketId : ℕ)
  | getDecision (marketId : ℕ)
  | listMembers
  | myLedger (limit : ℤ)
  | leaderboard
  | me
  | listFunds
  | listOrders (limit : ℤ)
  | listPositions (fundId : ℕ)

inductive Response where
  | markets (body : List MarketOut)
  | market (body : MarketDetailOut)
  | consensus (body : ConsensusOut)
  | decision (body : ℕ × TradeDecision)
  | members (body : List MemberWithBalance)
  | ledger (body : List LedgerEntryOut)
  | scores (body : List MemberScore)
  | member (body : MemberWithBalance)
  | funds (body : List (ℕ × Fund))
  | orders (body : List OrderOut)
  | positions (body : List PositionOut)

/-- The answer to a member that the token names. -/
def respond (db : Db) (memberId : ℕ) (request : ReadRequest) : Except AppError Response := do
  let member ← getCurrentMember db memberId
  match request with
  | .listMarkets status limit => .markets <$> Api.listMarkets db status limit
  | .getMarket marketId => .market <$> Api.getMarket db memberId marketId
  | .getMarketConsensus marketId => .consensus <$> Api.getMarketConsensus db marketId
  | .getDecision marketId => .decision <$> Api.getDecision db marketId
  | .listMembers => pure (.members (Api.listMembers db))
  | .myLedger limit => .ledger <$> Api.myLedger db memberId limit
  | .leaderboard => .scores <$> leaderboard db
  | .me => pure (.member (memberWithBalance (getBalance db memberId) (memberId, member)))
  | .listFunds => pure (.funds (byId db.funds.rows))
  | .listOrders limit => .orders <$> Api.listOrders db limit
  | .listPositions fundId => .positions <$> Api.listPositions db fundId

end FundPolymarket
