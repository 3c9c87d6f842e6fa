import FundPolymarket.DecimalContext

set_option autoImplicit false

/- `core/enums.py`, `core/errors.py` and the part of `core/config.py` that the
services read. -/
namespace FundPolymarket

inductive Role where
  | member
  | admin
  deriving DecidableEq, Repr

inductive Outcome where
  | buy
  | sell
  | hold
  deriving DecidableEq, Repr

def allOutcomes : List Outcome := [.buy, .sell, .hold]

theorem mem_allOutcomes (outcome : Outcome) : outcome ∈ allOutcomes := by
  cases outcome <;> simp [allOutcomes]

instance : ToString Outcome where
  toString
    | .buy => "BUY"
    | .sell => "SELL"
    | .hold => "HOLD"

inductive MarketStatus where
  | open
  | closed
  | decided
  | executed
  | resolved
  | settled
  | cancelled
  deriving DecidableEq, Repr

instance : ToString MarketStatus where
  toString
    | .open => "OPEN"
    | .closed => "CLOSED"
    | .decided => "DECIDED"
    | .executed => "EXECUTED"
    | .resolved => "RESOLVED"
    | .settled => "SETTLED"
    | .cancelled => "CANCELLED"

inductive DecisionStatus where
  | pendingApproval
  | approved
  | rejected
  | executed
  | skipped
  | failed
  deriving DecidableEq, Repr

instance : ToString DecisionStatus where
  toString
    | .pendingApproval => "PENDING_APPROVAL"
    | .approved => "APPROVED"
    | .rejected => "REJECTED"
    | .executed => "EXECUTED"
    | .skipped => "SKIPPED"
    | .failed => "FAILED"

inductive OrderSide where
  | buy
  | sell
  deriving DecidableEq, Repr

inductive OrderType where
  | limit
  | market
  deriving DecidableEq, Repr

inductive OrderStatus where
  | pending
  | submitted
  | filled
  | partiallyFilled
  | rejected
  | cancelled
  deriving DecidableEq, Repr

inductive LedgerEntryType where
  | initialGrant
  | betLock
  | betRefund
  | cancelRefund
  | payout
  | rake
  | adjustment
  deriving DecidableEq, Repr

/-- What a request can raise. The last constructors are Python's and the
database's own exceptions, which no handler of the application catches by name. -/
inductive AppError where
  | domain (message : String)
  | notFound (message : String)
  | conflict (message : String)
  | insufficientPoints (message : String)
  | riskLimit (message : String)
  | broker (message : String)
  | valueError (message : String)
  | invalidOperation
  | dataError
  | integrityError
  | other (message : String)
  deriving DecidableEq, Repr

/-- `str(exc)`. -/
def AppError.text : AppError → String
  | .domain message | .notFound message | .conflict message | .insufficientPoints message
  | .riskLimit message | .broker message | .valueError message | .other message => message
  | .invalidOperation => "InvalidOperation"
  | .dataError => "DataError"
  | .integrityError => "IntegrityError"

/-- A flush that the database refuses. Nothing else raises these two; a broker has no session. -/
def AppError.ofFlush : AppError → Bool
  | .dataError | .integrityError => true
  | _ => false

/-- A point in time, in microseconds since the epoch, in UTC. -/
abbrev Time := ℤ

def microsPerDay : ℤ := 86400000000

structure Settings where
  initialPoints : ℚ := 1000
  rakeBps : ℤ := 0
  minStake : ℚ := 1
  maxStakeRatio : ℚ := 1 / 2
  defaultBuyThresholdPct : ℚ := 3
  defaultSellThresholdPct : ℚ := -3
  executionMinProbability : ℚ := 55 / 100
  quorumRatio : ℚ := 66 / 100
  maxOrderAmountKrw : ℚ := 1000000
  maxDailyOrders : ℤ := 10
  maxPositionWeight : ℚ := 30 / 100
  killSwitch : Bool := false
  enforceMarketHours : Bool := true

end FundPolymarket
