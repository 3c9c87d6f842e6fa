import FundPolymarket.Execution
import FundPolymarket.Settlement

set_option autoImplicit false

/- `scheduler.py`: the two loops of a tick, each in one session that commits at its
end and that every failure rolls back. After a flush that has failed, the handler of the
exception itself fails: `market.id`, which it logs before the rollback, is expired and cannot
be loaded. `session_scope` then rolls back, and the exception leaves `tick`. -/
namespace FundPolymarket

/-- The order in which an unordered `SELECT` returns its rows. -/
structure RowOrder where
  arrange : List ℕ → List ℕ
  perm : ∀ ids, (arrange ids).Perm ids

def RowOrder.insertion : RowOrder := ⟨id, fun ids => .refl ids⟩

/-- The broker calls of a tick, one after the other. -/
inductive TickCall where
  | close (marketId : ℕ)
  | build (marketId : ℕ)
  | resolve (marketId : ℕ)

section Tick

variable (settings : Settings) (now : Time) (broker : TickCall → Broker)

/-- `close_market` and `build_decision` on one market, in the open session. -/
def closeAndDecide (marketId : ℕ) (db : Db) : Except AppError Db := do
  let market ← getMarket db marketId
  let closed ← closeMarket marketId market (broker (.close marketId)) now >>= applyWrites db
  let market ← getMarket closed marketId
  buildDecision settings closed marketId market (broker (.build marketId)) >>= applyWrites closed

/-- `resolve_market` and `settle_market` on one market, in the open session. -/
def resolveAndSettle (marketId : ℕ) (db : Db) : Except AppError Db := do
  let market ← getMarket db marketId
  let resolved ← resolveMarket marketId market (broker (.resolve marketId)) now >>= applyWrites db
  let market ← getMarket resolved marketId
  settleMarket resolved marketId settings market now >>= applyWrites resolved

def dueToClose (db : Db) : List ℕ :=
  (db.markets.select fun market => market.status = .open ∧ market.closesAt ≤ now).map Prod.fst

def dueToResolve (db : Db) : List ℕ :=
  (db.markets.select fun market =>
    (market.status = .closed ∨ market.status = .decided ∨ market.status = .executed) ∧
      market.resolveAt ≤ now).map Prod.fst

def closeLoop (order : RowOrder) (db : Db) : Db :=
  sweep (closeAndDecide settings now broker) AppError.ofFlush db
    (order.arrange (dueToClose now db)) db

/-- Whether the exception of the first loop leaves `tick`. -/
def closeLoopBreaks (order : RowOrder) (db : Db) : Bool :=
  sweepBreaks (closeAndDecide settings now broker) AppError.ofFlush db
    (order.arrange (dueToClose now db)) db

def resolveLoop (order : RowOrder) (db : Db) : Db :=
  sweep (resolveAndSettle settings now broker) AppError.ofFlush db
    (order.arrange (dueToResolve now db)) db

def tick (closing resolving : RowOrder) (db : Db) : Db :=
  if closeLoopBreaks settings now broker closing db then closeLoop settings now broker closing db
  else resolveLoop settings now broker resolving (closeLoop settings now broker closing db)

end Tick

end FundPolymarket
