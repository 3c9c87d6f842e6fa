import FundPolymarket.Scheduler

set_option autoImplicit false

/- `api/v1/`: the requests that write, each in a session of its own, and runs of
requests and ticks. A session that ends without a commit leaves no trace. -/
namespace FundPolymarket

/-- The body of `POST /members`; the address is the one that `lower()` has made of it. -/
structure MemberCreate where
  email : String
  name : String
  role : Role := .member

structure MarketCreate where
  fundId : ℕ
  title : String
  ticker : String
  tickerName : Option String := none
  description : Option String := none
  closesAt : Time
  resolveAt : Time
  notionalKrw : ℚ
  buyThresholdPct : Option ℚ := none
  sellThresholdPct : Option ℚ := none

/-- A write request that has passed the authentication. -/
inductive Request where
  | createMember (payload : MemberCreate)
  | createFund (name accountNo broker : String)
  | createMarket (payload : MarketCreate) (adminId : ℕ)
  | putAllocation (marketId memberId : ℕ) (allocation : Allocation) (rationale : Option String)
  | closeMarket (marketId : ℕ)
  | createDecision (marketId : ℕ)
  | approveDecision (decisionId adminId : ℕ)
  | rejectDecision (decisionId adminId : ℕ) (reason : String)
  | resolveMarket (marketId : ℕ)
  | settleMarket (marketId : ℕ)
  | cancelMarket (marketId : ℕ) (reason : String)
  | syncFund (fundId : ℕ)

/-- What a request finds in place: the settings, the clock and the broker. -/
structure Env where
  settings : Settings
  now : Time
  broker : Broker

section Handlers

variable (env : Env) (db : Db)

/-- `Field(min_length=..., max_length=...)`. -/
def checkLength (field : String) (least most : ℕ) (text : String) : Except AppError Unit :=
  raiseIf (text.length < least ∨ most < text.length) (.valueError field)

/-- The checks of a new member: the length of the name, the address, which nobody else may
have, and what the columns refuse. An address has no blanks that could be cut off. -/
def checkMember (members : List Member) (payload : MemberCreate) : Except AppError Unit := do
  checkLength "name" 1 50 payload.name
  raiseIf (∃ member ∈ members, member.email = payload.email)
    (.conflict s!"이미 등록된 이메일입니다: {payload.email}")
  raiseIf (255 < payload.email.length) .dataError
  checkText (some payload.email)
  checkText (some payload.name)

def createMember (payload : MemberCreate) : Except AppError (List Write) := do
  checkMember db.members.contents payload
  let grant ← record db.members.nextId .initialGrant env.settings.initialPoints none
    (some "초기 포인트 지급")
  pure [.insertMember { email := payload.email, name := payload.name, role := payload.role },
    .insertLedger grant]

/-- The number of the account fits its column once its length is checked. -/
def createFund (name accountNo broker : String) : Except AppError (List Write) := do
  checkLength "name" 1 100 name
  checkLength "account_no" 1 20 accountNo
  checkText (some name)
  checkText (some accountNo)
  let broker ← storeText 20 broker
  pure [.insertFund { name, accountNo, broker }]

def createMarket (payload : MarketCreate) (adminId : ℕ) : Except AppError (List Write) := do
  checkLength "title" 1 200 payload.title
  checkLength "ticker" 4 20 payload.ticker
  raiseIf (payload.notionalKrw ≤ 0) (.valueError "notional_krw")
  raiseIf (payload.resolveAt ≤ payload.closesAt)
    (.valueError "resolve_at 은 closes_at 이후여야 합니다.")
  raiseIf (∃ buy ∈ payload.buyThresholdPct, ∃ sell ∈ payload.sellThresholdPct, buy ≤ sell)
    (.valueError "sell_threshold_pct 는 buy_threshold_pct 보다 작아야 합니다.")
  let _fund ← orRaise (.notFound s!"펀드 {payload.fundId}을(를) 찾을 수 없습니다.")
    (db.funds.get? payload.fundId)
  let buyThresholdPct ← store 6 2
    (payload.buyThresholdPct.getD env.settings.defaultBuyThresholdPct)
  let sellThresholdPct ← store 6 2
    (payload.sellThresholdPct.getD env.settings.defaultSellThresholdPct)
  let notionalKrw ← store 18 2 payload.notionalKrw
  checkText (some payload.title)
  checkText payload.description
  checkText (some payload.ticker)
  let tickerName ← payload.tickerName.mapM (storeText 100)
  pure [.insertMarket
    { fundId := payload.fundId
      createdBy := adminId
      title := payload.title
      description := payload.description
      ticker := payload.ticker
      tickerName
      closesAt := payload.closesAt
      resolveAt := payload.resolveAt
      buyThresholdPct, sellThresholdPct, notionalKrw }]

/-- How a handler ends: what its session has flushed, the requests that went to the
broker, and whether it returned or raised. -/
structure Handled where
  flushed : List Write
  sent : List OrderRequest
  result : Except AppError Unit

/-- A handler whose service raises before it flushes anything. -/
def Handled.ofService : Except AppError (List Write) → Handled
  | .ok flushed => ⟨flushed, [], .ok ()⟩
  | .error exc => ⟨[], [], .error exc⟩

def approveDecision (decisionId adminId : ℕ) : Handled :=
  match getDecision db decisionId with
  | .error exc => ⟨[], [], .error exc⟩
  | .ok decision =>
      let execution := executeDecision env.settings db decisionId decision env.broker adminId
        env.now
      ⟨execution.flushed, execution.sent, (fun _ => ()) <$> execution.result⟩

def handle : Request → Handled
  | .createMember payload => .ofService (createMember env db payload)
  | .createFund name accountNo broker =>
      .ofService (createFund name accountNo broker)
  | .createMarket payload adminId => .ofService (createMarket env db payload adminId)
  | .putAllocation marketId memberId allocation rationale => .ofService do
      let market ← getMarket db marketId
      placeAllocation env.settings db marketId market memberId allocation rationale env.now
  | .closeMarket marketId => .ofService do
      let market ← getMarket db marketId
      closeMarket marketId market env.broker env.now
  | .createDecision marketId => .ofService do
      let market ← getMarket db marketId
      buildDecision env.settings db marketId market env.broker
  | .approveDecision decisionId adminId => approveDecision env db decisionId adminId
  | .rejectDecision decisionId adminId reason => .ofService do
      checkLength "reason" 1 500 reason
      let decision ← getDecision db decisionId
      rejectDecision decisionId decision adminId reason env.now
  | .resolveMarket marketId => .ofService do
      let market ← getMarket db marketId
      resolveMarket marketId market env.broker env.now
  | .settleMarket marketId => .ofService do
      let market ← getMarket db marketId
      settleMarket db marketId env.settings market env.now
  | .cancelMarket marketId reason => .ofService do
      checkLength "reason" 1 500 reason
      let market ← getMarket db marketId
      cancelMarket db marketId market reason env.now
  | .syncFund fundId => .ofService do
      let _fund ← orRaise (.notFound s!"펀드 {fundId}을(를) 찾을 수 없습니다.")
        (db.funds.get? fundId)
      syncPositions db fundId env.broker

end Handlers

/-- A session of the request: what is committed, and what the request sees. -/
structure Session where
  committed : Db
  working : Db

namespace Session

def begin (db : Db) : Session := ⟨db, db⟩

def flush (session : Session) (writes : List Write) : Except AppError Session :=
  (fun working => { session with working }) <$> applyWrites session.working writes

def commit (session : Session) : Session := ⟨session.working, session.working⟩

/-- `get_db` closes the session; writes that were only flushed are discarded. -/
def close (session : Session) : Db := session.committed

end Session

/-- The committed state after a request, what went to the broker, and the answer. -/
structure Served where
  db : Db
  sent : List OrderRequest
  result : Except AppError Unit

/-- The handler commits on its normal path only. -/
def endRequest (db : Db) (handled : Handled) : Served :=
  match (Session.begin db).flush handled.flushed with
  | .error exc => ⟨db, handled.sent, .error exc⟩
  | .ok session =>
      match handled.result with
      | .ok _ => ⟨session.commit.close, handled.sent, .ok ()⟩
      | .error exc => ⟨session.close, handled.sent, .error exc⟩

def serve (env : Env) (request : Request) (db : Db) : Served :=
  endRequest db (handle env db request)

/-- A request, or a tick of the scheduler. -/
inductive Event where
  | request (env : Env) (request : Request)
  | tick (settings : Settings) (now : Time) (broker : TickCall → Broker)
      (closing resolving : RowOrder)

/-- A tick never asks the broker to place an order. -/
def Event.serve : Event → Db → Served
  | .request env asked, db => FundPolymarket.serve env asked db
  | .tick settings now broker closing resolving, db =>
      ⟨FundPolymarket.tick settings now broker closing resolving db, [], .ok ()⟩

/-- An event and the state it finds. -/
structure Step where
  event : Event
  pre : Db

namespace Step

def served (step : Step) : Served := step.event.serve step.pre

def post (step : Step) : Db := step.served.db

def sent (step : Step) : List OrderRequest := step.served.sent

end Step

/-- The steps of a sequential run. -/
def stepsFrom : Db → List Event → List Step
  | _, [] => []
  | db, event :: events => ⟨event, db⟩ :: stepsFrom (event.serve db).db events

/-- The state a run ends in. -/
def stateAfter (db : Db) (events : List Event) : Db :=
  events.foldl (fun db event => (event.serve db).db) db

theorem stateAfter_append (db : Db) (first second : List Event) :
    stateAfter db (first ++ second) = stateAfter (stateAfter db first) second :=
  List.foldl_append

theorem stepsFrom_append (db : Db) (first second : List Event) :
    stepsFrom db (first ++ second) =
      stepsFrom db first ++ stepsFrom (stateAfter db first) second := by
  induction first generalizing db with
  | nil => rfl
  | cons event first ih => exact congrArg _ (ih (event.serve db).db)

/-- A step of a run finds the state that the events before it lead to. -/
theorem stepsFrom_split {start : Db} {events : List Event} {step : Step}
    (member : step ∈ stepsFrom start events) :
    ∃ before after, events = before ++ step.event :: after ∧
      step.pre = stateAfter start before := by
  induction events generalizing start with
  | nil => cases member
  | cons event events ih =>
      rcases List.mem_cons.mp member with rfl | member
      · exact ⟨[], events, rfl, rfl⟩
      · obtain ⟨before, after, rfl, pre⟩ := ih member
        exact ⟨event :: before, after, rfl, pre⟩

theorem stepsFrom_last (start : Db) (before : List Event) (event : Event) :
    ⟨event, stateAfter start before⟩ ∈ stepsFrom start (before ++ [event]) := by
  rw [stepsFrom_append]
  exact List.mem_append_right _ (List.mem_singleton_self _)

/-- What holds at the start and is kept by every step holds at the end of every
run, together with the steps that led there. -/
theorem run_induction {motive : List Step → Db → Prop} {start : Db} (init : motive [] start)
    (step : ∀ steps db event, motive steps db →
      motive (steps ++ [⟨event, db⟩]) (event.serve db).db) (events : List Event) :
    motive (stepsFrom start events) (stateAfter start events) := by
  induction events using List.reverseRecOn with
  | nil => exact init
  | append_singleton events event ih =>
      rw [stepsFrom_append, stateAfter_append]
      exact step _ _ event ih

/-- The run rule for an invariant under a condition on the steps. -/
theorem run_invariant (condition : Step → Prop) {invariant : Db → Prop} {start : Db}
    (init : invariant start)
    (step : ∀ s : Step, condition s → invariant s.pre → invariant s.post)
    (events : List Event) (allowed : ∀ s ∈ stepsFrom start events, condition s) :
    invariant (stateAfter start events) := by
  refine run_induction
    (motive := fun steps db => (∀ s ∈ steps, condition s) → invariant db)
    (fun _ => init) ?_ events allowed
  intro steps db event ih conditions
  exact step ⟨event, db⟩ (conditions _ (by simp))
    (ih fun s member => conditions s (by simp [member]))

end FundPolymarket
