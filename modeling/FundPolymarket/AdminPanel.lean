import FundPolymarket.Snapshot
import FundPolymarket.Lifecycle
import FundPolymarket.Views

set_option autoImplicit false

/- `frontend/src/pages/MarketDetail.tsx`: the buttons that the page of a market offers to an
admin, and the requests behind them. Which buttons there are depends on the two answers that
the page has loaded; the API has its own guards. -/
namespace FundPolymarket

/-- `MarketDetailPage.load`: a market without a decision is no error. -/
structure MarketPage where
  market : MarketDetailOut
  decision : Option (ℕ × TradeDecision)

def MarketPage.load (db : Db) (memberId marketId : ℕ) : Except AppError MarketPage := do
  let market ← Api.getMarket db memberId marketId
  pure { market, decision := (Api.getDecision db marketId).toOption }

inductive AdminAction where
  | closeMarket
  | buildDecision
  | approveDecision
  | rejectDecision (reason : String)
  | resolveMarket
  | settleMarket

namespace MarketPage

variable (page : MarketPage)

/-- The buttons of `AdminPanel`. -/
def offers : AdminAction → Bool
  | .closeMarket => page.market.status = .open
  | .buildDecision => page.market.status = .closed
  | .approveDecision => page.decision.any fun row => row.2.status = .pendingApproval
  | .rejectDecision _ => page.decision.any fun row => row.2.status = .pendingApproval
  | .resolveMarket => page.market.status ∈ [.closed, .decided, .executed]
  | .settleMarket => page.market.status = .resolved

/-- What a button asks the API for; a prompt for a reason may be left unanswered. -/
def request (adminId : ℕ) : AdminAction → Option Request
  | .closeMarket => some (.closeMarket page.market.id)
  | .buildDecision => some (.createDecision page.market.id)
  | .approveDecision => page.decision.map fun row => .approveDecision row.1 adminId
  | .rejectDecision reason =>
      if reason = "" then none
      else page.decision.map fun row => .rejectDecision row.1 adminId reason
  | .resolveMarket => some (.resolveMarket page.market.id)
  | .settleMarket => some (.settleMarket page.market.id)

end MarketPage

def AppError.IsConflict : AppError → Prop
  | .conflict _ => True
  | _ => False

/-- Nothing that is raised is a conflict. -/
def Unconflicted {α : Type} (result : Except AppError α) : Prop :=
  OnlyRaises (fun e => ¬ e.IsConflict) result

structure Broker.NeverConflicts (broker : Broker) : Prop where
  quotes : ∀ ticker, Unconflicted (broker.getQuote ticker)
  orders : ∀ request, Unconflicted (broker.placeOrder request)

section Invariant

/-- What the guards that ask for more than a status find: a price where a verdict is awaited,
a verdict where a settlement is, and no decision on a market that has yet to get one. -/
structure StatusesBacked (db : Db) : Prop where
  awaiting : ∀ id row, db.markets.get? id = some row → row.status.awaitsVerdict = true →
    row.referencePrice ≠ none
  resolved : ∀ id row, db.markets.get? id = some row → row.status = .resolved →
    row.winningOutcome ≠ none
  decided : ∀ decision ∈ db.decisions.contents, ∃ row,
    db.markets.get? decision.marketId = some row ∧ row.status ≠ .open ∧ row.status ≠ .closed ∧
      row.referencePrice ≠ none
  trades : ∀ decision ∈ db.decisions.contents, decision.status = .pendingApproval →
    decision.action ≠ .hold

variable {env : Env} {db next : Db} {request : Request} {writes : List Write}

/-- A market that has had its decision stays past CLOSED. -/
theorem MarketChange.past_closed {id : ℕ} {row later : Market}
    (change : MarketChange env db request id row later) (notOpen : row.status ≠ .open)
    (notClosed : row.status ≠ .closed) (priced : row.referencePrice ≠ none) :
    later.status ≠ .open ∧ later.status ≠ .closed ∧ later.referencePrice ≠ none := by
  cases change with
  | close isOpen => exact absurd isOpen notOpen
  | decide isClosed => exact absurd isClosed notClosed
  | execute | resolve | settle | cancel =>
      exact ⟨fun status => (by cases status), fun status => (by cases status), priced⟩

/-- Where a decision comes from: an older row with the same order, or a closed market. -/
theorem DecisionsAfter.origin {decisions : Table TradeDecision}
    (after : DecisionsAfter env db request decisions) {decision : TradeDecision}
    (member : decision ∈ decisions.contents) :
    (∃ old ∈ db.decisions.contents, decision.marketId = old.marketId ∧
        decision.action = old.action ∧
        (decision.status = .pendingApproval → old.status = .pendingApproval)) ∨
      request = .createDecision decision.marketId ∧
        (decision.status = .pendingApproval → decision.action ≠ .hold) := by
  cases after with
  | same => exact .inl ⟨decision, member, rfl, rfl, id⟩
  | built _ _ _ built =>
      rw [Table.contents_insert, List.mem_append, List.mem_singleton] at member
      rcases member with old | rfl
      · exact .inl ⟨decision, old, rfl, rfl, id⟩
      · exact .inr ⟨by rw [built.marketId_eq], fun pending => (built.sized pending).1⟩
  | rejected =>
      obtain ⟨old, oldMember, rfl | rfl⟩ := Table.mem_contents_update member
      · exact .inl ⟨decision, oldMember, rfl, rfl, id⟩
      · exact .inl ⟨old, oldMember, rfl, rfl, fun status => by cases status⟩
  | executed =>
      obtain ⟨old, oldMember, rfl | rfl⟩ := Table.mem_contents_update member
      · exact .inl ⟨decision, oldMember, rfl, rfl, id⟩
      · exact .inl ⟨old, oldMember, rfl, rfl, fun status => by cases status⟩

theorem Commits.decided_row {marketId : ℕ}
    (committed : Commits env db (.createDecision marketId) writes)
    (applied : applyWrites db writes = .ok next) :
    ∃ market, db.markets.get? marketId = some market ∧ market.status = .closed ∧
      next.markets.get? marketId = some market.decide := by
  cases committed with
  | @createDecision _ market _ found isClosed =>
      refine ⟨market, found, isClosed, ?_⟩
      have markets : next.markets = db.markets.update marketId Market.decide :=
        applyWrites_table applied .markets
      rw [markets, Table.get?_update, if_pos rfl, found]
      rfl

theorem Commits.statusesBacked (committed : Commits env db request writes)
    (applied : applyWrites db writes = .ok next) (backed : StatusesBacked db) :
    StatusesBacked next := by
  have markets := committed.markets applied
  refine ⟨?_, ?_, ?_, ?_⟩
  · intro id later found awaits
    rcases markets.origin found with ⟨_, isOpen, _⟩ | ⟨row, before, rfl | change⟩
    · rw [isOpen] at awaits
      cases awaits
    · exact backed.awaiting id later before awaits
    · cases change with
      | close => exact fun none => by cases none
      | decide isClosed => exact backed.awaiting id row before (by rw [isClosed]; rfl)
      | execute executed =>
          obtain ⟨old, oldFound, _, _, priced⟩ := backed.decided _
            (Table.get?_mem_contents executed.found)
          cases before.symm.trans oldFound
          exact priced
      | resolve | settle | cancel => cases awaits
  · intro id later found isResolved
    rcases markets.origin found with ⟨_, isOpen, _⟩ | ⟨row, before, rfl | change⟩
    · rw [isOpen] at isResolved
      cases isResolved
    · exact backed.resolved id later before isResolved
    · cases change with
      | resolve => exact fun none => by cases none
      | close | decide | execute | settle | cancel => cases isResolved
  · intro decision member
    rcases (committed.decisions applied).origin member with
      ⟨old, oldMember, sameMarket, _⟩ | ⟨rfl, _⟩
    · obtain ⟨row, found, notOpen, notClosed, priced⟩ := backed.decided old oldMember
      obtain ⟨later, laterFound, rfl | change⟩ := markets.kept found
      · exact ⟨later, sameMarket ▸ laterFound, notOpen, notClosed, priced⟩
      · exact ⟨later, sameMarket ▸ laterFound, change.past_closed notOpen notClosed priced⟩
    · obtain ⟨market, found, isClosed, decided⟩ := committed.decided_row applied
      exact ⟨_, decided, fun status => (by cases status), fun status => (by cases status),
        backed.awaiting _ market found (by rw [isClosed]; rfl)⟩
  · intro decision member pending
    rcases (committed.decisions applied).origin member with
      ⟨old, oldMember, _, sameAction, wasPending⟩ | ⟨_, trades⟩
    · rw [sameAction]
      exact backed.trades old oldMember (wasPending pending)
    · exact trades pending

theorem statusesBacked_stateAfter (events : List Event) :
    StatusesBacked (stateAfter Db.empty events) :=
  @requests_invariant (fun _ _ _ => True) (fun _ => True) StatusesBacked _
    (fun _ _ _ _ _ => trivial)
    (fun _ _ _ _ _ _ _ committed applied held => committed.statusesBacked applied held)
    { awaiting := by simp [Db.empty], resolved := by simp [Db.empty],
      decided := fun _ member => absurd member List.not_mem_nil,
      trades := fun _ member => absurd member List.not_mem_nil }
    events (fun _ _ => trusts_anything _) fun s _ => s.meets_anything

end Invariant

section Guards

namespace Unconflicted

variable {α β : Type}

theorem ok (value : α) : Unconflicted (.ok value) := onlyRaises_ok value

theorem error {e : AppError} (other : ¬ e.IsConflict) : Unconflicted (α := α) (.error e) :=
  onlyRaises_error.mpr other

theorem bind {x : Except AppError α} {f : α → Except AppError β} (first : Unconflicted x)
    (next : ∀ value, x = .ok value → Unconflicted (f value)) : Unconflicted (x >>= f) :=
  onlyRaises_bind.mpr ⟨first, next⟩

theorem map {x : Except AppError α} {f : α → β} (inner : Unconflicted x) :
    Unconflicted (f <$> x) := by
  cases x with
  | error e => exact fun other raised => inner other (by cases raised; rfl)
  | ok value => exact .ok _

theorem mapM {f : α → Except AppError β} {values : List α}
    (each : ∀ value ∈ values, Unconflicted (f value)) : Unconflicted (values.mapM f) := by
  induction values with
  | nil => exact .ok _
  | cons head tail ih =>
      rw [List.mapM_cons]
      refine .bind (each head (by simp)) fun _ _ => ?_
      exact .bind (ih fun value member => each value (by simp [member])) fun _ _ => .ok _

theorem raiseIf {c : Prop} [Decidable c] {e : AppError} (other : c → ¬ e.IsConflict) :
    Unconflicted (FundPolymarket.raiseIf c e) := onlyRaises_raiseIf.mpr other

theorem orRaise {e : AppError} {found : Option α} (other : found = none → ¬ e.IsConflict) :
    Unconflicted (FundPolymarket.orRaise e found) := onlyRaises_orRaise.mpr other

theorem store (precision scale : ℕ) (x : ℚ) :
    Unconflicted (FundPolymarket.store precision scale x) :=
  .orRaise fun _ => id

theorem checkText (text : Option String) : Unconflicted (FundPolymarket.checkText text) :=
  .raiseIf fun _ => id

theorem storeText (limit : ℕ) (text : String) :
    Unconflicted (FundPolymarket.storeText limit text) := by
  rw [FundPolymarket.storeText]
  split
  · exact .ok _
  · exact .error id

theorem storeInteger (x : ℤ) : Unconflicted (FundPolymarket.storeInteger x) := by
  rw [FundPolymarket.storeInteger]
  split
  · exact .ok _
  · exact .error id

theorem storeCount (n : ℕ) : Unconflicted (FundPolymarket.storeCount n) := by
  rw [FundPolymarket.storeCount]
  split
  · exact .ok _
  · exact .error id

theorem optional {f : α → Except AppError β} (each : ∀ value, Unconflicted (f value))
    (given : Option α) : Unconflicted (given.mapM f) := by
  cases given with
  | none => exact .ok _
  | some value => exact .map (each value)

theorem q (value : ℚ) (places : ℕ) (mode : Decimal.Rounding) :
    Unconflicted (FundPolymarket.q value places mode) :=
  .orRaise fun _ => id

theorem record (memberId : ℕ) (entryType : LedgerEntryType) (amount : ℚ) (marketId : Option ℕ)
    (memo : Option String) :
    Unconflicted (FundPolymarket.record memberId entryType amount marketId memo) :=
  .bind (.store _ _ _) fun _ _ => .ok _

end Unconflicted

variable {env : Env} {db : Db} {marketId : ℕ} {market : Market}

theorem unconflicted_computeConsensus (stakes : List Stake) :
    Unconflicted (computeConsensus stakes) := by
  refine .bind ?_ fun _ _ => .ok _
  rw [shares]
  split
  · exact .bind (.q _ _ _) fun _ _ => .bind (.q _ _ _) fun _ _ => .bind (.q _ _ _) fun _ _ => .ok _
  · exact .ok _

theorem unconflicted_settleParimutuel (stakes : List Stake) (winningOutcome : Outcome)
    (rakeBps : ℤ) : Unconflicted (settleParimutuel stakes winningOutcome rakeBps) := by
  refine .bind (.raiseIf fun _ => id) fun _ _ => ?_
  split
  · exact .ok _
  · refine .bind (.q _ _ _) fun _ _ => .bind (.mapM fun _ _ => ?_) fun _ _ => .ok _
    exact .bind (.q _ _ _) fun _ _ => .ok _

theorem unconflicted_resolveOutcome (referencePrice resolutionPrice buyPct sellPct : ℚ) :
    Unconflicted (resolveOutcome referencePrice resolutionPrice buyPct sellPct) := by
  refine .bind (.raiseIf fun _ => id) fun _ _ => .bind (.q _ _ _) fun _ _ => ?_
  split
  · exact .ok _
  · split <;> exact .ok _

theorem unconflicted_sizing (never : env.broker.NeverConflicts) (consensus : Consensus)
    (action : Outcome) :
    Unconflicted (sizing env.settings db market consensus action env.broker) := by
  unfold sizing sizeOrder
  split
  · refine .bind (never.quotes _) fun _ _ => ?_
    split
    · exact .bind (.orRaise fun _ => id) fun _ _ => .ok _
    · exact .ok _
  · exact .ok _

theorem unconflicted_closeMarket (never : env.broker.NeverConflicts)
    (isOpen : market.status = .open) :
    Unconflicted (closeMarket marketId market env.broker env.now) := by
  refine .bind (.raiseIf fun other => absurd isOpen other) fun _ _ => ?_
  refine .bind (never.quotes _) fun _ _ => .bind (.store _ _ _) fun _ _ => ?_
  refine .bind ?_ fun _ _ => .ok _
  rw [quotedName]
  split
  · exact .optional (.storeText 100) _
  · exact .ok _

theorem unconflicted_buildDecision (never : env.broker.NeverConflicts)
    (isClosed : market.status = .closed)
    (fresh : ∀ decision ∈ db.decisions.contents, decision.marketId ≠ marketId) :
    Unconflicted (buildDecision env.settings db marketId market env.broker) := by
  refine .bind (.raiseIf fun other => absurd isClosed other) fun _ _ => ?_
  rw [search_none fresh]
  refine .bind (unconflicted_computeConsensus _) fun consensus _ => ?_
  refine .bind (unconflicted_sizing never _ _) fun sized _ => ?_
  refine .bind (.store _ _ _) fun _ _ => .bind (.storeCount _) fun _ _ => ?_
  refine .bind (.storeInteger _) fun _ _ => .bind ?_ fun _ _ => .ok _
  rw [storedLimitPrice]
  split
  · exact .optional (.store 18 4) _
  · exact .ok _

theorem unconflicted_resolveMarket (never : env.broker.NeverConflicts)
    (awaits : market.status.awaitsVerdict = true) (priced : market.referencePrice ≠ none) :
    Unconflicted (resolveMarket marketId market env.broker env.now) := by
  refine .bind (.raiseIf fun other => ?_) fun _ _ => ?_
  · obtain ⟨notClosed, notDecided, notExecuted⟩ := other
    cases status : market.status <;> simp_all [MarketStatus.awaitsVerdict]
  refine .bind (.orRaise fun none => absurd none priced) fun _ _ => ?_
  refine .bind (never.quotes _) fun _ _ => ?_
  refine .bind (unconflicted_resolveOutcome _ _ _ _) fun _ _ => ?_
  exact .bind (.store _ _ _) fun _ _ => .ok _

theorem unconflicted_settleMarket (isResolved : market.status = .resolved)
    (judged : market.winningOutcome ≠ none) :
    Unconflicted (settleMarket db marketId env.settings market env.now) := by
  refine .bind (.raiseIf fun settled => ?_) fun _ _ => ?_
  · rw [isResolved] at settled
    cases settled
  refine .bind (.raiseIf fun other => absurd isResolved other) fun _ _ => ?_
  refine .bind (.orRaise fun none => absurd none judged) fun _ _ => ?_
  refine .bind (unconflicted_settleParimutuel _ _ _) fun _ _ => ?_
  have shows : ∀ payouts row, Unconflicted (rowPayout db marketId payouts row) := by
    intro payouts row
    rw [rowPayout, shownPayout]
    split
    · exact .q _ _ _
    · exact .ok _
  refine .bind (.mapM fun _ _ => shows _ _) fun _ _ => ?_
  refine .bind (.mapM fun _ _ => .record _ _ _ _ _) fun _ _ => .bind (.mapM fun row _ => ?_)
    fun _ _ => .ok _
  exact .bind (shows _ _) fun _ _ => .bind (.store _ _ _) fun _ _ => .ok _

theorem unconflicted_rejectDecision {decisionId adminId : ℕ} {decision : TradeDecision}
    {reason : String} (pending : decision.status = .pendingApproval) :
    Unconflicted (rejectDecision decisionId decision adminId reason env.now) :=
  .bind (.raiseIf fun other => absurd pending other) fun _ _ =>
    .bind (.checkText _) fun _ _ => .ok _

theorem unconflicted_orderPrice (never : env.broker.NeverConflicts) (limitPrice : Option Price)
    (ticker : String) : Unconflicted (orderPrice limitPrice ticker env.broker) := by
  cases limitPrice with
  | none => exact .map (never.quotes _)
  | some stored =>
      dsimp only [orderPrice]
      split
      · exact .map (never.quotes _)
      · exact .ok _

theorem unconflicted_storedPrice (orderType : OrderType) (price : ℚ) :
    Unconflicted (storedPrice orderType price) := by
  cases orderType with
  | limit => exact .map (.store _ _ _)
  | market => exact .ok _

theorem unconflicted_prepareOrder {decisionId : ℕ} {decision : TradeDecision}
    (never : env.broker.NeverConflicts) (pending : decision.status = .pendingApproval)
    (trades : decision.action ≠ .hold) :
    Unconflicted (prepareOrder env.settings db decisionId decision env.broker env.now) := by
  refine .bind (.raiseIf fun other => absurd pending other) fun _ _ => ?_
  refine .bind (.raiseIf fun holds => absurd holds trades) fun _ _ => ?_
  refine .bind (.orRaise fun _ => id) fun _ _ => ?_
  refine .bind (unconflicted_orderPrice never _ _) fun _ _ => ?_
  refine .bind (unconflicted_storedPrice _ _) fun _ _ => ?_
  exact .bind (.storeInteger _) fun _ _ => .bind (.storeText _ _) fun _ _ => .ok _

theorem unconflicted_refused {decisionId : ℕ} {prepared : Prepared} {sent : List OrderRequest}
    {message reason : String} {exc : AppError} (other : ¬ exc.IsConflict) :
    Unconflicted (refused decisionId prepared sent message reason exc).result := by
  unfold refused
  split
  · rename_i failure noText
    exact .error (Unconflicted.checkText _ failure noText)
  · exact .error other

theorem unconflicted_executeDecision {decisionId adminId : ℕ} {decision : TradeDecision}
    (never : env.broker.NeverConflicts) (pending : decision.status = .pendingApproval)
    (trades : decision.action ≠ .hold) :
    Unconflicted (executeDecision env.settings db decisionId decision env.broker adminId
      env.now).result := by
  cases attempt : prepareOrder env.settings db decisionId decision env.broker env.now with
  | error exc =>
      rw [executeDecision_of_error attempt]
      exact .error (unconflicted_prepareOrder never pending trades exc attempt)
  | ok prepared =>
      rw [executeDecision, attempt]
      dsimp only
      split
      · exact unconflicted_refused id
      · cases answer : env.broker.placeOrder (orderRequest decision prepared) with
        | ok result =>
            dsimp only
            cases number : storedOrderNo result with
            | ok brokerOrderNo => exact .ok _
            | error exc => exact .error (Unconflicted.optional (.storeText 50) _ exc number)
        | error cause =>
            cases cause with
            | broker message => exact unconflicted_refused id
            | _ => exact .error (never.orders _ _ answer)

theorem unconflicted_approveDecision {decisionId adminId : ℕ} {decision : TradeDecision}
    (never : env.broker.NeverConflicts) (found : db.decisions.get? decisionId = some decision)
    (pending : decision.status = .pendingApproval) (trades : decision.action ≠ .hold) :
    Unconflicted (approveDecision env db decisionId adminId).result := by
  rw [approveDecision_found (getDecision_eq_ok.mpr found)]
  exact .map (unconflicted_executeDecision never pending trades)

end Guards

section Page

variable {env : Env} {db : Db} {request : Request}

/-- A flush has errors of its own, which are no conflicts. -/
theorem unconflicted_applyWrites (db : Db) (writes : List Write) :
    Unconflicted (applyWrites db writes) := by
  induction writes generalizing db with
  | nil => exact .ok _
  | cons write writes ih =>
      refine .bind ?_ fun next _ => ih next
      cases write with
      | insertMember | insertBet | insertPosition =>
          exact .bind (.orRaise fun _ => id) fun _ _ => .ok _
      | _ => exact .ok _

theorem unconflicted_serve (handled : Unconflicted (handle env db request).result) :
    Unconflicted (serve env request db).result := by
  unfold serve endRequest Session.flush
  cases flush : applyWrites (Session.begin db).working (handle env db request).flushed with
  | error exc => exact .error (unconflicted_applyWrites _ _ exc flush)
  | ok working =>
      simp only [Functor.map, Except.map]
      cases ended : (handle env db request).result with
      | error exc => exact .error (handled exc ended)
      | ok done => exact .ok ()

theorem unconflicted_ofService {service : Except AppError (List Write)}
    (unconflicted : Unconflicted service) : Unconflicted (Handled.ofService service).result := by
  cases service with
  | error exc => exact .error (unconflicted exc rfl)
  | ok writes => exact .ok ()

/-- A request is refused for the state that it finds, changes nothing and sends no order. -/
def Conflicts (env : Env) (request : Request) (db : Db) : Prop :=
  (serve env request db).db = db ∧ (serve env request db).sent = [] ∧
    ∃ message, (serve env request db).result = .error (.conflict message)

theorem conflicts_of_handle {message : String}
    (handled : handle env db request = .ofService (.error (.conflict message))) :
    Conflicts env request db := by
  unfold Conflicts serve
  rw [handled]
  exact ⟨rfl, rfl, message, rfl⟩

/-- What a page shows is in the tables. -/
structure MarketPage.Current (page : MarketPage) (db : Db) (marketId : ℕ) (market : Market) :
    Prop where
  found : db.markets.get? marketId = some market
  marketId_eq : page.market.id = marketId
  status_eq : page.market.status = market.status
  decision : ∀ row, page.decision = some row → db.decisions.get? row.1 = some row.2
  absent : page.decision = none → ∀ decision ∈ db.decisions.contents, decision.marketId ≠ marketId

theorem getDecision_toOption (db : Db) (marketId : ℕ) :
    (Api.getDecision db marketId).toOption =
      db.decisions.rows.find? fun row => row.2.marketId = marketId := by
  rw [Api.getDecision]
  cases db.decisions.rows.find? fun row => row.2.marketId = marketId <;> rfl

theorem MarketPage.load_current {memberId marketId : ℕ} {page : MarketPage}
    (loaded : MarketPage.load db memberId marketId = .ok page) :
    ∃ market, page.Current db marketId market := by
  obtain ⟨detail, answered, same⟩ := bind_eq_ok.mp loaded
  cases same
  obtain ⟨market, found, rest⟩ := bind_eq_ok.mp answered
  obtain ⟨consensus, _, same⟩ := bind_eq_ok.mp rest
  cases same
  refine ⟨market, getMarket_eq_ok.mp found, rfl, rfl, ?_, ?_⟩
  · intro row shown
    dsimp only at shown
    rw [getDecision_toOption] at shown
    exact (Table.mem_rows_iff _ _ _).mp (List.mem_of_find?_eq_some shown)
  · intro hidden decision member
    dsimp only at hidden
    rw [getDecision_toOption] at hidden
    obtain ⟨row, listed, rfl⟩ := List.mem_map.mp member
    simpa using List.find?_eq_none.mp hidden row listed

/-- A button that is there is not refused. -/
theorem MarketPage.Current.accepted {page : MarketPage} {marketId adminId : ℕ} {market : Market}
    (current : page.Current db marketId market) (backed : StatusesBacked db)
    (never : env.broker.NeverConflicts) {action : AdminAction}
    (asked : page.request adminId action = some request) (offered : page.offers action = true) :
    Unconflicted (handle env db request).result := by
  obtain ⟨found, sameId, sameStatus, ofDecision, fresh⟩ := current
  have reads : ∀ service : Market → Except AppError (List Write), Unconflicted (service market) →
      Unconflicted (Handled.ofService (getMarket db marketId >>= service)).result := by
    intro service unconflicted
    refine unconflicted_ofService (.bind ?_ fun read readOk => ?_)
    · exact getMarket_eq_ok.mpr found ▸ .ok market
    · cases (getMarket_eq_ok.mpr found).symm.trans readOk
      exact unconflicted
  cases action with
  | closeMarket =>
      cases asked
      rw [sameId]
      have isOpen : market.status = .open := by simpa [offers, sameStatus] using offered
      exact reads _ (unconflicted_closeMarket never isOpen)
  | buildDecision =>
      cases asked
      rw [sameId]
      have isClosed : market.status = .closed := by simpa [offers, sameStatus] using offered
      refine reads _ (unconflicted_buildDecision never isClosed fun decision member same => ?_)
      obtain ⟨row, rowFound, _, notClosed, _⟩ := backed.decided decision member
      rw [same, found] at rowFound
      cases rowFound
      exact notClosed isClosed
  | approveDecision =>
      obtain ⟨row, shown, rfl⟩ := Option.map_eq_some_iff.mp asked
      have pending : row.2.status = .pendingApproval := by simpa [offers, shown] using offered
      exact unconflicted_approveDecision never (ofDecision row shown) pending
        (backed.trades _ (Table.get?_mem_contents (ofDecision row shown)) pending)
  | rejectDecision reason =>
      obtain ⟨_, asked⟩ := (Option.ite_none_left_eq_some).mp asked
      obtain ⟨row, shown, rfl⟩ := Option.map_eq_some_iff.mp asked
      have pending : row.2.status = .pendingApproval := by simpa [offers, shown] using offered
      refine unconflicted_ofService (.bind (.raiseIf fun _ => id) fun _ _ =>
        .bind (.orRaise fun _ other => other) fun decision readOk => ?_)
      cases (getDecision_eq_ok.mpr (ofDecision row shown)).symm.trans readOk
      exact unconflicted_rejectDecision pending
  | resolveMarket =>
      cases asked
      rw [sameId]
      have awaits : market.status.awaitsVerdict = true := by
        cases status : market.status <;>
          simp_all [offers, MarketStatus.awaitsVerdict]
      exact reads _ (unconflicted_resolveMarket never awaits (backed.awaiting _ _ found awaits))
  | settleMarket =>
      cases asked
      rw [sameId]
      have isResolved : market.status = .resolved := by simpa [offers, sameStatus] using offered
      exact reads _ (unconflicted_settleMarket isResolved (backed.resolved _ _ found isResolved))

/-- A button that is missing would be refused. A reason that is too long is turned away
before the state is looked at. -/
theorem MarketPage.Current.conflicts {page : MarketPage} {marketId adminId : ℕ} {market : Market}
    (current : page.Current db marketId market) {action : AdminAction}
    (asked : page.request adminId action = some request)
    (short : ∀ reason, action = .rejectDecision reason → reason.length ≤ 500)
    (missing : page.offers action = false) : Conflicts env request db := by
  obtain ⟨found, sameId, sameStatus, ofDecision, _⟩ := current
  have reads : ∀ (service : Market → Except AppError (List Write)) {message : String},
      service market = .error (.conflict message) →
      Handled.ofService (getMarket db marketId >>= service) =
        .ofService (.error (.conflict message)) := by
    intro service message raised
    rw [getMarket_eq_ok.mpr found]
    exact congrArg Handled.ofService raised
  cases action with
  | closeMarket =>
      cases asked
      rw [sameId]
      have notOpen : market.status ≠ .open := by simpa [offers, sameStatus] using missing
      exact conflicts_of_handle (reads _ (raiseIf_bind_of_holds notOpen))
  | buildDecision =>
      cases asked
      rw [sameId]
      have notClosed : market.status ≠ .closed := by simpa [offers, sameStatus] using missing
      exact conflicts_of_handle (reads _ (raiseIf_bind_of_holds notClosed))
  | approveDecision =>
      obtain ⟨row, shown, rfl⟩ := Option.map_eq_some_iff.mp asked
      have notPending : row.2.status ≠ .pendingApproval := by simpa [offers, shown] using missing
      have stopped : approveDecision env db row.1 adminId = .ofService
          (.error (.conflict s!"결정이 {row.2.status} 상태라 집행할 수 없습니다.")) := by
        rw [approveDecision_found (getDecision_eq_ok.mpr (ofDecision row shown)),
          executeDecision_of_error (raiseIf_bind_of_holds notPending)]
        rfl
      exact conflicts_of_handle stopped
  | rejectDecision reason =>
      obtain ⟨given, asked⟩ := (Option.ite_none_left_eq_some).mp asked
      obtain ⟨row, shown, rfl⟩ := Option.map_eq_some_iff.mp asked
      have fits : checkLength "reason" 1 500 reason = .ok () := by
        have some_text : reason.length ≠ 0 := mt String.length_eq_zero_iff.mp given
        refine raiseIf_eq_ok.mpr ?_
        rw [not_or, not_lt, not_lt]
        exact ⟨Nat.one_le_iff_ne_zero.mpr some_text, short reason rfl⟩
      have notPending : row.2.status ≠ .pendingApproval := by simpa [offers, shown] using missing
      have stopped : rejectDecision row.1 row.2 adminId reason env.now =
          .error (.conflict s!"결정이 {row.2.status} 상태라 반려할 수 없습니다.") :=
        raiseIf_bind_of_holds notPending
      refine conflicts_of_handle ((congrArg Handled.ofService ?_).trans
        (congrArg Handled.ofService stopped))
      rw [fits, getDecision_eq_ok.mpr (ofDecision row shown)]
      rfl
  | resolveMarket =>
      cases asked
      rw [sameId]
      have judged : market.status ≠ .closed ∧ market.status ≠ .decided ∧
          market.status ≠ .executed := by simpa [offers, sameStatus] using missing
      exact conflicts_of_handle (reads _ (raiseIf_bind_of_holds judged))
  | settleMarket =>
      cases asked
      rw [sameId]
      have notResolved : market.status ≠ .resolved := by simpa [offers, sameStatus] using missing
      by_cases settled : market.status = .settled
      · exact conflicts_of_handle (reads _ (raiseIf_bind_of_holds settled))
      · have stopped : settleMarket db marketId env.settings market env.now =
            .error (.conflict s!"마켓이 {market.status} 상태라 정산할 수 없습니다.") := by
          rw [settleMarket, raiseIf, if_neg settled]
          exact raiseIf_bind_of_holds notResolved
        exact conflicts_of_handle (reads _ stopped)

end Page

/-- The buttons of a page are those that the API does not refuse for the state of the market
or of its decision, after every run. What the API refuses changes nothing and sends nothing. -/
theorem page_offers_what_is_accepted (events : List Event) {env : Env}
    (never : env.broker.NeverConflicts) {memberId adminId marketId : ℕ} {page : MarketPage}
    (loaded : MarketPage.load (stateAfter Db.empty events) memberId marketId = .ok page)
    {action : AdminAction} {request : Request}
    (asked : page.request adminId action = some request) :
    (page.offers action = true → ∀ message,
        (serve env request (stateAfter Db.empty events)).result ≠ .error (.conflict message)) ∧
      (page.offers action = false →
        (∀ reason, action = .rejectDecision reason → reason.length ≤ 500) →
        Conflicts env request (stateAfter Db.empty events)) := by
  obtain ⟨market, current⟩ := MarketPage.load_current loaded
  refine ⟨fun offered message raised => ?_, fun missing short =>
    current.conflicts asked short missing⟩
  have accepted := current.accepted (statusesBacked_stateAfter events) never asked offered
  exact unconflicted_serve accepted _ raised trivial

/-- With a decision that waits for an approval, an approval is offered and no second close. -/
theorem page_offers_what_is_accepted_pending :
    (∀ message, (serve desk (.approveDecision 1 1) (stateAfter Db.empty pendingDecision)).result ≠
        .error (.conflict message)) ∧
      Conflicts desk (.closeMarket 1) (stateAfter Db.empty pendingDecision) := by
  have never : desk.broker.NeverConflicts := ⟨fun _ => onlyRaises_ok _, fun _ => onlyRaises_ok _⟩
  have shown : (MarketPage.load (stateAfter Db.empty pendingDecision) 1 1).toOption.map
      (fun page => (page.market.id, page.market.status,
        page.decision.map fun row => (row.1, row.2.status))) =
      some (1, .decided, some (1, .pendingApproval)) := by decide +kernel
  obtain ⟨page, loaded, same⟩ := Option.map_eq_some_iff.mp shown
  obtain ⟨marketId, rest⟩ := Prod.mk.inj same
  obtain ⟨status, decision⟩ := Prod.mk.inj rest
  obtain ⟨row, found, sameRow⟩ := Option.map_eq_some_iff.mp decision
  obtain ⟨decisionId, pending⟩ := Prod.mk.inj sameRow
  have approval : page.request 1 .approveDecision = some (.approveDecision 1 1) := by
    simp [MarketPage.request, found, decisionId]
  have close : page.request 1 .closeMarket = some (.closeMarket 1) := by
    simp [MarketPage.request, marketId]
  have load := toOption_eq_some.mp loaded
  exact ⟨(page_offers_what_is_accepted pendingDecision never load approval).1
      (by simp [MarketPage.offers, found, pending]),
    (page_offers_what_is_accepted pendingDecision never load close).2
      (by simp [MarketPage.offers, status]) fun _ other => by cases other⟩

end FundPolymarket
