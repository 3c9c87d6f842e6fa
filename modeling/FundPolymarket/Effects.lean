import FundPolymarket.Runs

set_option autoImplicit false

/- What a committed request does to the markets, the decisions, the ledger and the
bets. -/
namespace FundPolymarket

section Tables

variable {db next : Db} {writes : List Write}

theorem table_map {α : Type} {name : TableName} {f : α → Write} (values : List α)
    (other : ∀ value, (f value).table ≠ name) : ∀ write ∈ values.map f, write.table ≠ name := by
  intro write member
  obtain ⟨value, _, rfl⟩ := List.mem_map.mp member
  exact other value

theorem insertedRows_of_ne {name : TableName} (other : ∀ write ∈ writes, write.table ≠ name) :
    insertedRows name writes = [] := by
  apply List.filterMap_eq_nil_iff.mpr
  intro write member
  have differs := other write member
  cases write <;> cases name <;> first | rfl | exact absurd rfl differs

@[simp] theorem insertedRows_insertLedger (entries : List LedgerEntry) :
    insertedRows .ledger (entries.map Write.insertLedger) = entries := by
  induction entries with
  | nil => rfl
  | cons entry entries ih => exact congrArg (entry :: ·) ih

theorem applyWrites_ledger (applied : applyWrites db writes = .ok next) :
    next.ledger.contents = db.ledger.contents ++ insertedRows .ledger writes :=
  applyWrites_contents applied .ledger rfl

/-- A flush whose last statement is the only one on the markets. -/
theorem applyWrites_updateMarket {earlier : List Write} {id : ℕ} {set : Market → Market}
    (applied : applyWrites db (earlier ++ [.updateMarket id set]) = .ok next)
    (other : ∀ write ∈ earlier, write.table ≠ .markets) :
    next.markets = db.markets.update id set := by
  have rows := applyWrites_table applied .markets
  rw [List.foldl_append, foldl_on_of_ne other] at rows
  exact rows

/-- A settlement writes its market last. -/
theorem applyWrites_settlement {entries : List LedgerEntry} {shown : List (ℕ × Points)} {id : ℕ}
    {set : Market → Market}
    (applied : applyWrites db (entries.map Write.insertLedger ++
      shown.map (fun entry => .setPayout entry.1 entry.2) ++ [.updateMarket id set]) = .ok next) :
    next.markets = db.markets.update id set := by
  refine applyWrites_updateMarket applied fun write member => ?_
  rcases List.mem_append.mp member with recorded | split
  · exact table_map entries (by simp [Write.table]) write recorded
  · exact table_map shown (by simp [Write.table]) write split

/-- So does a cancellation. -/
theorem applyWrites_cancellation {entries : List LedgerEntry} {id : ℕ} {set : Market → Market}
    (applied : applyWrites db (entries.map Write.insertLedger ++ [.updateMarket id set]) =
      .ok next) : next.markets = db.markets.update id set :=
  applyWrites_updateMarket applied (table_map entries (by simp [Write.table]))

theorem applyWrites_updateMarket_only {id : ℕ} {set : Market → Market}
    (applied : applyWrites db [.updateMarket id set] = .ok next) :
    next.markets = db.markets.update id set :=
  applyWrites_table applied .markets

end Tables

section Frame

/-- The tables that a request writes. -/
def Request.tables : Request → List TableName
  | .createMember _ => [.members, .ledger]
  | .createFund _ _ _ => [.funds]
  | .createMarket _ _ | .closeMarket _ | .resolveMarket _ => [.markets]
  | .putAllocation _ _ _ _ => [.ledger, .bets]
  | .createDecision _ => [.decisions, .markets]
  | .approveDecision _ _ => [.orders, .decisions, .markets]
  | .rejectDecision _ _ _ => [.decisions]
  | .settleMarket _ => [.ledger, .bets, .markets]
  | .cancelMarket _ _ => [.ledger, .markets]
  | .syncFund _ => [.positions]

variable {env : Env} {db now next : Db} {request : Request} {writes : List Write}

theorem Commits.tables (committed : Commits env db request writes) :
    ∀ write ∈ writes, write.table ∈ request.tables := by
  intro write member
  cases committed with
  | createMember | createFund | createMarket | closeMarket | createDecision | rejectDecision
  | resolveMarket =>
      simp only [List.mem_cons, List.not_mem_nil, or_false] at member
      rcases member with rfl | rfl <;> simp [Request.tables, Write.table]
  | putAllocation =>
      simp only [List.mem_append, List.mem_map, List.mem_singleton] at member
      rcases member with ((⟨_, _, rfl⟩ | ⟨_, _, rfl⟩) | ⟨_, _, rfl⟩) | rfl <;>
        simp [Request.tables, Write.table]
  | approveDecision =>
      simp only [successWrites, List.mem_cons, List.not_mem_nil, or_false] at member
      rcases member with rfl | rfl | rfl <;> simp [Request.tables, Write.table]
  | settleMarket =>
      simp only [List.mem_append, List.mem_map, List.mem_singleton] at member
      rcases member with (⟨_, _, rfl⟩ | ⟨_, _, rfl⟩) | rfl <;> simp [Request.tables, Write.table]
  | cancelMarket =>
      simp only [List.mem_append, List.mem_map, List.mem_singleton] at member
      rcases member with ⟨_, _, rfl⟩ | rfl <;> simp [Request.tables, Write.table]
  | syncFund synced =>
      rw [syncPositions_table synced write member]
      exact List.mem_singleton_self _

theorem Commits.table_of_row (committed : Commits env db request writes) {name : TableName}
    {row : Row name} (member : row ∈ insertedRows name writes) : name ∈ request.tables := by
  by_contra untouched
  have nothing : insertedRows name writes = [] :=
    insertedRows_of_ne fun write listed eq => untouched (eq ▸ committed.tables write listed)
  rw [nothing] at member
  cases member

/-- A committed request leaves every other table alone, also where its writes meet
another state than the one it has read. -/
theorem Commits.frame (committed : Commits env db request writes)
    (applied : applyWrites now writes = .ok next) (name : TableName)
    (untouched : name ∉ request.tables) : next.table name = now.table name :=
  applyWrites_frame applied name fun write member eq =>
    untouched (eq ▸ committed.tables write member)

theorem serve_frame (env : Env) (request : Request) (db : Db) {name : TableName}
    (untouched : name ∉ request.tables) :
    (serve env request db).db.table name = db.table name := by
  rcases serve_cases env request db with ⟨same, _⟩ | ⟨_, writes, committed, applied⟩
  · rw [same]
  · exact committed.frame applied name untouched

end Frame

section Markets

/-- How a committed request can change the row of a market. -/
inductive MarketChange (env : Env) (db : Db) : Request → ℕ → Market → Market → Prop where
  | close {id : ℕ} {row : Market} {name : Option String} {referencePrice : Price}
      (isOpen : row.status = .open) :
      MarketChange env db (.closeMarket id) id row (row.close name referencePrice env.now)
  | decide {id : ℕ} {row : Market} (isClosed : row.status = .closed) :
      MarketChange env db (.createDecision id) id row row.decide
  | execute {decisionId adminId : ℕ} {decision : TradeDecision} {prepared : Prepared}
      {result : OrderResult} {row : Market}
      (executed : Executed env db decisionId decision prepared result) :
      MarketChange env db (.approveDecision decisionId adminId) decision.marketId row row.execute
  | resolve {id : ℕ} {row : Market} {resolutionPrice : Price} {winningOutcome : Outcome}
      (betweenStates : row.status = .closed ∨ row.status = .decided ∨ row.status = .executed) :
      MarketChange env db (.resolveMarket id) id row
        (row.resolve resolutionPrice winningOutcome env.now)
  | settle {id : ℕ} {row : Market} (isResolved : row.status = .resolved) :
      MarketChange env db (.settleMarket id) id row (row.settle env.now)
  | cancel {id : ℕ} {row : Market} {reason : String} (notSettled : row.status ≠ .settled)
      (notCancelled : row.status ≠ .cancelled) :
      MarketChange env db (.cancelMarket id reason) id row (row.cancel env.now)

/-- A committed request leaves the markets as they are, opens one, or changes one row. -/
inductive MarketsAfter (env : Env) (db : Db) (request : Request) : Table Market → Prop where
  | same : MarketsAfter env db request db.markets
  | opened {market : Market} (isOpen : market.status = .open)
      (noOutcome : market.winningOutcome = none) (noPrice : market.resolutionPrice = none) :
      MarketsAfter env db request (db.markets.insert market)
  | changed {id : ℕ} {row : Market} {set : Market → Market}
      (found : db.markets.get? id = some row)
      (change : MarketChange env db request id row (set row)) :
      MarketsAfter env db request (db.markets.update id set)

variable {env : Env} {db next : Db} {request : Request} {writes : List Write}

theorem Executed.market_found {decisionId : ℕ} {decision : TradeDecision} {prepared : Prepared}
    {result : OrderResult} (executed : Executed env db decisionId decision prepared result) :
    db.markets.get? decision.marketId = some prepared.market :=
  (prepareOrder_eq_ok executed.prepared_eq).found

theorem Commits.markets (committed : Commits env db request writes)
    (applied : applyWrites db writes = .ok next) : MarketsAfter env db request next.markets := by
  have frame : .markets ∉ request.tables → MarketsAfter env db request next.markets := by
    intro untouched
    rw [show next.markets = db.markets from committed.frame applied .markets untouched]
    exact .same
  cases committed with
  | createMember | createFund | putAllocation | rejectDecision | syncFund =>
      exact frame (by simp [Request.tables])
  | createMarket isOpen noOutcome noPrice =>
      rw [show next.markets = _ from applyWrites_table applied .markets]
      exact .opened isOpen noOutcome noPrice
  | closeMarket found isOpen =>
      rw [applyWrites_updateMarket_only applied]
      exact .changed found (.close isOpen)
  | createDecision found isClosed =>
      rw [show next.markets = _ from applyWrites_table applied .markets]
      exact .changed found (.decide isClosed)
  | approveDecision executed =>
      rw [show next.markets = _ from applyWrites_table applied .markets]
      exact .changed executed.market_found (.execute executed)
  | resolveMarket found between =>
      rw [applyWrites_updateMarket_only applied]
      exact .changed found (.resolve between)
  | settleMarket found isResolved =>
      rw [applyWrites_settlement applied]
      exact .changed found (.settle isResolved)
  | cancelMarket found notSettled notCancelled =>
      rw [applyWrites_cancellation applied]
      exact .changed found (.cancel notSettled notCancelled)

/-- No market disappears. -/
theorem MarketsAfter.kept {markets : Table Market} (after : MarketsAfter env db request markets)
    {id : ℕ} {row : Market} (found : db.markets.get? id = some row) :
    ∃ later, markets.get? id = some later ∧
      (later = row ∨ MarketChange env db request id row later) := by
  cases after with
  | same => exact ⟨row, found, .inl rfl⟩
  | opened => exact ⟨row, Table.get?_insert_of_some _ found, .inl rfl⟩
  | @changed target old set oldFound change =>
      rw [Table.get?_update]
      by_cases same : id = target
      · subst same
        rw [found] at oldFound
        cases oldFound
        exact ⟨set row, by simp [found], .inr change⟩
      · exact ⟨row, by simp [same, found], .inl rfl⟩

/-- Where the row of a market comes from. -/
theorem MarketsAfter.origin {markets : Table Market} (after : MarketsAfter env db request markets)
    {id : ℕ} {later : Market} (found : markets.get? id = some later) :
    (db.markets.get? id = none ∧ later.status = .open ∧ later.winningOutcome = none ∧
        later.resolutionPrice = none) ∨
      ∃ row, db.markets.get? id = some row ∧
        (later = row ∨ MarketChange env db request id row later) := by
  cases before : db.markets.get? id with
  | some row =>
      obtain ⟨kept, keptFound, change⟩ := after.kept before
      rw [keptFound] at found
      cases found
      exact .inr ⟨row, rfl, change⟩
  | none =>
      cases after with
      | same =>
          rw [before] at found
          cases found
      | opened isOpen noOutcome noPrice =>
          rw [Table.get?_insert, before] at found
          split at found
          · cases found
            exact .inl ⟨rfl, isOpen, noOutcome, noPrice⟩
          · cases found
      | changed =>
          rw [Table.get?_update, before] at found
          split at found <;> cases found

end Markets

section Decisions

/-- A committed request leaves the decisions as they are, adds one to a closed
market that has none, rejects a pending one, or executes one. -/
inductive DecisionsAfter (env : Env) (db : Db) : Request → Table TradeDecision → Prop where
  | same {request : Request} : DecisionsAfter env db request db.decisions
  | built {marketId : ℕ} {market : Market} {decision : TradeDecision}
      (found : db.markets.get? marketId = some market) (isClosed : market.status = .closed)
      (none_exists : ∀ other ∈ db.decisions.contents, other.marketId ≠ marketId)
      (built : BuiltDecision db marketId market env.broker decision) :
      DecisionsAfter env db (.createDecision marketId) (db.decisions.insert decision)
  | rejected {decisionId adminId : ℕ} {reason : String} {decision : TradeDecision}
      (found : db.decisions.get? decisionId = some decision)
      (pending : decision.status = .pendingApproval) :
      DecisionsAfter env db (.rejectDecision decisionId adminId reason)
        (db.decisions.update decisionId fun row => row.reject adminId reason env.now)
  | executed {decisionId adminId : ℕ} {decision : TradeDecision} {prepared : Prepared}
      {result : OrderResult} (executed : Executed env db decisionId decision prepared result) :
      DecisionsAfter env db (.approveDecision decisionId adminId)
        (db.decisions.update decisionId fun row => row.execute adminId env.now)

variable {env : Env} {db next : Db} {request : Request} {writes : List Write}

theorem Commits.decisions (committed : Commits env db request writes)
    (applied : applyWrites db writes = .ok next) :
    DecisionsAfter env db request next.decisions := by
  have frame : .decisions ∉ request.tables → DecisionsAfter env db request next.decisions := by
    intro untouched
    rw [show next.decisions = db.decisions from committed.frame applied .decisions untouched]
    exact .same
  cases committed with
  | createMember | createFund | createMarket | putAllocation | closeMarket | resolveMarket
  | settleMarket | cancelMarket | syncFund =>
      exact frame (by simp [Request.tables])
  | createDecision found isClosed fresh built =>
      rw [show next.decisions = _ from applyWrites_table applied .decisions]
      exact .built found isClosed fresh built
  | approveDecision executed =>
      rw [show next.decisions = _ from applyWrites_table applied .decisions]
      exact .executed executed
  | rejectDecision found pending =>
      rw [show next.decisions = _ from applyWrites_table applied .decisions]
      exact .rejected found pending

end Decisions

end FundPolymarket
