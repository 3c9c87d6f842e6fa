import FundPolymarket.Api
import FundPolymarket.Flush

set_option autoImplicit false

/- What a request can do. `Commits` lists, for each request, the guards that it has
passed and the writes that it commits; the invariants are derived from this list. -/
namespace FundPolymarket

/-- What `build_decision` guarantees of the row it inserts. -/
structure BuiltDecision (db : Db) (marketId : ℕ) (market : Market) (broker : Broker)
    (decision : TradeDecision) : Prop where
  marketId_eq : decision.marketId = marketId
  limit : decision.orderType = .limit
  status : decision.status = .pendingApproval ∨ decision.status = .skipped
  sized : decision.status = .pendingApproval →
    decision.action ≠ .hold ∧ 0 < decision.targetQuantity ∧
      (decision.action = .sell →
        decision.targetQuantity = positionQuantity db market.fundId market.ticker) ∧
      ∃ quote limitPrice, broker.getQuote market.ticker = .ok quote ∧
        store 18 4 quote.price = .ok limitPrice ∧ decision.limitPrice = some limitPrice
  skipped : decision.status = .skipped → decision.limitPrice = none ∧ decision.targetQuantity = 0
  judged : ∃ consensus, getConsensus db marketId = .ok consensus ∧
    store 18 2 consensus.totalStake = .ok decision.totalStake ∧
      decision.participantCount = consensus.participantCount ∧
      decision.probabilities = consensus.asDict

/-- An execution that passed every check and that the broker accepted. -/
structure Executed (env : Env) (db : Db) (decisionId : ℕ) (decision : TradeDecision)
    (prepared : Prepared) (result : OrderResult) : Prop where
  found : db.decisions.get? decisionId = some decision
  prepared_eq : prepareOrder env.settings db decisionId decision env.broker env.now = .ok prepared
  allowed : prepared.verdict.allowed = true
  accepted : env.broker.placeOrder (orderRequest decision prepared) = .ok result

/-- What `create_market` has validated, and what it stores. -/
structure CreatedMarket (env : Env) (db : Db) (payload : MarketCreate) (adminId : ℕ)
    (market : Market) : Prop where
  validated : ∀ buy ∈ payload.buyThresholdPct, ∀ sell ∈ payload.sellThresholdPct, sell < buy
  fund : ∃ fund, db.funds.get? market.fundId = some fund
  creator : market.createdBy = adminId
  buy : store 6 2 (payload.buyThresholdPct.getD env.settings.defaultBuyThresholdPct) =
    .ok market.buyThresholdPct
  sell : store 6 2 (payload.sellThresholdPct.getD env.settings.defaultSellThresholdPct) =
    .ok market.sellThresholdPct
  isOpen : market.status = .open
  noOutcome : market.winningOutcome = none
  noPrice : market.resolutionPrice = none

inductive Commits (env : Env) (db : Db) : Request → List Write → Prop where
  | createMember {payload : MemberCreate} {grant : LedgerEntry}
      (granted : record db.members.nextId .initialGrant env.settings.initialPoints none
        (some "초기 포인트 지급") = .ok grant) :
      Commits env db (.createMember payload)
        [.insertMember { email := payload.email, name := payload.name, role := payload.role },
          .insertLedger grant]
  | createFund {name accountNo broker stored : String}
      (taken : storeText 20 broker = .ok stored) :
      Commits env db (.createFund name accountNo broker)
        [.insertFund { name, accountNo, broker := stored }]
  | createMarket {payload : MarketCreate} {adminId : ℕ} {market : Market}
      (isOpen : market.status = .open) (noOutcome : market.winningOutcome = none)
      (noPrice : market.resolutionPrice = none) :
      Commits env db (.createMarket payload adminId) [.insertMarket market]
  | putAllocation {marketId memberId : ℕ} {allocation : Allocation} {rationale : Option String}
      {market : Market} {refund : List LedgerEntry} {bets : List Bet} {lock : LedgerEntry}
      (found : db.markets.get? marketId = some market)
      (checked : checkAllocation env.settings db marketId market memberId allocation env.now =
        .ok ())
      (refunded : previousRefund db marketId memberId = .ok refund)
      (staked : allocation.cleaned.mapM (newBet marketId memberId rationale) = .ok bets)
      (locked : record memberId .betLock (-allocation.total) (some marketId)
        (some s!"마켓 #{marketId} 베팅") = .ok lock) :
      Commits env db (.putAllocation marketId memberId allocation rationale)
        (refund.map Write.insertLedger ++
          (existingBets db marketId memberId).map (fun row => Write.deleteBet row.1) ++
          bets.map Write.insertBet ++ [.insertLedger lock])
  | closeMarket {marketId : ℕ} {market : Market} {quote : Quote} {referencePrice : Price}
      {name : Option String} (found : db.markets.get? marketId = some market)
      (isOpen : market.status = .open) (quoted : env.broker.getQuote market.ticker = .ok quote)
      (stored : store 18 4 quote.price = .ok referencePrice)
      (named : quotedName market quote = .ok name) :
      Commits env db (.closeMarket marketId)
        [.updateMarket marketId fun row => row.close name referencePrice env.now]
  | createDecision {marketId : ℕ} {market : Market} {decision : TradeDecision}
      (found : db.markets.get? marketId = some market) (isClosed : market.status = .closed)
      (none_exists : ∀ other ∈ db.decisions.contents, other.marketId ≠ marketId)
      (built : BuiltDecision db marketId market env.broker decision) :
      Commits env db (.createDecision marketId)
        [.insertDecision decision, .updateMarket marketId Market.decide]
  | approveDecision {decisionId adminId : ℕ} {decision : TradeDecision} {prepared : Prepared}
      {result : OrderResult} {brokerOrderNo : Option String}
      (executed : Executed env db decisionId decision prepared result)
      (numbered : storedOrderNo result = .ok brokerOrderNo) :
      Commits env db (.approveDecision decisionId adminId)
        (successWrites decisionId decision adminId env.now prepared brokerOrderNo)
  | rejectDecision {decisionId adminId : ℕ} {reason : String} {decision : TradeDecision}
      (found : db.decisions.get? decisionId = some decision)
      (pending : decision.status = .pendingApproval) :
      Commits env db (.rejectDecision decisionId adminId reason)
        [.updateDecision decisionId fun row => row.reject adminId reason env.now]
  | resolveMarket {marketId : ℕ} {market : Market} {referencePrice resolutionPrice : Price}
      {quote : Quote} {verdict : Outcome × ℚ} (found : db.markets.get? marketId = some market)
      (betweenStates : market.status = .closed ∨ market.status = .decided ∨
        market.status = .executed)
      (referenced : market.referencePrice = some referencePrice)
      (quoted : env.broker.getQuote market.ticker = .ok quote)
      (judged : resolveOutcome referencePrice.val quote.price market.buyThresholdPct.val
        market.sellThresholdPct.val = .ok verdict)
      (stored : store 18 4 quote.price = .ok resolutionPrice) :
      Commits env db (.resolveMarket marketId)
        [.updateMarket marketId fun row => row.resolve resolutionPrice verdict.1 env.now]
  | settleMarket {marketId : ℕ} {market : Market} {winningOutcome : Outcome}
      {payouts : List (ℕ × ℚ)} {entries : List LedgerEntry} {shown : List (ℕ × Points)}
      (found : db.markets.get? marketId = some market) (isResolved : market.status = .resolved)
      (winning : market.winningOutcome = some winningOutcome)
      (settled : settleParimutuel (loadStakes db marketId) winningOutcome env.settings.rakeBps =
        .ok payouts)
      (recorded : (duePayouts db marketId payouts).mapM (payoutEntry marketId winningOutcome) =
        .ok entries)
      (split : (db.betsOf marketId).mapM (betPayout db marketId payouts) = .ok shown) :
      Commits env db (.settleMarket marketId)
        (entries.map Write.insertLedger ++ shown.map (fun entry => .setPayout entry.1 entry.2) ++
          [.updateMarket marketId fun row => row.settle env.now])
  | cancelMarket {marketId : ℕ} {reason : String} {market : Market} {entries : List LedgerEntry}
      (found : db.markets.get? marketId = some market)
      (notSettled : market.status ≠ .settled) (notCancelled : market.status ≠ .cancelled)
      (recorded : (dueRefunds db marketId).mapM (refundEntry marketId reason) = .ok entries) :
      Commits env db (.cancelMarket marketId reason)
        (entries.map Write.insertLedger ++ [.updateMarket marketId fun row => row.cancel env.now])
  | syncFund {fundId : ℕ} {writes : List Write}
      (synced : syncPositions db fundId env.broker = .ok writes) :
      Commits env db (.syncFund fundId) writes

section Inversion

variable {env : Env} {db : Db}

theorem getMarket_eq_ok {marketId : ℕ} {market : Market} :
    getMarket db marketId = .ok market ↔ db.markets.get? marketId = some market := orRaise_eq_ok

theorem getDecision_eq_ok {decisionId : ℕ} {decision : TradeDecision} :
    getDecision db decisionId = .ok decision ↔ db.decisions.get? decisionId = some decision :=
  orRaise_eq_ok

theorem Handled.ofService_ok {service : Except AppError (List Write)}
    (returned : (Handled.ofService service).result = .ok ()) :
    service = .ok (Handled.ofService service).flushed := by
  cases service with
  | error exc => cases returned
  | ok writes => rfl

theorem createMember_commits {payload : MemberCreate} {writes : List Write}
    (success : createMember env db payload = .ok writes) :
    Commits env db (.createMember payload) writes := by
  obtain ⟨_, _, rest⟩ := bind_eq_ok.mp success
  obtain ⟨grant, granted, same⟩ := bind_eq_ok.mp rest
  cases same
  exact .createMember granted

theorem createFund_commits {name accountNo broker : String} {writes : List Write}
    (success : createFund name accountNo broker = .ok writes) :
    Commits env db (.createFund name accountNo broker) writes := by
  obtain ⟨_, _, rest⟩ := bind_eq_ok.mp success
  obtain ⟨_, _, rest⟩ := bind_eq_ok.mp rest
  obtain ⟨_, _, rest⟩ := bind_eq_ok.mp rest
  obtain ⟨_, _, rest⟩ := bind_eq_ok.mp rest
  obtain ⟨stored, taken, same⟩ := bind_eq_ok.mp rest
  cases same
  exact .createFund taken

theorem createMarket_eq_ok {payload : MarketCreate} {adminId : ℕ} {writes : List Write}
    (success : createMarket env db payload adminId = .ok writes) :
    ∃ market, writes = [.insertMarket market] ∧ CreatedMarket env db payload adminId market := by
  obtain ⟨_, _, rest⟩ := bind_eq_ok.mp success
  obtain ⟨_, _, rest⟩ := bind_eq_ok.mp rest
  obtain ⟨_, rest⟩ := raiseIf_bind_eq_ok.mp rest
  obtain ⟨_, rest⟩ := raiseIf_bind_eq_ok.mp rest
  obtain ⟨validated, rest⟩ := raiseIf_bind_eq_ok.mp rest
  obtain ⟨fund, found, rest⟩ := bind_eq_ok.mp rest
  obtain ⟨_, buyStored, rest⟩ := bind_eq_ok.mp rest
  obtain ⟨_, sellStored, rest⟩ := bind_eq_ok.mp rest
  -- the notional, the texts and the name
  obtain ⟨_, _, rest⟩ := bind_eq_ok.mp rest
  obtain ⟨_, _, rest⟩ := bind_eq_ok.mp rest
  obtain ⟨_, _, rest⟩ := bind_eq_ok.mp rest
  obtain ⟨_, _, rest⟩ := bind_eq_ok.mp rest
  obtain ⟨_, _, same⟩ := bind_eq_ok.mp rest
  cases same
  refine ⟨_, rfl, ?_, ⟨fund, orRaise_eq_ok.mp found⟩, rfl, buyStored, sellStored, rfl, rfl, rfl⟩
  intro buy givenBuy sell givenSell
  exact not_le.mp fun crossed => validated ⟨buy, givenBuy, sell, givenSell, crossed⟩

theorem createMarket_commits {payload : MarketCreate} {adminId : ℕ} {writes : List Write}
    (success : createMarket env db payload adminId = .ok writes) :
    Commits env db (.createMarket payload adminId) writes := by
  obtain ⟨market, rfl, created⟩ := createMarket_eq_ok success
  exact .createMarket created.isOpen created.noOutcome created.noPrice

theorem placeAllocation_commits {marketId memberId : ℕ} {allocation : Allocation}
    {rationale : Option String} {market : Market} {writes : List Write}
    (found : db.markets.get? marketId = some market)
    (success : placeAllocation env.settings db marketId market memberId allocation rationale
      env.now = .ok writes) :
    Commits env db (.putAllocation marketId memberId allocation rationale) writes := by
  obtain ⟨_, checked, rest⟩ := bind_eq_ok.mp success
  obtain ⟨refund, refunded, rest⟩ := bind_eq_ok.mp rest
  obtain ⟨bets, staked, rest⟩ := bind_eq_ok.mp rest
  obtain ⟨lock, locked, same⟩ := bind_eq_ok.mp rest
  cases same
  exact .putAllocation found checked refunded staked locked

theorem closeMarket_commits {marketId : ℕ} {market : Market} {writes : List Write}
    (found : db.markets.get? marketId = some market)
    (success : closeMarket marketId market env.broker env.now = .ok writes) :
    Commits env db (.closeMarket marketId) writes := by
  obtain ⟨isOpen, rest⟩ := raiseIf_bind_eq_ok.mp success
  obtain ⟨quote, quoted, rest⟩ := bind_eq_ok.mp rest
  obtain ⟨referencePrice, stored, rest⟩ := bind_eq_ok.mp rest
  obtain ⟨name, named, same⟩ := bind_eq_ok.mp rest
  cases same
  exact .closeMarket found (not_not.mp isOpen) quoted stored named

theorem sizeOrder_eq_ok {market : Market} {action : Outcome} {broker : Broker} {sizing : Sizing}
    (success : sizeOrder db market action broker = .ok sizing) :
    (∃ quote, broker.getQuote market.ticker = .ok quote ∧
      sizing.limitPrice = some quote.price) ∧
      (sizing.reasons = [] → 0 < sizing.quantity) ∧
      (action ≠ .buy → sizing.quantity = positionQuantity db market.fundId market.ticker) := by
  obtain ⟨quote, quoted, rest⟩ := bind_eq_ok.mp success
  split at rest
  · rename_i buys
    obtain ⟨quantity, _, same⟩ := bind_eq_ok.mp rest
    cases same
    refine ⟨⟨quote, quoted, rfl⟩, ?_, fun notBuy => absurd buys notBuy⟩
    dsimp only
    split
    · simp
    · rename_i positive
      exact fun _ => not_le.mp positive
  · cases rest
    refine ⟨⟨quote, quoted, rfl⟩, ?_, fun _ => rfl⟩
    dsimp only
    split
    · simp
    · rename_i positive
      exact fun _ => not_le.mp positive

/-- An order without objections has been sized. -/
theorem sizing_goes {settings : Settings} {market : Market} {consensus : Consensus}
    {action : Outcome} {broker : Broker} {sized : Sizing}
    (success : sizing settings db market consensus action broker = .ok sized)
    (goes : skipReasons settings db consensus action sized = []) :
    action ≠ .hold ∧ sizeOrder db market action broker = .ok sized ∧ sized.reasons = [] := by
  obtain ⟨strong, clear, trades⟩ := skipReasons_eq_nil.mp goes
  rw [sizing, if_pos ⟨strong, trades⟩] at success
  exact ⟨trades, success, clear⟩

theorem buildDecision_eq_ok {settings : Settings} {marketId : ℕ} {market : Market} {broker : Broker}
    {writes : List Write}
    (success : buildDecision settings db marketId market broker = .ok writes) :
    market.status = .closed ∧ (∀ other ∈ db.decisions.contents, other.marketId ≠ marketId) ∧
      ∃ decision, BuiltDecision db marketId market broker decision ∧
        writes = [.insertDecision decision, .updateMarket marketId Market.decide] := by
  obtain ⟨isClosed, rest⟩ := raiseIf_bind_eq_ok.mp success
  split at rest
  · cases rest
  rename_i search
  refine ⟨not_not.mp isClosed, ?_, ?_⟩
  · intro other member
    obtain ⟨row, rowMember, rfl⟩ := List.mem_map.mp member
    simpa using List.find?_eq_none.mp search row rowMember
  obtain ⟨consensus, computed, rest⟩ := bind_eq_ok.mp rest
  obtain ⟨sized, sizedOk, rest⟩ := bind_eq_ok.mp rest
  obtain ⟨totalStake, totalOk, rest⟩ := bind_eq_ok.mp rest
  obtain ⟨participants, participantsOk, rest⟩ := bind_eq_ok.mp rest
  obtain ⟨quantity, quantityOk, rest⟩ := bind_eq_ok.mp rest
  obtain ⟨limitPrice, priced, same⟩ := bind_eq_ok.mp rest
  refine ⟨_, ?_, (Except.ok.inj same).symm⟩
  have counted := (storeCount_eq_ok.mp participantsOk).2.symm
  have sameQuantity := (storeInteger_eq_ok.mp quantityOk).2
  by_cases goes : skipReasons settings db consensus (consensus.leadingOutcome.getD .hold)
    sized = []
  · rw [storedLimitPrice, if_pos goes] at priced
    obtain ⟨trades, size, clear⟩ := sizing_goes sizedOk goes
    obtain ⟨⟨quote, quoted, price⟩, positive, sells⟩ := sizeOrder_eq_ok size
    rw [price] at priced
    obtain ⟨stored, storedOk, same⟩ := map_eq_ok.mp priced
    subst same
    refine ⟨rfl, rfl, by simp [newDecision, goes],
      fun _ => ⟨trades, ?_, ?_, quote, stored, quoted, storedOk, rfl⟩, by simp [newDecision, goes],
      consensus, computed, totalOk, counted, rfl⟩
    · simpa [newDecision, sameQuantity, goes] using positive clear
    · intro sell
      have notBuy : consensus.leadingOutcome.getD .hold ≠ .buy := by
        intro buys
        rw [newDecision, buys] at sell
        cases sell
      simpa [newDecision, sameQuantity, goes] using sells notBuy
  · rw [storedLimitPrice, if_neg goes] at priced
    cases priced
    exact ⟨rfl, rfl, by simp [newDecision, goes], by simp [newDecision, goes],
      by simp [newDecision, sameQuantity, goes], consensus, computed, totalOk, counted, rfl⟩

theorem rejectDecision_commits {decisionId adminId : ℕ} {decision : TradeDecision}
    {reason : String} {writes : List Write} (found : db.decisions.get? decisionId = some decision)
    (success : rejectDecision decisionId decision adminId reason env.now = .ok writes) :
    Commits env db (.rejectDecision decisionId adminId reason) writes := by
  obtain ⟨pending, rest⟩ := raiseIf_bind_eq_ok.mp success
  obtain ⟨_, _, same⟩ := bind_eq_ok.mp rest
  cases same
  exact .rejectDecision found (not_not.mp pending)

theorem createDecision_commits {marketId : ℕ} {market : Market} {writes : List Write}
    (found : db.markets.get? marketId = some market)
    (success : buildDecision env.settings db marketId market env.broker = .ok writes) :
    Commits env db (.createDecision marketId) writes := by
  obtain ⟨isClosed, fresh, decision, built, rfl⟩ := buildDecision_eq_ok success
  exact .createDecision found isClosed fresh built

theorem resolveMarket_commits {marketId : ℕ} {market : Market} {writes : List Write}
    (found : db.markets.get? marketId = some market)
    (success : resolveMarket marketId market env.broker env.now = .ok writes) :
    Commits env db (.resolveMarket marketId) writes := by
  obtain ⟨between, rest⟩ := raiseIf_bind_eq_ok.mp success
  obtain ⟨referencePrice, referenced, rest⟩ := bind_eq_ok.mp rest
  obtain ⟨quote, quoted, rest⟩ := bind_eq_ok.mp rest
  obtain ⟨verdict, judged, rest⟩ := bind_eq_ok.mp rest
  obtain ⟨resolutionPrice, stored, same⟩ := bind_eq_ok.mp rest
  cases same
  refine .resolveMarket found ?_ (orRaise_eq_ok.mp referenced) quoted judged stored
  by_contra neither
  push Not at neither
  exact between neither

theorem settleMarket_commits {marketId : ℕ} {market : Market} {writes : List Write}
    (found : db.markets.get? marketId = some market)
    (success : settleMarket db marketId env.settings market env.now = .ok writes) :
    Commits env db (.settleMarket marketId) writes := by
  obtain ⟨_, rest⟩ := raiseIf_bind_eq_ok.mp success
  obtain ⟨resolved, rest⟩ := raiseIf_bind_eq_ok.mp rest
  obtain ⟨winningOutcome, winning, rest⟩ := bind_eq_ok.mp rest
  obtain ⟨payouts, settled, rest⟩ := bind_eq_ok.mp rest
  obtain ⟨_, _, rest⟩ := bind_eq_ok.mp rest
  obtain ⟨entries, recorded, rest⟩ := bind_eq_ok.mp rest
  obtain ⟨shown, split, same⟩ := bind_eq_ok.mp rest
  cases same
  exact .settleMarket found (not_not.mp resolved) (orRaise_eq_ok.mp winning) settled recorded split

theorem cancelMarket_commits {marketId : ℕ} {market : Market} {reason : String}
    {writes : List Write} (found : db.markets.get? marketId = some market)
    (success : cancelMarket db marketId market reason env.now = .ok writes) :
    Commits env db (.cancelMarket marketId reason) writes := by
  obtain ⟨active, rest⟩ := raiseIf_bind_eq_ok.mp success
  obtain ⟨entries, recorded, same⟩ := bind_eq_ok.mp rest
  cases same
  push Not at active
  exact .cancelMarket found active.1 active.2 recorded

/-- What an execution has established before it creates its order. -/
structure Prepares (settings : Settings) (db : Db) (decisionId : ℕ) (decision : TradeDecision)
    (broker : Broker) (now : Time) (prepared : Prepared) : Prop where
  pending : decision.status = .pendingApproval
  trades : decision.action ≠ .hold
  found : db.markets.get? decision.marketId = some prepared.market
  priced : orderPrice decision.limitPrice prepared.market.ticker broker = .ok prepared.price
  ctx_eq : prepared.ctx =
    { fundId := prepared.market.fundId
      ticker := prepared.market.ticker
      side := orderSide decision.action
      quantity := decision.targetQuantity
      price := prepared.price
      orderType := decision.orderType }
  verdict_eq : prepared.verdict = checkOrder settings db prepared.ctx now broker
  decisionId_eq : prepared.order.decisionId = some decisionId
  marketId_eq : prepared.order.marketId = some decision.marketId

theorem prepareOrder_eq_ok {settings : Settings} {decisionId : ℕ} {decision : TradeDecision}
    {broker : Broker} {now : Time} {prepared : Prepared}
    (success : prepareOrder settings db decisionId decision broker now = .ok prepared) :
    Prepares settings db decisionId decision broker now prepared := by
  obtain ⟨pending, rest⟩ := raiseIf_bind_eq_ok.mp success
  obtain ⟨trades, rest⟩ := raiseIf_bind_eq_ok.mp rest
  obtain ⟨market, found, rest⟩ := bind_eq_ok.mp rest
  obtain ⟨price, priced, rest⟩ := bind_eq_ok.mp rest
  obtain ⟨stored, _, rest⟩ := bind_eq_ok.mp rest
  obtain ⟨quantity, _, rest⟩ := bind_eq_ok.mp rest
  obtain ⟨brokerEnv, _, same⟩ := bind_eq_ok.mp rest
  cases same
  exact ⟨not_not.mp pending, trades, getMarket_eq_ok.mp found, priced, rfl, rfl, rfl, rfl⟩

theorem syncedWrite_table {fundId : ℕ} {s : Synced} {write : Write}
    (success : syncedWrite fundId s = .ok write) : write.table = .positions := by
  obtain ⟨stored, _, rest⟩ := bind_eq_ok.mp success
  split at rest
  · cases rest
    rfl
  · obtain ⟨ticker, _, same⟩ := bind_eq_ok.mp rest
    cases same
    rfl

/-- A synchronisation writes positions only. -/
theorem syncPositions_table {fundId : ℕ} {broker : Broker} {writes : List Write}
    (success : syncPositions db fundId broker = .ok writes) :
    ∀ write ∈ writes, write.table = .positions := by
  obtain ⟨snapshot, _, rest⟩ := bind_eq_ok.mp success
  intro write member
  obtain ⟨s, _, written⟩ := forall₂_exists_left (mapM_forall₂ rest) member
  exact syncedWrite_table written

theorem prepareOrder_order {settings : Settings} {decisionId : ℕ} {decision : TradeDecision}
    {broker : Broker} {now : Time} {prepared : Prepared}
    (success : prepareOrder settings db decisionId decision broker now = .ok prepared) :
    prepared.order.fundId = prepared.market.fundId ∧ prepared.order.createdAt = now := by
  obtain ⟨_, rest⟩ := raiseIf_bind_eq_ok.mp success
  obtain ⟨_, rest⟩ := raiseIf_bind_eq_ok.mp rest
  obtain ⟨market, _, rest⟩ := bind_eq_ok.mp rest
  obtain ⟨price, _, rest⟩ := bind_eq_ok.mp rest
  obtain ⟨stored, _, rest⟩ := bind_eq_ok.mp rest
  obtain ⟨quantity, _, rest⟩ := bind_eq_ok.mp rest
  obtain ⟨brokerEnv, _, same⟩ := bind_eq_ok.mp rest
  cases same
  exact ⟨rfl, rfl⟩

/-- No constraint stands in the way of an accepted order. -/
theorem successWrites_unconstrained {decisionId : ℕ} {decision : TradeDecision} {adminId : ℕ}
    {now : Time} {prepared : Prepared} {brokerOrderNo : Option String} :
    ∀ write ∈ successWrites decisionId decision adminId now prepared brokerOrderNo,
      write.unconstrained = true := by
  intro write member
  simp only [successWrites, List.mem_cons, List.not_mem_nil, or_false] at member
  rcases member with rfl | rfl | rfl <;> rfl

/-- How an execution ends that has created its order. The exception of a refusal is another
one where the rows do not take its message. -/
inductive Ends (decisionId : ℕ) (decision : TradeDecision) (broker : Broker) (adminId : ℕ)
    (now : Time) (prepared : Prepared) (execution : Execution) : Prop where
  | blocked {exc : AppError} (refused : prepared.verdict.allowed = false)
      (nothing : execution.sent = []) (ended : execution.result = .error exc)
  | failed {cause exc : AppError} (allowed : prepared.verdict.allowed = true)
      (once : execution.sent = [orderRequest decision prepared])
      (answer : broker.placeOrder (orderRequest decision prepared) = .error cause)
      (ended : execution.result = .error exc)
  | unnumbered {result : OrderResult} {exc : AppError}
      (allowed : prepared.verdict.allowed = true)
      (once : execution.sent = [orderRequest decision prepared])
      (answer : broker.placeOrder (orderRequest decision prepared) = .ok result)
      (unstorable : storedOrderNo result = .error exc) (ended : execution.result = .error exc)
  | submitted {result : OrderResult} {brokerOrderNo : Option String}
      (allowed : prepared.verdict.allowed = true)
      (once : execution.sent = [orderRequest decision prepared])
      (answer : broker.placeOrder (orderRequest decision prepared) = .ok result)
      (numbered : storedOrderNo result = .ok brokerOrderNo)
      (flushed : execution.flushed =
        successWrites decisionId decision adminId now prepared brokerOrderNo)
      (ended : execution.result = .ok (prepared.order.submit brokerOrderNo now))

theorem refused_ends {decisionId : ℕ} {prepared : Prepared} {sent : List OrderRequest}
    {message reason : String} {exc : AppError} :
    (refused decisionId prepared sent message reason exc).sent = sent ∧
      ∃ raised, (refused decisionId prepared sent message reason exc).result = .error raised := by
  unfold refused
  split
  · exact ⟨rfl, _, rfl⟩
  · exact ⟨rfl, _, rfl⟩

theorem executeDecision_of_error {settings : Settings} {decisionId : ℕ} {decision : TradeDecision}
    {broker : Broker} {adminId : ℕ} {now : Time} {exc : AppError}
    (failed : prepareOrder settings db decisionId decision broker now = .error exc) :
    executeDecision settings db decisionId decision broker adminId now =
      ⟨[], [], .error exc⟩ := by
  rw [executeDecision, failed]

theorem executeDecision_ends {settings : Settings} {decisionId : ℕ} {decision : TradeDecision}
    {broker : Broker} {now : Time} {prepared : Prepared}
    (success : prepareOrder settings db decisionId decision broker now = .ok prepared)
    (adminId : ℕ) :
    Ends decisionId decision broker adminId now prepared
      (executeDecision settings db decisionId decision broker adminId now) := by
  rw [executeDecision, success]
  dsimp only
  by_cases blocked : prepared.verdict.allowed = false
  · rw [if_pos blocked]
    obtain ⟨nothing, exc, ended⟩ := refused_ends
    exact .blocked blocked nothing ended
  · rw [if_neg blocked]
    have allowed := Bool.eq_true_of_not_eq_false blocked
    cases answer : broker.placeOrder (orderRequest decision prepared) with
    | ok result =>
        dsimp only
        cases number : storedOrderNo result with
        | ok brokerOrderNo => exact .submitted allowed rfl answer number rfl rfl
        | error exc => exact .unnumbered allowed rfl answer number rfl
    | error cause =>
        cases cause with
        | broker message =>
            obtain ⟨once, exc, ended⟩ := refused_ends
            exact .failed allowed once answer ended
        | _ => exact .failed allowed rfl answer rfl

theorem approveDecision_not_found {decisionId adminId : ℕ} {exc : AppError}
    (absent : getDecision db decisionId = .error exc) :
    approveDecision env db decisionId adminId = ⟨[], [], .error exc⟩ := by
  rw [approveDecision, absent]

theorem approveDecision_found {decisionId adminId : ℕ} {decision : TradeDecision}
    (found : getDecision db decisionId = .ok decision) :
    approveDecision env db decisionId adminId =
      ⟨(executeDecision env.settings db decisionId decision env.broker adminId env.now).flushed,
        (executeDecision env.settings db decisionId decision env.broker adminId env.now).sent,
        (fun _ => ()) <$>
          (executeDecision env.settings db decisionId decision env.broker adminId
            env.now).result⟩ := by
  rw [approveDecision, found]

/-- An order request that goes to the broker: only an approval sends one, after
every check. -/
structure Sends (env : Env) (db : Db) (request : Request) (sent : OrderRequest)
    (decisionId : ℕ) (decision : TradeDecision) (prepared : Prepared) : Prop where
  approval : ∃ adminId, request = .approveDecision decisionId adminId
  found : db.decisions.get? decisionId = some decision
  prepared_eq : prepareOrder env.settings db decisionId decision env.broker env.now = .ok prepared
  allowed : prepared.verdict.allowed = true
  sent_eq : sent = orderRequest decision prepared

/-- How an approval ends: before it calls the broker, or after the broker's answer, whose
order number the database may refuse. -/
inductive ApprovalEnds (env : Env) (db : Db) (decisionId adminId : ℕ) (handled : Handled) :
    Prop where
  | stopped {exc : AppError} (silent : handled.sent = []) (ended : handled.result = .error exc)
  | failed {decision : TradeDecision} {prepared : Prepared} {cause exc : AppError}
      (sends : Sends env db (.approveDecision decisionId adminId) (orderRequest decision prepared)
        decisionId decision prepared)
      (once : handled.sent = [orderRequest decision prepared])
      (answer : env.broker.placeOrder (orderRequest decision prepared) = .error cause)
      (ended : handled.result = .error exc)
  | unnumbered {decision : TradeDecision} {prepared : Prepared} {result : OrderResult}
      {exc : AppError}
      (sends : Sends env db (.approveDecision decisionId adminId) (orderRequest decision prepared)
        decisionId decision prepared)
      (once : handled.sent = [orderRequest decision prepared])
      (answer : env.broker.placeOrder (orderRequest decision prepared) = .ok result)
      (unstorable : storedOrderNo result = .error exc) (ended : handled.result = .error exc)
  | submitted {decision : TradeDecision} {prepared : Prepared} {result : OrderResult}
      {brokerOrderNo : Option String}
      (sends : Sends env db (.approveDecision decisionId adminId) (orderRequest decision prepared)
        decisionId decision prepared)
      (once : handled.sent = [orderRequest decision prepared])
      (answer : env.broker.placeOrder (orderRequest decision prepared) = .ok result)
      (numbered : storedOrderNo result = .ok brokerOrderNo)
      (flushed : handled.flushed =
        successWrites decisionId decision adminId env.now prepared brokerOrderNo)
      (ended : handled.result = .ok ())

theorem approveDecision_ends (env : Env) (db : Db) (decisionId adminId : ℕ) :
    ApprovalEnds env db decisionId adminId (approveDecision env db decisionId adminId) := by
  cases search : getDecision db decisionId with
  | error exc =>
      rw [approveDecision_not_found search]
      exact .stopped rfl rfl
  | ok decision =>
      rw [approveDecision_found search]
      cases attempt : prepareOrder env.settings db decisionId decision env.broker env.now with
      | error exc =>
          rw [executeDecision_of_error attempt]
          exact .stopped rfl rfl
      | ok prepared =>
          have sends : prepared.verdict.allowed = true →
              Sends env db (.approveDecision decisionId adminId) (orderRequest decision prepared)
                decisionId decision prepared :=
            fun allowed => ⟨⟨adminId, rfl⟩, getDecision_eq_ok.mp search, attempt, allowed, rfl⟩
          cases executeDecision_ends attempt adminId with
          | blocked _ nothing ended => exact .stopped nothing (congrArg (_ <$> ·) ended)
          | failed allowed once answer ended =>
              exact .failed (sends allowed) once answer (congrArg (_ <$> ·) ended)
          | unnumbered allowed once answer unstorable ended =>
              exact .unnumbered (sends allowed) once answer unstorable (congrArg (_ <$> ·) ended)
          | submitted allowed once answer numbered flushed ended =>
              exact .submitted (sends allowed) once answer numbered flushed
                (congrArg (_ <$> ·) ended)

theorem approveDecision_commits {decisionId adminId : ℕ}
    (returned : (approveDecision env db decisionId adminId).result = .ok ()) :
    Commits env db (.approveDecision decisionId adminId)
      (approveDecision env db decisionId adminId).flushed := by
  cases approveDecision_ends env db decisionId adminId with
  | stopped _ ended | failed _ _ _ ended | unnumbered _ _ _ _ ended =>
      rw [ended] at returned
      cases returned
  | submitted sends _ answer numbered flushed _ =>
      rw [flushed]
      exact .approveDecision ⟨sends.found, sends.prepared_eq, sends.allowed, answer⟩ numbered

theorem approveDecision_sends (decisionId adminId : ℕ) :
    (approveDecision env db decisionId adminId).sent = [] ∨
      ∃ decision prepared, Sends env db (.approveDecision decisionId adminId)
          (orderRequest decision prepared) decisionId decision prepared ∧
        (approveDecision env db decisionId adminId).sent = [orderRequest decision prepared] := by
  cases approveDecision_ends env db decisionId adminId with
  | stopped silent _ => exact .inl silent
  | failed sends once _ _ | unnumbered sends once _ _ _ | submitted sends once _ _ _ _ =>
      exact .inr ⟨_, _, sends, once⟩

theorem Handled.ofService_sent (service : Except AppError (List Write)) :
    (Handled.ofService service).sent = [] := by
  cases service <;> rfl

theorem handle_sent {request : Request} {sent : OrderRequest}
    (member : sent ∈ (handle env db request).sent) :
    ∃ decisionId decision prepared, Sends env db request sent decisionId decision prepared := by
  cases request with
  | approveDecision decisionId adminId =>
      rcases approveDecision_sends decisionId adminId with
        nothing | ⟨decision, prepared, sends, once⟩
      · rw [handle, nothing] at member
        cases member
      · rw [handle, once, List.mem_singleton] at member
        exact ⟨decisionId, decision, prepared, member ▸ sends⟩
  | _ =>
      unfold handle at member
      rw [Handled.ofService_sent] at member
      cases member

/-- A handler that returns commits one of the listed changes. -/
theorem handle_commits {request : Request} (returned : (handle env db request).result = .ok ()) :
    Commits env db request (handle env db request).flushed := by
  cases request with
  | createMember payload => exact createMember_commits (Handled.ofService_ok returned)
  | createFund name accountNo broker => exact createFund_commits (Handled.ofService_ok returned)
  | createMarket payload adminId => exact createMarket_commits (Handled.ofService_ok returned)
  | putAllocation marketId memberId allocation rationale =>
      obtain ⟨market, found, success⟩ := bind_eq_ok.mp (Handled.ofService_ok returned)
      exact placeAllocation_commits (getMarket_eq_ok.mp found) success
  | closeMarket marketId =>
      obtain ⟨market, found, success⟩ := bind_eq_ok.mp (Handled.ofService_ok returned)
      exact closeMarket_commits (getMarket_eq_ok.mp found) success
  | createDecision marketId =>
      obtain ⟨market, found, success⟩ := bind_eq_ok.mp (Handled.ofService_ok returned)
      exact createDecision_commits (getMarket_eq_ok.mp found) success
  | approveDecision decisionId adminId => exact approveDecision_commits returned
  | rejectDecision decisionId adminId reason =>
      obtain ⟨_, _, rest⟩ := bind_eq_ok.mp (Handled.ofService_ok returned)
      obtain ⟨decision, found, success⟩ := bind_eq_ok.mp rest
      exact rejectDecision_commits (getDecision_eq_ok.mp found) success
  | resolveMarket marketId =>
      obtain ⟨market, found, success⟩ := bind_eq_ok.mp (Handled.ofService_ok returned)
      exact resolveMarket_commits (getMarket_eq_ok.mp found) success
  | settleMarket marketId =>
      obtain ⟨market, found, success⟩ := bind_eq_ok.mp (Handled.ofService_ok returned)
      exact settleMarket_commits (getMarket_eq_ok.mp found) success
  | cancelMarket marketId reason =>
      obtain ⟨_, _, rest⟩ := bind_eq_ok.mp (Handled.ofService_ok returned)
      obtain ⟨market, found, success⟩ := bind_eq_ok.mp rest
      exact cancelMarket_commits (getMarket_eq_ok.mp found) success
  | syncFund fundId =>
      obtain ⟨_, _, success⟩ := bind_eq_ok.mp (Handled.ofService_ok returned)
      exact .syncFund success

end Inversion

theorem endRequest_eq_ok {now next : Db} {handled : Handled}
    (applied : applyWrites now handled.flushed = .ok next) (returned : handled.result = .ok ()) :
    (endRequest now handled).db = next := by
  unfold endRequest Session.flush
  simp only [Session.begin, applied, returned, Functor.map, Except.map]
  rfl

/-- A request raises and leaves the committed state as it was, or commits what it flushed. -/
theorem serve_ended (env : Env) (request : Request) (db : Db) :
    ((serve env request db).db = db ∧ ∃ exc, (serve env request db).result = .error exc) ∨
      ((serve env request db).result = .ok () ∧ (handle env db request).result = .ok () ∧
        applyWrites db (handle env db request).flushed = .ok (serve env request db).db) := by
  unfold serve endRequest Session.flush
  cases flush : applyWrites (Session.begin db).working (handle env db request).flushed with
  | error exc => exact .inl ⟨rfl, exc, rfl⟩
  | ok working =>
      simp only [Functor.map, Except.map]
      cases ended : (handle env db request).result with
      | error exc => exact .inl ⟨rfl, exc, rfl⟩
      | ok done => exact .inr ⟨rfl, rfl, flush⟩

/-- A request leaves the committed state as it was, or commits one of the listed
changes as a whole. -/
theorem serve_cases (env : Env) (request : Request) (db : Db) :
    ((serve env request db).db = db ∧ ∃ exc, (serve env request db).result = .error exc) ∨
      ((serve env request db).result = .ok () ∧ ∃ writes, Commits env db request writes ∧
        applyWrites db writes = .ok (serve env request db).db) := by
  rcases serve_ended env request db with unchanged | ⟨returned, ended, applied⟩
  · exact .inl unchanged
  · exact .inr ⟨returned, _, handle_commits ended, applied⟩

/-- A request that returns has flushed its writes and committed them. -/
theorem serve_returned {env : Env} {request : Request} {db : Db}
    (returned : (serve env request db).result = .ok ()) :
    (handle env db request).result = .ok () ∧
      applyWrites db (handle env db request).flushed = .ok (serve env request db).db := by
  rcases serve_ended env request db with ⟨_, exc, raised⟩ | ⟨_, ended, applied⟩
  · rw [returned] at raised
    cases raised
  · exact ⟨ended, applied⟩

/-- The requests that went to the broker do not depend on what is committed. -/
theorem serve_sent (env : Env) (request : Request) (db : Db) :
    (serve env request db).sent = (handle env db request).sent := by
  unfold serve endRequest Session.flush
  cases applyWrites (Session.begin db).working (handle env db request).flushed with
  | error exc => rfl
  | ok working =>
      simp only [Functor.map, Except.map]
      cases (handle env db request).result <;> rfl

end FundPolymarket
