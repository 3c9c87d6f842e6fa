import FundPolymarket.Effects

set_option autoImplicit false

/- The risk check as a gate: what is known of every order that reaches the broker. -/
namespace FundPolymarket

/-- The value of everything the account holds of a ticker. -/
def tickerValue (snapshot : BalanceSnapshot) (ticker : String) : ℚ :=
  ((snapshot.holdings.filter fun h => h.ticker = ticker).map HoldingItem.value).sum

/-- The limits that an order keeps at its risk check. -/
structure WithinLimits (settings : Settings) (db : Db) (ctx : RiskContext) (now : Time)
    (broker : Broker) : Prop where
  killSwitch : settings.killSwitch = false
  quantity : 0 < ctx.quantity
  amount : ctx.notional ≤ settings.maxOrderAmountKrw
  session : settings.enforceMarketHours = true → (currentSession now).isOpen = true ∧
    (ctx.orderType = .market → currentSession now = .regular)
  daily : dailyOrderCount db ctx.fundId now < settings.maxDailyOrders
  position : ctx.side = .sell → ctx.quantity ≤ positionQuantity db ctx.fundId ctx.ticker
  balance : ctx.side = .buy → ∃ snapshot, broker.getBalance = .ok snapshot ∧
    ctx.notional ≤ snapshot.cashKrw ∧ 0 < equity snapshot ∧
      Decimal.div (Decimal.add (tickerValue snapshot ctx.ticker) ctx.notional) (equity snapshot) ≤
        settings.maxPositionWeight

/-- Positive quotes, and holdings without negative numbers. -/
structure Broker.Sane (broker : Broker) : Prop where
  quotes : ∀ ticker quote, broker.getQuote ticker = .ok quote → 0 < quote.price
  holdings : ∀ snapshot, broker.getBalance = .ok snapshot → ∀ h ∈ snapshot.holdings,
    0 ≤ h.quantity ∧ 0 ≤ h.avgPrice ∧ ∀ price ∈ h.currentPrice, 0 ≤ price

/-- The ticker is not listed twice. -/
def Broker.ListsOnce (broker : Broker) (ticker : String) : Prop :=
  ∀ snapshot ∈ broker.getBalance.toOption,
    (snapshot.holdings.filter fun h => h.ticker = ticker).length ≤ 1

section Check

variable {settings : Settings} {db : Db} {ctx : RiskContext} {now : Time} {broker : Broker}

theorem value_nonneg {h : HoldingItem} (quantity : 0 ≤ h.quantity) (avgPrice : 0 ≤ h.avgPrice)
    (currentPrice : ∀ price ∈ h.currentPrice, 0 ≤ price) : 0 ≤ h.value := by
  have price_nonneg : 0 ≤ h.price := by
    unfold HoldingItem.price orDecimal
    split
    · rename_i price listed
      split
      · exact avgPrice
      · exact currentPrice price listed
    · exact avgPrice
  exact Decimal.fix_nonneg (mul_nonneg price_nonneg (by exact_mod_cast quantity))

theorem equity_pos {snapshot : BalanceSnapshot}
    (holdings : ∀ h ∈ snapshot.holdings,
      0 ≤ h.quantity ∧ 0 ≤ h.avgPrice ∧ ∀ price ∈ h.currentPrice, 0 ≤ price)
    (cash : 0 < snapshot.cashKrw) : 0 < equity snapshot := by
  refine Decimal.fix_pos (add_pos_of_pos_of_nonneg cash (Decimal.sum_nonneg ?_))
  intro value member
  obtain ⟨h, held, rfl⟩ := List.mem_map.mp member
  obtain ⟨quantity, avgPrice, currentPrice⟩ := holdings h held
  exact value_nonneg quantity avgPrice currentPrice

theorem filter_eq_find? {α : Type} {keep : α → Bool} {items : List α}
    (single : (items.filter keep).length ≤ 1) : items.filter keep = (items.find? keep).toList := by
  rw [← List.head?_filter]
  cases rows : items.filter keep with
  | nil => rfl
  | cons first rest =>
      rw [rows, List.length_cons] at single
      have nothing : rest = [] := List.length_eq_zero_iff.mp (by omega)
      simp [nothing]

/-- Where a ticker is listed once, its first row is all there is. -/
theorem existingValue_of_single {snapshot : BalanceSnapshot} {ticker : String}
    (single : (snapshot.holdings.filter fun h => h.ticker = ticker).length ≤ 1) :
    existingValue snapshot ticker = tickerValue snapshot ticker := by
  rw [existingValue, tickerValue, filter_eq_find? single]
  cases snapshot.holdings.find? fun h => h.ticker = ticker <;> simp

theorem notional_pos (price : 0 < ctx.price) (quantity : 0 < ctx.quantity) : 0 < ctx.notional :=
  Decimal.fix_pos (mul_pos price (by exact_mod_cast quantity))

/-- The equity guard of the weight check never skips it: an order that cash covers has
positive equity behind it. -/
theorem weight_of_no_reasons {snapshot : BalanceSnapshot}
    (read : broker.getBalance = .ok snapshot)
    (holdings : ∀ h ∈ snapshot.holdings,
      0 ≤ h.quantity ∧ 0 ≤ h.avgPrice ∧ ∀ price ∈ h.currentPrice, 0 ≤ price)
    (price : 0 < ctx.price) (quantity : 0 < ctx.quantity) (buys : ctx.side = .buy)
    (clear : balanceReasons settings ctx broker = []) :
    ctx.notional ≤ snapshot.cashKrw ∧ 0 < equity snapshot ∧
      positionWeight ctx snapshot ≤ settings.maxPositionWeight := by
  rw [balanceReasons, if_pos buys, read] at clear
  obtain ⟨cashClear, weightClear⟩ := List.append_eq_nil_iff.mp clear
  have cash : ctx.notional ≤ snapshot.cashKrw := by
    unfold cashReasons at cashClear
    split at cashClear
    · cases cashClear
    · exact not_lt.mp ‹_›
  have positive := equity_pos holdings ((notional_pos price quantity).trans_le cash)
  refine ⟨cash, positive, ?_⟩
  rw [weightReasons, if_pos positive] at weightClear
  split at weightClear
  · cases weightClear
  · exact not_lt.mp ‹_›

theorem balance_of_no_reasons (sane : broker.Sane) (once : broker.ListsOnce ctx.ticker)
    (price : 0 < ctx.price) (quantity : 0 < ctx.quantity) (buys : ctx.side = .buy)
    (clear : balanceReasons settings ctx broker = []) :
    ∃ snapshot, broker.getBalance = .ok snapshot ∧ ctx.notional ≤ snapshot.cashKrw ∧
      0 < equity snapshot ∧
        Decimal.div (Decimal.add (tickerValue snapshot ctx.ticker) ctx.notional)
          (equity snapshot) ≤ settings.maxPositionWeight := by
  cases read : broker.getBalance with
  | error exc =>
      rw [balanceReasons, if_pos buys, read] at clear
      cases clear
  | ok snapshot =>
      obtain ⟨cash, positive, weight⟩ := weight_of_no_reasons read (sane.holdings snapshot read)
        price quantity buys clear
      refine ⟨snapshot, rfl, cash, positive, ?_⟩
      rw [← existingValue_of_single (once snapshot (by rw [read]; rfl))]
      exact weight

/-- Without a reason from any rule an order is allowed. -/
theorem checkOrder_allowed_iff :
    (checkOrder settings db ctx now broker).allowed = true ↔
      (killSwitchReasons settings = [] ∧ quantityReasons ctx = [] ∧
        amountReasons settings ctx = []) ∧
      (sessionReasons settings ctx now = [] ∧ dailyReasons settings db ctx now = []) ∧
      positionReasons db ctx = [] ∧ balanceReasons settings ctx broker = [] := by
  simp only [checkOrder, List.isEmpty_iff, List.append_eq_nil_iff, and_assoc]

theorem killSwitchReasons_eq_nil :
    killSwitchReasons settings = [] ↔ settings.killSwitch = false := by
  cases on : settings.killSwitch <;> simp [killSwitchReasons, on]

theorem quantityReasons_eq_nil : quantityReasons ctx = [] ↔ 0 < ctx.quantity := by
  by_cases positive : 0 < ctx.quantity
  · simp [quantityReasons, positive]
  · simp [quantityReasons, not_lt.mp positive]

theorem amountReasons_eq_nil :
    amountReasons settings ctx = [] ↔ ctx.notional ≤ settings.maxOrderAmountKrw := by
  by_cases within : ctx.notional ≤ settings.maxOrderAmountKrw
  · simp [amountReasons, within]
  · simp [amountReasons, not_le.mp within]

theorem sessionReasons_eq_nil :
    sessionReasons settings ctx now = [] ↔ (settings.enforceMarketHours = true →
      (currentSession now).isOpen = true ∧
        (ctx.orderType = .market → currentSession now = .regular)) := by
  cases enforced : settings.enforceMarketHours with
  | false => simp [sessionReasons, enforced]
  | true =>
      cases isOpen : (currentSession now).isOpen with
      | false => simp [sessionReasons, enforced, isOpen]
      | true => simp [sessionReasons, enforced, isOpen, SessionWindow.marketOrderAllowed]

theorem dailyReasons_eq_nil :
    dailyReasons settings db ctx now = [] ↔
      dailyOrderCount db ctx.fundId now < settings.maxDailyOrders := by
  by_cases left : (dailyOrderCount db ctx.fundId now : ℤ) < settings.maxDailyOrders
  · simp [dailyReasons, left]
  · simp [dailyReasons, not_lt.mp left]

theorem positionReasons_eq_nil :
    positionReasons db ctx = [] ↔
      (ctx.side = .sell → ctx.quantity ≤ positionQuantity db ctx.fundId ctx.ticker) := by
  by_cases sells : ctx.side = .sell
  · by_cases held : ctx.quantity ≤ positionQuantity db ctx.fundId ctx.ticker
    · simp [positionReasons, sells, held]
    · simp [positionReasons, sells, not_le.mp held]
  · simp [positionReasons, sells]

theorem balanceReasons_eq_nil :
    balanceReasons settings ctx broker = [] ↔ (ctx.side = .buy →
      ∃ snapshot, broker.getBalance = .ok snapshot ∧ ctx.notional ≤ snapshot.cashKrw ∧
        (0 < equity snapshot → positionWeight ctx snapshot ≤ settings.maxPositionWeight)) := by
  by_cases buys : ctx.side = .buy
  · cases read : broker.getBalance with
    | error exc => simp [balanceReasons, buys, read]
    | ok snapshot =>
        have cash : cashReasons ctx snapshot = [] ↔ ctx.notional ≤ snapshot.cashKrw := by
          by_cases covered : ctx.notional ≤ snapshot.cashKrw
          · simp [cashReasons, covered]
          · simp [cashReasons, not_le.mp covered]
        have weight : weightReasons settings ctx snapshot = [] ↔
            (0 < equity snapshot → positionWeight ctx snapshot ≤ settings.maxPositionWeight) := by
          by_cases positive : 0 < equity snapshot
          · by_cases light : positionWeight ctx snapshot ≤ settings.maxPositionWeight
            · simp [weightReasons, positive, light]
            · simp [weightReasons, positive, not_le.mp light]
          · simp [weightReasons, positive]
        simp [balanceReasons, buys, read, cash, weight]
  · simp [balanceReasons, buys]

theorem quantity_of_allowed (allowed : (checkOrder settings db ctx now broker).allowed = true) :
    0 < ctx.quantity := by
  have clear := (checkOrder_allowed_iff.mp allowed).1.2.1
  by_contra notPositive
  simp [quantityReasons, not_lt.mp notPositive] at clear

theorem daily_of_allowed (allowed : (checkOrder settings db ctx now broker).allowed = true) :
    dailyOrderCount db ctx.fundId now < settings.maxDailyOrders := by
  have clear := (checkOrder_allowed_iff.mp allowed).2.1.2
  by_contra reached
  simp [dailyReasons, not_lt.mp reached] at clear

/-- The sell rule compares with the local position. -/
theorem position_of_allowed (allowed : (checkOrder settings db ctx now broker).allowed = true)
    (sells : ctx.side = .sell) : ctx.quantity ≤ positionQuantity db ctx.fundId ctx.ticker := by
  have clear := (checkOrder_allowed_iff.mp allowed).2.2.1
  by_contra exceeds
  simp [positionReasons, sells, not_le.mp exceeds] at clear

/-- Every rule has passed when the verdict allows an order. -/
theorem checkOrder_allowed (sane : broker.Sane)
    (once : ctx.side = .buy → broker.ListsOnce ctx.ticker) (price : 0 < ctx.price)
    (allowed : (checkOrder settings db ctx now broker).allowed = true) :
    WithinLimits settings db ctx now broker := by
  have positive := quantity_of_allowed allowed
  obtain ⟨⟨killSwitch, _, amount⟩, ⟨session, _⟩, _, balance⟩ := checkOrder_allowed_iff.mp allowed
  refine ⟨?_, positive, ?_, ?_, daily_of_allowed allowed, position_of_allowed allowed,
    fun buys => balance_of_no_reasons sane (once buys) price positive buys balance⟩
  · by_contra on
    simp [killSwitchReasons, on] at killSwitch
  · by_contra tooLarge
    simp [amountReasons, not_le.mp tooLarge] at amount
  · intro enforced
    simp only [sessionReasons, enforced, if_true] at session
    split at session
    · cases session
    · rename_i isOpen
      refine ⟨by simpa using isOpen, fun isMarket => ?_⟩
      split at session
      · cases session
      · rename_i allowedHours
        simpa [isMarket, SessionWindow.marketOrderAllowed] using allowedHours

end Check

/-- Every decision is a limit order, and no limit price is negative. -/
def PricedDecisions (db : Db) : Prop :=
  ∀ decision ∈ db.decisions.contents,
    decision.orderType = .limit ∧ ∀ limitPrice ∈ decision.limitPrice, 0 ≤ limitPrice.val

theorem BuiltDecision.priced {db : Db} {marketId : ℕ} {market : Market} {broker : Broker}
    {decision : TradeDecision} (sane : broker.Sane)
    (built : BuiltDecision db marketId market broker decision) :
    decision.orderType = .limit ∧ ∀ limitPrice ∈ decision.limitPrice, 0 ≤ limitPrice.val := by
  refine ⟨built.limit, fun limitPrice listed => ?_⟩
  rcases built.status with pending | skipped
  · obtain ⟨_, _, _, quote, stored, quoted, storedOk, price⟩ := built.sized pending
    rw [price] at listed
    cases listed
    exact Decimal.Numeric.val_nonneg_of_ofDecimal (sane.quotes _ _ quoted).le
      (orRaise_eq_ok.mp storedOk)
  · rw [(built.skipped skipped).1] at listed
    cases listed

theorem DecisionsAfter.priced {env : Env} {db : Db} {request : Request}
    {decisions : Table TradeDecision} (sane : env.broker.Sane)
    (after : DecisionsAfter env db request decisions) (priced : PricedDecisions db) :
    ∀ decision ∈ decisions.contents,
      decision.orderType = .limit ∧ ∀ limitPrice ∈ decision.limitPrice, 0 ≤ limitPrice.val := by
  intro decision member
  cases after with
  | same => exact priced decision member
  | built _ _ _ built =>
      rw [Table.contents_insert, List.mem_append, List.mem_singleton] at member
      rcases member with member | rfl
      · exact priced decision member
      · exact built.priced sane
  | rejected | executed =>
      obtain ⟨old, oldMember, rfl | rfl⟩ := Table.mem_contents_update member
      · exact priced _ oldMember
      · exact priced old oldMember

/-- The approval of a pending BUY finds a balance that lists its ticker at most once. -/
def BalanceListsOnce (env : Env) (request : Request) (db : Db) : Prop :=
  match request with
  | .approveDecision decisionId _ =>
      ∀ decision ∈ db.decisions.get? decisionId, decision.status = .pendingApproval →
        decision.action = .buy → ∀ market ∈ db.markets.get? decision.marketId,
          env.broker.ListsOnce market.ticker
  | _ => True

instance (broker : Broker) (ticker : String) : Decidable (broker.ListsOnce ticker) :=
  inferInstanceAs (Decidable (∀ snapshot ∈ broker.getBalance.toOption,
    (snapshot.holdings.filter fun h => h.ticker = ticker).length ≤ 1))

instance (env : Env) (request : Request) (db : Db) : Decidable (BalanceListsOnce env request db) :=
  match request with
  | .approveDecision decisionId _ =>
      inferInstanceAs (Decidable (∀ decision ∈ db.decisions.get? decisionId,
        decision.status = .pendingApproval → decision.action = .buy →
          ∀ market ∈ db.markets.get? decision.marketId, env.broker.ListsOnce market.ticker))
  | .createMember _ | .createFund _ _ _ | .createMarket _ _ | .putAllocation _ _ _ _
  | .closeMarket _ | .createDecision _ | .rejectDecision _ _ _ | .resolveMarket _
  | .settleMarket _ | .cancelMarket _ _ | .syncFund _ => .isTrue trivial

theorem run_priced (events : List Event) (sane : ∀ event ∈ events, event.Trusts Broker.Sane) :
    PricedDecisions (stateAfter Db.empty events) := by
  refine requests_invariant (fun _ _ _ _ _ => trivial) ?_ ?_ events sane
    (fun s _ => s.meets_anything)
  · intro env request db writes next _ sound committed applied priced
    exact (committed.decisions applied).priced sound priced
  · simp [PricedDecisions, Db.empty]

/-- An order that was sent for an approved, pending decision, with the values that the
risk check examined and within all limits. -/
def Gated (step : Step) (sent : OrderRequest) : Prop :=
  ∃ env decisionId adminId decision ctx,
    step.event = .request env (.approveDecision decisionId adminId) ∧
      step.pre.decisions.get? decisionId = some decision ∧
      decision.status = .pendingApproval ∧
      sent = ⟨ctx.ticker, ctx.side, ctx.quantity, ctx.orderType, some ctx.price⟩ ∧
      (checkOrder env.settings step.pre ctx env.now env.broker).allowed = true ∧
      WithinLimits env.settings step.pre ctx env.now env.broker

/-- The price that is checked is positive. -/
theorem Prepares.price_pos {settings : Settings} {db : Db} {decisionId : ℕ}
    {decision : TradeDecision} {broker : Broker} {now : Time} {prepared : Prepared}
    (prepares : Prepares settings db decisionId decision broker now prepared)
    (sane : broker.Sane) (nonneg : ∀ limitPrice ∈ decision.limitPrice, 0 ≤ limitPrice.val) :
    0 < prepared.price := by
  have quoted : ∀ price, Quote.price <$> broker.getQuote prepared.market.ticker = .ok price →
      0 < price := by
    intro price asked
    obtain ⟨quote, answer, rfl⟩ := map_eq_ok.mp asked
    exact sane.quotes _ _ answer
  have priced := prepares.priced
  unfold orderPrice at priced
  split at priced
  · rename_i stored listed
    split at priced
    · exact quoted _ priced
    · rename_i nonzero
      rw [← Except.ok.inj priced]
      exact lt_of_le_of_ne (nonneg stored listed) (Ne.symm nonzero)
  · exact quoted _ priced

/-- The risk gate is the only way to the broker. -/
theorem orders_gated (events : List Event) (sane : ∀ event ∈ events, event.Trusts Broker.Sane)
    (once : ∀ s ∈ stepsFrom Db.empty events, s.Meets BalanceListsOnce) :
    ∀ s ∈ stepsFrom Db.empty events, ∀ sent ∈ s.sent, Gated s sent := by
  intro s member sent sentMember
  obtain ⟨env, decisionId, adminId, decision, prepared, event, sends⟩ :=
    Step.sent_approval sentMember
  have prepares := prepareOrder_eq_ok sends.prepared_eq
  have sound : env.broker.Sane := by
    have trusted := sane s.event (stepsFrom_event member)
    rwa [event] at trusted
  have listed : prepared.ctx.side = .buy → env.broker.ListsOnce prepared.ctx.ticker := by
    have condition := once s member
    rw [Step.Meets, event] at condition
    rw [prepares.ctx_eq]
    intro buys
    have action : decision.action = .buy := by
      by_contra other
      simp [orderSide, other] at buys
    exact condition decision sends.found prepares.pending action prepared.market prepares.found
  have priced : PricedDecisions s.pre := by
    obtain ⟨before, after, rfl, pre⟩ := stepsFrom_split member
    rw [pre]
    exact run_priced before fun event early => sane event (List.mem_append_left _ early)
  obtain ⟨limit, nonneg⟩ := priced decision (Table.get?_mem_contents sends.found)
  have positive : 0 < prepared.ctx.price := by
    rw [prepares.ctx_eq]
    exact prepares.price_pos sound nonneg
  have allowed : (checkOrder env.settings s.pre prepared.ctx env.now env.broker).allowed = true :=
    prepares.verdict_eq ▸ sends.allowed
  refine ⟨env, decisionId, adminId, decision, prepared.ctx, event, sends.found, prepares.pending,
    ?_, allowed, checkOrder_allowed sound listed positive allowed⟩
  rw [sends.sent_eq, prepares.ctx_eq, orderRequest, limit]
  rfl

theorem Broker.steady_sane {price cash : ℚ} {holdings : List HoldingItem} (positive : 0 < price)
    (nonneg : ∀ h ∈ holdings, 0 ≤ h.quantity ∧ 0 ≤ h.avgPrice ∧ ∀ price ∈ h.currentPrice,
      0 ≤ price) : (Broker.steady price cash holdings).Sane := by
  refine ⟨?_, ?_⟩
  · intro ticker quote quoted
    cases quoted
    exact positive
  · intro snapshot read
    cases read
    exact nonneg

theorem pendingDecision_sane : ∀ event ∈ pendingDecision, event.Trusts Broker.Sane :=
  pendingDecision_trusts (Broker.steady_sane (by norm_num) (by simp))

theorem orders_gated_approval :
    Gated ⟨.request desk (.approveDecision 1 1), stateAfter Db.empty pendingDecision⟩
      ⟨"005930", .buy, 2, .limit, some 50000⟩ :=
  orders_gated (pendingDecision ++ [.request desk (.approveDecision 1 1)])
    (by
      intro event member
      rcases List.mem_append.mp member with early | last
      · exact pendingDecision_sane event early
      · rw [List.mem_singleton.mp last]
        exact Broker.steady_sane (by norm_num) (by simp))
    (by decide +kernel) _ (stepsFrom_last Db.empty pendingDecision _) _ (by decide +kernel)

/-- The account holds the ticker in two rows, of which only the first is small. -/
def crowdedDesk : Env :=
  { desk with
    broker := .steady 50000 5000000
      [⟨"005930", none, 1, 50000, none⟩, ⟨"005930", none, 60, 50000, none⟩] }

/-- A BUY goes out although the ticker then makes up more than 30 % of the equity. -/
theorem orders_not_gated_crowded :
    (∀ event ∈ pendingDecision ++ [.request crowdedDesk (.approveDecision 1 1)],
      event.Trusts Broker.Sane) ∧
    ¬ ∀ s ∈ stepsFrom Db.empty (pendingDecision ++ [.request crowdedDesk (.approveDecision 1 1)]),
      ∀ sent ∈ s.sent, Gated s sent := by
  refine ⟨?_, ?_⟩
  · intro event member
    rcases List.mem_append.mp member with early | last
    · exact pendingDecision_sane event early
    · rw [List.mem_singleton.mp last]
      exact Broker.steady_sane (by norm_num) (by simp)
  · intro gated
    have sent : (⟨.request crowdedDesk (.approveDecision 1 1), stateAfter Db.empty
        pendingDecision⟩ : Step).sent = [⟨"005930", .buy, 2, .limit, some 50000⟩] := by
      decide +kernel
    obtain ⟨env, decisionId, adminId, decision, ctx, event, _, _, same, _, limits⟩ :=
      gated _ (stepsFrom_last Db.empty pendingDecision _) _
        (by rw [sent]; exact List.mem_singleton_self _)
    cases event
    obtain ⟨fundId, ticker, side, quantity, price, orderType⟩ := ctx
    cases same
    obtain ⟨snapshot, read, _, _, weight⟩ := limits.balance rfl
    cases read
    have tooHeavy : ¬ Decimal.div (Decimal.add (tickerValue ⟨5000000,
        [⟨"005930", none, 1, 50000, none⟩, ⟨"005930", none, 60, 50000, none⟩]⟩ "005930")
        (Decimal.mul 50000 2)) (equity ⟨5000000,
          [⟨"005930", none, 1, 50000, none⟩, ⟨"005930", none, 60, 50000, none⟩]⟩) ≤ 30 / 100 := by
      decide +kernel
    exact tooHeavy weight

end FundPolymarket
