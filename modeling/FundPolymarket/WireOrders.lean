import FundPolymarket.ByHand
import FundPolymarket.LiveLock
import FundPolymarket.RiskGate

set_option autoImplicit false

/- From the approval of a decision to the wire: what KIS receives is what the risk check has let
through. -/
namespace FundPolymarket

section Sublists

variable {α β γ : Type}

/-- The elements of a list that the elements of a filtered sublist come from. -/
theorem exists_sources {f : α → Option β} {xs : List α} {ys : List β}
    (sublist : ys.Sublist (xs.filterMap f)) :
    ∃ sources, sources.Sublist xs ∧ List.Forall₂ (fun x y => f x = some y) sources ys := by
  induction xs generalizing ys with
  | nil =>
      cases List.sublist_nil.mp sublist
      exact ⟨[], .slnil, .nil⟩
  | cons x xs ih =>
      cases found : f x with
      | none =>
          rw [List.filterMap_cons_none found] at sublist
          obtain ⟨sources, early, from_⟩ := ih sublist
          exact ⟨sources, early.cons x, from_⟩
      | some y =>
          rw [List.filterMap_cons_some found] at sublist
          cases sublist with
          | cons _ rest =>
              obtain ⟨sources, early, from_⟩ := ih rest
              exact ⟨sources, early.cons x, from_⟩
          | cons_cons _ rest =>
              obtain ⟨sources, early, from_⟩ := ih rest
              exact ⟨x :: sources, early.cons_cons x, .cons found from_⟩

theorem filterMap_of_forall₂ {f : α → Option β} {xs : List α} {ys : List β}
    (each : List.Forall₂ (fun x y => f x = some y) xs ys) : xs.filterMap f = ys := by
  induction each with
  | nil => rfl
  | cons found _ ih => rw [List.filterMap_cons_some found, ih]

theorem forall₂_trans {R : α → β → Prop} {S : β → γ → Prop} {T : α → γ → Prop} {xs : List α}
    {ys : List β} {zs : List γ} (first : List.Forall₂ R xs ys) (second : List.Forall₂ S ys zs)
    (joins : ∀ x y z, R x y → S y z → T x z) : List.Forall₂ T xs zs := by
  induction first generalizing zs with
  | nil =>
      cases second
      exact .nil
  | cons head _ ih =>
      cases second with
      | cons next rest => exact .cons (joins _ _ _ head next) (ih rest)

theorem exists_between {R : α → γ → Prop} {S : α → β → Prop} {T : β → γ → Prop} {xs : List α}
    {zs : List γ} (each : List.Forall₂ R xs zs) (splits : ∀ x z, R x z → ∃ y, S x y ∧ T y z) :
    ∃ ys, List.Forall₂ S xs ys ∧ List.Forall₂ T ys zs := by
  induction each with
  | nil => exact ⟨[], .nil, .nil⟩
  | cons head _ ih =>
      obtain ⟨y, first, second⟩ := splits _ _ head
      obtain ⟨ys, before, after⟩ := ih
      exact ⟨y :: ys, .cons first before, .cons second after⟩

end Sublists

/-- A step sends one order at most. -/
theorem Step.sent_eq_head? (s : Step) : s.sent = s.sent.head?.toList := by
  obtain ⟨event, pre⟩ := s
  cases event with
  | tick => rfl
  | request env asked =>
      have sent : (Step.sent ⟨.request env asked, pre⟩) = (handle env pre asked).sent :=
        serve_sent env asked pre
      rw [sent]
      cases asked with
      | approveDecision decisionId adminId =>
          rw [handle]
          rcases @approveDecision_sends env pre decisionId adminId with
            nothing | ⟨decision, prepared, _, once⟩
          · rw [nothing]
            rfl
          · rw [once]
            rfl
      | _ =>
          rw [handle, Handled.ofService_sent]
          rfl

/-- The order of a step. -/
def Step.order? (s : Step) : Option OrderRequest := s.sent.head?

theorem sentOrders_eq_filterMap (steps : List Step) :
    sentOrders steps = steps.filterMap Step.order? := by
  induction steps with
  | nil => rfl
  | cons s steps ih =>
      rw [sentOrders, List.flatMap_cons, ← sentOrders, ih, Step.sent_eq_head?, ← Step.order?]
      cases order : s.order? with
      | none => exact (List.filterMap_cons_none order).symm
      | some sent => exact (List.filterMap_cons_some order).symm

namespace Kis

open Python (Json Unicode)

def Operation.order? : Operation → Option OrderRequest
  | .placeOrder request => some request
  | .getQuote _ | .getBalance => none

def ProgramEvent.order? : ProgramEvent → Option OrderRequest
  | .operate _ operation => operation.order?
  | .configure _ | .reset | .otherProgram _ => none

/-- The calls of `place_order`. -/
def placedOrders (events : List ProgramEvent) : List OrderRequest :=
  events.filterMap ProgramEvent.order?

section Amounts

theorem wholeWon_floor {price : ℚ} (nonneg : 0 ≤ price) :
    (KisBroker.wholeWon price : ℚ) ≤ price ∧ price < KisBroker.wholeWon price + 1 := by
  have same : KisBroker.wholeWon price = ⌊price⌋ := by
    rw [KisBroker.wholeWon, Rat.floor_def', Int.tdiv_eq_ediv_of_nonneg (Rat.num_nonneg.mpr nonneg)]
  rw [same]
  exact ⟨Int.floor_le price, Int.lt_floor_add_one price⟩

theorem fix_tenPow : Decimal.fix (10 ^ 28) = 10 ^ 28 := by decide +kernel

/-- In whole won the amount is within the limit, whatever the context has rounded. -/
theorem amount_le {price limit : ℚ} {quantity : ℤ} (priceNonneg : 0 ≤ price)
    (quantityNonneg : 0 ≤ quantity) (within : Decimal.mul price quantity ≤ limit)
    (fits : limit < 10 ^ 28) : ((KisBroker.wholeWon price * quantity : ℤ) : ℚ) ≤ limit := by
  have whole : 0 ≤ KisBroker.wholeWon price := Int.tdiv_nonneg (Rat.num_nonneg.mpr priceNonneg)
    (by exact_mod_cast price.den.zero_le)
  have quantityNonneg' : (0 : ℚ) ≤ quantity := by exact_mod_cast quantityNonneg
  have below : ((KisBroker.wholeWon price * quantity : ℤ) : ℚ) ≤ price * quantity := by
    push_cast
    exact mul_le_mul_of_nonneg_right (wholeWon_floor priceNonneg).1 quantityNonneg'
  have nonneg : (0 : ℚ) ≤ ((KisBroker.wholeWon price * quantity : ℤ) : ℚ) := by
    exact_mod_cast mul_nonneg whole quantityNonneg
  by_cases small : ((KisBroker.wholeWon price * quantity : ℤ) : ℚ) < 10 ^ 28
  · have exactly : Decimal.fix ((KisBroker.wholeWon price * quantity : ℤ) : ℚ) =
        ((KisBroker.wholeWon price * quantity : ℤ) : ℚ) := by
      refine @Decimal.fix_of_scaled 0 _ ⟨KisBroker.wholeWon price * quantity, by simp⟩ ?_
      rw [abs_of_nonneg nonneg]
      simpa [Decimal.prec] using small
    calc ((KisBroker.wholeWon price * quantity : ℤ) : ℚ)
        = Decimal.fix ((KisBroker.wholeWon price * quantity : ℤ) : ℚ) := exactly.symm
      _ ≤ Decimal.fix (price * quantity) := Decimal.fix_mono nonneg below
      _ ≤ limit := within
  · have large : (10 : ℚ) ^ 28 ≤ price * quantity := le_trans (not_lt.mp small) below
    have reached := Decimal.fix_mono (by norm_num) large
    rw [fix_tenPow] at reached
    exact absurd (lt_of_le_of_lt (le_trans reached within) fits) (lt_irrefl _)

end Amounts

/-- The transaction id of a live order. -/
def TrIds.ofSide (trIds : TrIds) : OrderSide → String
  | .buy => trIds.orderBuy
  | .sell => trIds.orderSell

/-- The fields of an order on the wire say what the risk check has seen; a limit price goes out
in whole won. -/
structure Posted.Carries (posted : Posted) (trIds : TrIds) (ctx : RiskContext) (limit : ℚ) :
    Prop where
  side : ∃ env, posted.trId = some (.str (resolveTrId (trIds.ofSide ctx.side) env))
  ticker : posted.fields.lookup "PDNO" = some ctx.ticker
  quantity : 0 < ctx.quantity ∧ posted.fields.lookup "ORD_QTY" = some (toString ctx.quantity)
  market : ctx.orderType = .market →
    posted.fields.lookup "ORD_DVSN" = some "01" ∧ posted.fields.lookup "ORD_UNPR" = some "0"
  limit : ctx.orderType = .limit → posted.fields.lookup "ORD_DVSN" = some "00" ∧
    ∃ unit : ℤ, posted.fields.lookup "ORD_UNPR" = some (toString unit) ∧
      ((unit : ℚ) ≤ ctx.price ∧ ctx.price < unit + 1) ∧
      (limit < 10 ^ 28 → ((unit * ctx.quantity : ℤ) : ℚ) ≤ limit)

/-- What the risk check is shown of a decision: the fund and the ticker of its market, its own
side, quantity and order type, and a price. -/
def checkedContext (decision : TradeDecision) (market : Market) (price : ℚ) : RiskContext :=
  { fundId := market.fundId
    ticker := market.ticker
    side := orderSide decision.action
    quantity := decision.targetQuantity
    price
    orderType := decision.orderType }

/-- An approval of a decision that waited for it, on its market, whose order the risk check has
allowed and which is the order of the step and the one on the wire. -/
structure Approves (trIds : TrIds) (s : Step) (posted : Posted) (env : Env)
    (decisionId adminId : ℕ) (decision : TradeDecision) (market : Market) (price : ℚ) : Prop where
  event_eq : s.event = .request env (.approveDecision decisionId adminId)
  found : s.pre.decisions.get? decisionId = some decision
  pending : decision.status = .pendingApproval
  marketFound : s.pre.markets.get? decision.marketId = some market
  priced : orderPrice decision.limitPrice market.ticker env.broker = .ok price
  allowed : (checkOrder env.settings s.pre (checkedContext decision market price) env.now
    env.broker).allowed = true
  sent : s.sent = [
    { ticker := market.ticker
      side := orderSide decision.action
      quantity := decision.targetQuantity
      orderType := decision.orderType
      price := if decision.orderType = .limit then some price else none }]
  carries : posted.Carries trIds (checkedContext decision market price)
    env.settings.maxOrderAmountKrw

/-- The order on the wire is that of an approval. -/
def Gates (trIds : TrIds) (s : Step) (posted : Posted) : Prop :=
  ∃ env decisionId adminId decision market price,
    Approves trIds s posted env decisionId adminId decision market price

section TrIds

variable {trIds : TrIds} {program : Program}

/-- A broker that the program keeps has the transaction ids of the program, which are read once. -/
def Program.KeepsIds (trIds : TrIds) (program : Program) : Prop :=
  ∀ broker, program.broker = some (.kis broker) → broker.trIds = trIds

theorem createBroker_trIds {settings : BrokerSettings} {broker : KisBroker}
    (made : createBroker trIds settings = .ok (.kis broker)) : broker.trIds = trIds := by
  unfold createBroker at made
  split at made
  · cases made
  · obtain ⟨client, _, rest⟩ := bind_eq_ok.mp made
    obtain ⟨adapter, adapted, same⟩ := bind_eq_ok.mp rest
    cases same
    obtain ⟨_, same⟩ := raiseIf_bind_eq_ok.mp adapted
    cases same
    rfl

theorem Program.KeepsIds.getBroker (kept : program.KeepsIds trIds) {broker : KisBroker}
    (got : program.getBroker trIds = .ok (.kis broker)) : broker.trIds = trIds := by
  unfold Program.getBroker at got
  split at got
  · rename_i own
    cases got
    exact kept broker own
  · exact createBroker_trIds got

variable [Unicode]

/-- A call changes the client of its broker, and a new broker is made with the same ids. -/
theorem Program.KeepsIds.step (kept : program.KeepsIds trIds) (event : ProgramEvent) :
    (program.step trIds event).program.KeepsIds trIds := by
  cases event with
  | configure | otherProgram => exact kept
  | reset => exact fun broker own => by cases own
  | operate s operation =>
      rw [Program.step]
      dsimp only
      split
      · exact kept
      · exact fun broker own => by cases own
      · rename_i broker current
        have ids := kept.getBroker current
        intro other own
        cases own
        exact ids

theorem Program.KeepsIds.moments (kept : program.KeepsIds trIds) {events : List ProgramEvent}
    {moment : Moment} (member : moment ∈ moments trIds program events) :
    moment.pre.KeepsIds trIds := by
  induction events generalizing program with
  | nil => cases member
  | cons event events ih =>
      rcases List.mem_cons.mp member with rfl | later
      · exact kept
      · exact ih (kept.step event) later

end TrIds

section Terms

variable {request : OrderRequest} {terms : String × String}

theorem orderTerms_eq_ok (accepted : KisBroker.orderTerms request = .ok terms) :
    0 < request.quantity ∧ (request.orderType = .market → terms = ("01", "0")) ∧
      (request.orderType = .limit → ∃ price, request.price = some price ∧ 0 < price ∧
        terms = ("00", toString (KisBroker.wholeWon price))) := by
  obtain ⟨positive, rest⟩ := raiseIf_bind_eq_ok.mp accepted
  refine ⟨not_le.mp positive, ?_, ?_⟩
  · intro isMarket
    rw [isMarket] at rest
    cases rest
    rfl
  · intro isLimit
    rw [isLimit] at rest
    cases given : request.price with
    | none =>
        rw [given] at rest
        cases rest
    | some price =>
        rw [given] at rest
        obtain ⟨pricePositive, same⟩ := raiseIf_bind_eq_ok.mp rest
        cases same
        exact ⟨price, rfl, not_le.mp pricePositive, rfl⟩

theorem asked_eq_some {trIds : TrIds} {moment : Moment} {posted : Posted}
    (kept : moment.pre.KeepsIds trIds) (asked : moment.asked trIds = some posted) :
    ∃ (broker : KisBroker) (request : OrderRequest) (terms : String × String),
      broker.trIds = trIds ∧ moment.event.order? = some request ∧
        KisBroker.orderTerms request = .ok terms ∧ posted = broker.posting request terms := by
  unfold Moment.asked at asked
  split at asked
  · rename_i s operation broker event current
    have ids := kept.getBroker current
    cases operation with
    | getQuote | getBalance => cases asked
    | placeOrder request =>
        rw [event]
        rw [KisBroker.asks] at asked
        cases accepted : KisBroker.orderTerms request with
        | error e =>
            rw [accepted] at asked
            cases asked
        | ok terms =>
            rw [accepted] at asked
            cases asked
            exact ⟨broker, request, terms, ids, rfl, accepted, rfl⟩
  · cases asked

end Terms

theorem orderTrId_eq (broker : KisBroker) (side : OrderSide) :
    broker.orderTrId side = resolveTrId (broker.trIds.ofSide side) broker.client.env := by
  cases side <;> rfl

/-- An approval whose order the adapter posts. -/
theorem gates_of_sent {trIds : TrIds} {s : Step} {request : OrderRequest}
    {terms : String × String} (sent : s.order? = some request)
    (accepted : KisBroker.orderTerms request = .ok terms) (broker : KisBroker)
    (ids : broker.trIds = trIds) : Gates trIds s (broker.posting request terms) := by
  have once : s.sent = [request] := by
    rw [Step.sent_eq_head?, show s.sent.head? = some request from sent]
    rfl
  have member : request ∈ s.sent := List.mem_of_mem_head? sent
  obtain ⟨env, decisionId, adminId, decision, prepared, event, sends⟩ := Step.sent_approval member
  have prepares := prepareOrder_eq_ok sends.prepared_eq
  have allowed : (checkOrder env.settings s.pre prepared.ctx env.now env.broker).allowed = true :=
    prepares.verdict_eq ▸ sends.allowed
  obtain ⟨positive, isMarket, isLimit⟩ := orderTerms_eq_ok accepted
  have same := sends.sent_eq
  have amount := amountReasons_eq_nil.mp (checkOrder_allowed_iff.mp allowed).1.2.2
  rw [prepares.ctx_eq] at amount allowed
  subst same
  refine ⟨env, decisionId, adminId, decision, prepared.market, prepared.price, event, sends.found,
    prepares.pending, prepares.found, prepares.priced, allowed, once, ⟨broker.client.env, ?_⟩, rfl,
    ⟨positive, rfl⟩, ?_, ?_⟩
  · rw [← ids]
    exact congrArg (fun trId => some (Json.str trId)) (orderTrId_eq broker _)
  · intro market
    rw [isMarket market]
    exact ⟨rfl, rfl⟩
  · intro limit
    obtain ⟨price, given, pricePositive, same⟩ := isLimit limit
    have priced : prepared.price = price := by
      have stored : (if decision.orderType = .limit then some prepared.price else none) =
          some price := given
      rw [if_pos (show decision.orderType = .limit from limit)] at stored
      exact Option.some.inj stored
    rw [same]
    refine ⟨rfl, KisBroker.wholeWon price, rfl, ?_, ?_⟩
    · rw [priced]
      exact wholeWon_floor pricePositive.le
    · intro fits
      rw [RiskContext.notional, priced] at amount
      exact amount_le pricePositive.le positive.le amount fits

section Run

variable {trIds : TrIds} [Unicode]

theorem moments_map_event (program : Program) (calls : List ProgramEvent) :
    (moments trIds program calls).map Moment.event = calls := by
  induction calls generalizing program with
  | nil => rfl
  | cons call calls ih => exact congrArg _ (ih _)

/-- Where the program calls `place_order` for the API alone, the orders on the wire are, one by
one and in their order, those of approvals that the risk check has let through: of the checked
ticker, side and quantity, at the checked price in whole won, within the limit for one order. -/
theorem wire_orders_gated {start : Db} {events : List Event} {program : Program}
    {calls : List ProgramEvent} (kept : program.KeepsIds trIds)
    (placed : placedOrders calls = sentOrders (stepsFrom start events)) :
    ∃ approvals, approvals.Sublist (stepsFrom start events) ∧
      List.Forall₂ (Gates trIds) approvals (wireOrders trIds (moments trIds program calls)) := by
  obtain ⟨sources, early, asks⟩ :=
    exists_sources (@sublist_of_posts _ trIds (moments trIds program calls)).1
  have keeping := (List.forall₂_and_left _ _).mpr
    ⟨fun moment (member : moment ∈ sources) => kept.moments (early.subset member), asks⟩
  obtain ⟨requests, made, posts⟩ := exists_between keeping
    (T := fun request posted => ∃ (broker : KisBroker) (terms : String × String),
      broker.trIds = trIds ∧ KisBroker.orderTerms request = .ok terms ∧
        posted = broker.posting request terms)
    fun moment posted asked => by
      obtain ⟨broker, request, terms, ids, order, accepted, same⟩ := asked_eq_some asked.1 asked.2
      exact ⟨request, order, broker, terms, ids, accepted, same⟩
  have calledFor : requests.Sublist ((stepsFrom start events).filterMap Step.order?) := by
    rw [← sentOrders_eq_filterMap, ← placed, placedOrders, ← @moments_map_event trIds _ program
      calls, List.filterMap_map, ← filterMap_of_forall₂ made]
    exact early.filterMap _
  obtain ⟨approvals, listed, sends⟩ := exists_sources calledFor
  refine ⟨approvals, listed, forall₂_trans sends posts ?_⟩
  rintro s request posted sent ⟨broker, terms, ids, accepted, rfl⟩
  exact gates_of_sent sent accepted broker ids

end Run

/-- The approval of a pending decision. -/
def approvedDay : List Event := pendingDecision ++ [.request desk (.approveDecision 1 1)]

def approvedCall : List ProgramEvent :=
  [.operate openDay (.placeOrder ⟨"005930", .buy, 2, .limit, some 50000⟩)]

theorem wire_orders_gated_approved :
    (@wireOrders {} .asciiOnly (@moments .asciiOnly {} ⟨lockedSettings, none, .missing⟩
        approvedCall)).length = 1 ∧
      ∃ approvals, approvals.Sublist (stepsFrom Db.empty approvedDay) ∧
        List.Forall₂ (Gates {}) approvals (@wireOrders {} .asciiOnly
          (@moments .asciiOnly {} ⟨lockedSettings, none, .missing⟩ approvedCall)) := by
  refine ⟨by decide +kernel, ?_⟩
  exact @wire_orders_gated {} .asciiOnly Db.empty approvedDay ⟨lockedSettings, none, .missing⟩
    approvedCall (fun _ kept => by cases kept) (by decide +kernel)

end Kis

end FundPolymarket
