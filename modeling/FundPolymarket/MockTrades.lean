import FundPolymarket.Holdings

set_option autoImplicit false

/- A purchase on the account of the mock broker, at average prices in exact arithmetic:
what the check before the order promises of the account after it. -/
namespace FundPolymarket

open Decimal (unitRoundoff)
open RelativeError (Near growth)

/-- A holding at its average price. -/
def HoldingItem.cost (h : HoldingItem) : ℚ := h.avgPrice * h.quantity

def worth (items : List HoldingItem) : ℚ := (items.map HoldingItem.cost).sum

/-- The limit order that a context stands for. -/
def RiskContext.limitOrder (ctx : RiskContext) : OrderRequest :=
  { ticker := ctx.ticker
    side := ctx.side
    quantity := ctx.quantity
    orderType := .limit
    price := some ctx.price }

namespace MockBroker

def rowsOf (mock : MockBroker) (ticker : String) : List HoldingItem :=
  mock.holdings.filter fun h => h.ticker = ticker

def otherRows (mock : MockBroker) (ticker : String) : List HoldingItem :=
  mock.holdings.filter fun h => h.ticker ≠ ticker

def exactEquity (mock : MockBroker) : ℚ := mock.cash + worth mock.holdings

def exactWeight (mock : MockBroker) (ticker : String) : ℚ :=
  worth (mock.rowsOf ticker) / mock.exactEquity

/-- The dict of holdings: one row a ticker, and no row has a current price. -/
structure Keyed (mock : MockBroker) : Prop where
  tickers : (mock.holdings.map HoldingItem.ticker).Nodup
  unpriced : ∀ h ∈ mock.holdings, h.currentPrice = none

/-- An account without debt, whose holdings are some shares each. -/
structure Sound (mock : MockBroker) : Prop extends Keyed mock where
  cash : 0 ≤ mock.cash
  quantity : ∀ h ∈ mock.holdings, 0 < h.quantity
  avgPrice : ∀ h ∈ mock.holdings, 0 ≤ h.avgPrice

section Dict

variable {mock after : MockBroker} {holdings : List HoldingItem} {item : HoldingItem}
  {request : OrderRequest} {result : OrderResult}

theorem tickers_setHolding (holdings : List HoldingItem) (item : HoldingItem) :
    (setHolding holdings item).map HoldingItem.ticker =
      if item.ticker ∈ holdings.map HoldingItem.ticker then holdings.map HoldingItem.ticker
      else holdings.map HoldingItem.ticker ++ [item.ticker] := by
  induction holdings with
  | nil => simp [setHolding]
  | cons h holdings ih =>
      by_cases here : h.ticker = item.ticker
      · simp [setHolding, here]
      · simp only [setHolding, here, ↓reduceIte, List.map_cons, ih, List.mem_cons,
          Ne.symm here, false_or]
        split <;> rfl

theorem mem_setHolding {h : HoldingItem} (member : h ∈ setHolding holdings item) :
    h = item ∨ h ∈ holdings := by
  induction holdings with
  | nil => exact .inl (List.mem_singleton.mp member)
  | cons first holdings ih =>
      unfold setHolding at member
      split at member
      · exact (List.mem_cons.mp member).imp id (List.mem_cons_of_mem _)
      · rcases List.mem_cons.mp member with rfl | inTail
        · exact .inr List.mem_cons_self
        · exact (ih inTail).imp id (List.mem_cons_of_mem _)

/-- The rows of other tickers stay, in their order. -/
theorem others_setHolding (holdings : List HoldingItem) (item : HoldingItem) :
    (setHolding holdings item).filter (fun h => h.ticker ≠ item.ticker) =
      holdings.filter fun h => h.ticker ≠ item.ticker := by
  induction holdings with
  | nil => simp [setHolding]
  | cons h holdings ih =>
      by_cases here : h.ticker = item.ticker
      · simp [setHolding, here]
      · simpa [setHolding, here] using ih

theorem Keyed.setHolding (keyed : mock.Keyed)
    (set : after.holdings = MockBroker.setHolding mock.holdings item)
    (unpriced : item.currentPrice = none) : after.Keyed := by
  refine ⟨?_, fun h member => ?_⟩
  · rw [set, tickers_setHolding]
    split
    · exact keyed.tickers
    · rename_i absent
      exact keyed.tickers.append (List.nodup_singleton _)
        (List.disjoint_singleton.mpr absent)
  · rw [set] at member
    rcases mem_setHolding member with rfl | old
    · exact unpriced
    · exact keyed.unpriced h old

/-- Every order keeps the rows keyed. -/
theorem Keyed.placeOrder (keyed : mock.Keyed)
    (filled : mock.placeOrder request = .ok (result, after)) : after.Keyed := by
  unfold MockBroker.placeOrder at filled
  dsimp only at filled
  split at filled
  · obtain ⟨_, same⟩ := raiseIf_bind_eq_ok.mp filled
    cases same
    exact keyed.setHolding rfl rfl
  · cases filled
    by_cases empty : max 0 (mock.heldQuantity request.ticker - request.quantity) = 0
    · refine ⟨?_, fun h member => ?_⟩
      · simp only [empty, ↓reduceIte]
        exact keyed.tickers.sublist (List.filter_sublist.map _)
      · simp only [empty, ↓reduceIte] at member
        exact keyed.unpriced h (List.mem_filter.mp member).1
    · exact keyed.setHolding (if_neg empty) rfl

/-- So does every run of orders; an account that begins without holdings is keyed. -/
theorem Keyed.fill (keyed : mock.Keyed) (sent : List OrderRequest) : (mock.fill sent).Keyed := by
  induction sent generalizing mock with
  | nil => exact keyed
  | cons request sent ih =>
      rw [MockBroker.fill, List.foldl_cons]
      split
      · exact ih (keyed.placeOrder ‹_›)
      · exact ih keyed

end Dict

section Purchase

variable {mock after : MockBroker} {settings : Settings} {db : Db} {ctx : RiskContext} {now : Time}
  {ticker : String}

/-- The cost of what is held before a purchase. -/
def prevCost (mock : MockBroker) (ticker : String) : ℚ :=
  match mock.holding ticker with
  | some h => Decimal.mul h.avgPrice (mock.heldQuantity ticker)
  | none => 0

/-- The row that a purchase leaves. -/
def boughtRow (mock : MockBroker) (ctx : RiskContext) : HoldingItem :=
  { ticker := ctx.ticker
    name := none
    quantity := mock.heldQuantity ctx.ticker + ctx.quantity
    avgPrice := Decimal.div (Decimal.add (mock.prevCost ctx.ticker) ctx.notional)
      (mock.heldQuantity ctx.ticker + ctx.quantity : ℤ) }

/-- What a purchase does to the account. -/
structure Buys (mock after : MockBroker) (ctx : RiskContext) : Prop where
  cash : after.cash = Decimal.sub mock.cash ctx.notional
  holdings : after.holdings = setHolding mock.holdings (mock.boughtRow ctx)

theorem placeOrder_buys (price : 0 < ctx.price) (buys : ctx.side = .buy)
    (quantity : mock.heldQuantity ctx.ticker + ctx.quantity ≠ 0) :
    ∃ result after, mock.placeOrder ctx.limitOrder = .ok (result, after) ∧
      mock.Buys after ctx := by
  have filledAt : orDecimal (some ctx.price) (mock.price ctx.ticker) = ctx.price :=
    if_neg price.ne'
  unfold MockBroker.placeOrder RiskContext.limitOrder
  dsimp only
  rw [buys, filledAt]
  exact ⟨_, _, raiseIf_bind_eq_ok.mpr ⟨quantity, rfl⟩, rfl, rfl⟩

/-- The rows of a ticker are the one row that is found. -/
theorem Keyed.rowsOf (keyed : mock.Keyed) (ticker : String) :
    mock.rowsOf ticker = (mock.holding ticker).toList := by
  have single : (mock.rowsOf ticker).length ≤ 1 := by
    have once := List.nodup_iff_count_le_one.mp keyed.tickers ticker
    rw [List.count, List.countP_map, List.countP_eq_length_filter] at once
    exact once
  exact filter_eq_find? single

theorem worth_rows (mock : MockBroker) (ticker : String) :
    worth (mock.rowsOf ticker) + worth (mock.otherRows ticker) = worth mock.holdings :=
  List.sum_map_filter_add_sum_map_filter_not (fun h : HoldingItem => h.ticker = ticker)
    HoldingItem.cost mock.holdings

theorem worth_nonneg {items : List HoldingItem} (quantity : ∀ h ∈ items, 0 < h.quantity)
    (avgPrice : ∀ h ∈ items, 0 ≤ h.avgPrice) : 0 ≤ worth items := by
  apply List.sum_nonneg
  intro cost member
  obtain ⟨h, held, rfl⟩ := List.mem_map.mp member
  exact mul_nonneg (avgPrice h held) (by exact_mod_cast (quantity h held).le)

/-- A purchase replaces the row of its ticker and no other. -/
theorem Buys.rows (bought : mock.Buys after ctx) (keyed : mock.Keyed) :
    after.rowsOf ctx.ticker = [mock.boughtRow ctx] ∧
      after.otherRows ctx.ticker = mock.otherRows ctx.ticker := by
  have afterKeyed : after.Keyed := keyed.setHolding bought.holdings rfl
  constructor
  · rw [afterKeyed.rowsOf, holding, bought.holdings, find?_setHolding,
      if_pos (show ctx.ticker = (mock.boughtRow ctx).ticker from rfl)]
    rfl
  · rw [otherRows, bought.holdings]
    exact others_setHolding mock.holdings (mock.boughtRow ctx)

/-- The cost before the purchase is rounded once. -/
theorem near_prevCost (keyed : mock.Keyed) (ticker : String) :
    Near unitRoundoff 1 (worth (mock.rowsOf ticker)) (mock.prevCost ticker) := by
  rw [keyed.rowsOf, prevCost, heldQuantity]
  cases mock.holding ticker with
  | none => exact (Near.refl 0).mono Decimal.roundoff (by omega)
  | some h =>
      have cost : worth [h] = h.avgPrice * h.quantity := by simp [worth, HoldingItem.cost]
      rw [Option.toList_some, cost]
      exact Decimal.near_fix _

theorem near_existingValue (keyed : mock.Keyed) (ticker : String) :
    Near unitRoundoff 1 (worth (mock.rowsOf ticker)) (existingValue mock.getBalance ticker) := by
  rw [keyed.rowsOf, existingValue]
  have same : mock.getBalance.holdings.find? (fun h => h.ticker = ticker) = mock.holding ticker :=
    rfl
  rw [same]
  cases search : mock.holding ticker with
  | none => exact (Near.refl 0).mono Decimal.roundoff (by omega)
  | some h =>
      have cost : worth [h] = h.price * h.quantity := by
        simp [worth, HoldingItem.cost, HoldingItem.price, orDecimal,
          keyed.unpriced h (List.mem_of_find?_eq_some search)]
      rw [Option.toList_some, cost]
      exact Decimal.near_fix _

/-- The equity of the check: every value is rounded, and so is every addition. -/
theorem near_equity (sound : mock.Sound) :
    Near unitRoundoff (mock.holdings.length + 2) mock.exactEquity (equity mock.getBalance) := by
  have each : ∀ h ∈ mock.holdings, Near unitRoundoff 1 h.cost h.value := by
    intro h held
    have price : h.price = h.avgPrice := by
      rw [HoldingItem.price, sound.unpriced h held, orDecimal]
    rw [HoldingItem.cost, HoldingItem.value, price]
    exact Decimal.near_fix _
  have nonneg : ∀ h ∈ mock.holdings, 0 ≤ h.cost := fun h held =>
    mul_nonneg (sound.avgPrice h held) (by exact_mod_cast (sound.quantity h held).le)
  have summed := RelativeError.near_foldl_add Decimal.roundoff Decimal.near_fix nonneg each le_rfl
    ((Near.refl 0).mono Decimal.roundoff (by omega))
  rw [zero_add] at summed
  have added := ((Near.refl mock.cash).mono Decimal.roundoff (Nat.zero_le _)).add sound.cash
    (worth_nonneg sound.quantity sound.avgPrice) summed
  exact (added.trans Decimal.roundoff (Decimal.near_fix _)).mono Decimal.roundoff (by omega)

theorem Sound.rows_nonneg (sound : mock.Sound) (ticker : String) :
    0 ≤ worth (mock.rowsOf ticker) ∧ 0 ≤ worth (mock.otherRows ticker) :=
  ⟨worth_nonneg (fun h held => sound.quantity h (List.mem_filter.mp held).1)
      fun h held => sound.avgPrice h (List.mem_filter.mp held).1,
    worth_nonneg (fun h held => sound.quantity h (List.mem_filter.mp held).1)
      fun h held => sound.avgPrice h (List.mem_filter.mp held).1⟩

/-- The new row costs what the old one did and what was paid; its average price is rounded
three times. -/
theorem near_boughtRow (sound : mock.Sound) (notional : 0 ≤ ctx.notional)
    (quantity : mock.heldQuantity ctx.ticker + ctx.quantity ≠ 0) :
    Near unitRoundoff 3 (worth (mock.rowsOf ctx.ticker) + ctx.notional)
      (mock.boughtRow ctx).cost := by
  have paid := (near_prevCost sound.toKeyed ctx.ticker).add
    (sound.rows_nonneg ctx.ticker).1 notional
    ((Near.refl ctx.notional).mono Decimal.roundoff (Nat.zero_le _))
  have summed := paid.trans Decimal.roundoff (Decimal.near_fix _)
  have averaged := (summed.div_right
    ((mock.heldQuantity ctx.ticker + ctx.quantity : ℤ) : ℚ)).trans Decimal.roundoff
      (Decimal.near_fix _)
  have total := averaged.mul_right ((mock.heldQuantity ctx.ticker + ctx.quantity : ℤ) : ℚ)
  rwa [div_mul_cancel₀ _ (by exact_mod_cast quantity)] at total

/-- What leaves the cash stays in the account, up to four roundings. -/
theorem near_equity_after (sound : mock.Sound) (bought : mock.Buys after ctx)
    (notional : 0 ≤ ctx.notional) (covered : ctx.notional ≤ mock.cash)
    (quantity : mock.heldQuantity ctx.ticker + ctx.quantity ≠ 0) :
    Near unitRoundoff 3 mock.exactEquity after.exactEquity := by
  obtain ⟨row, others⟩ := bought.rows sound.toKeyed
  obtain ⟨rowNonneg, othersNonneg⟩ := sound.rows_nonneg ctx.ticker
  have cash : Near unitRoundoff 3 (mock.cash - ctx.notional) after.cash := by
    rw [bought.cash]
    exact (Decimal.near_fix _).mono Decimal.roundoff (by omega)
  have held := (near_boughtRow sound notional quantity).add (add_nonneg rowNonneg notional)
    othersNonneg ((Near.refl _).mono Decimal.roundoff (Nat.zero_le 3))
  have whole := cash.add (sub_nonneg.mpr covered)
    (add_nonneg (add_nonneg rowNonneg notional) othersNonneg) held
  have before : mock.cash - ctx.notional +
      (worth (mock.rowsOf ctx.ticker) + ctx.notional + worth (mock.otherRows ctx.ticker)) =
        mock.exactEquity := by
    rw [exactEquity, ← worth_rows mock ctx.ticker]
    ring
  have afterwards : after.cash + ((mock.boughtRow ctx).cost + worth (mock.otherRows ctx.ticker)) =
      after.exactEquity := by
    rw [exactEquity, ← worth_rows after ctx.ticker, row, others]
    simp [worth]
  rwa [before, afterwards] at whole

/-- What the roundings of the check and of the purchase can add to a weight. -/
def weightSlack (holdings : ℕ) : ℚ :=
  (1 + unitRoundoff) ^ (holdings + 5) / (1 - unitRoundoff) ^ 6

/-- The weight after the purchase, against the weight that the check has computed. -/
theorem exactWeight_le (sound : mock.Sound) (bought : mock.Buys after ctx)
    (notional : 0 < ctx.notional) (covered : ctx.notional ≤ mock.cash)
    (quantity : mock.heldQuantity ctx.ticker + ctx.quantity ≠ 0) {limit : ℚ}
    (checked : positionWeight ctx mock.getBalance ≤ limit) :
    after.exactWeight ctx.ticker ≤ limit * weightSlack mock.holdings.length := by
  obtain ⟨row, _⟩ := bought.rows sound.toKeyed
  have rowNonneg := (sound.rows_nonneg ctx.ticker).1
  have equityPos : 0 < mock.exactEquity := by
    have rest := worth_nonneg sound.quantity sound.avgPrice
    rw [exactEquity]
    linarith
  have total := add_nonneg rowNonneg notional.le
  have summed := ((near_existingValue sound.toKeyed ctx.ticker).add rowNonneg notional.le
    ((Near.refl ctx.notional).mono Decimal.roundoff (Nat.zero_le _))).trans Decimal.roundoff
      (Decimal.near_fix _)
  have estimated := summed.div_le_of_le Decimal.roundoff total equityPos (near_equity sound)
    (Decimal.near_fix _) checked
  obtain ⟨_, weighed⟩ := (near_boughtRow sound notional.le quantity).div_bounds Decimal.roundoff
    total equityPos (near_equity_after sound bought notional.le covered quantity)
  have cost : worth (after.rowsOf ctx.ticker) = (mock.boughtRow ctx).cost := by
    rw [row]
    simp [worth]
  rw [exactWeight, cost]
  calc
    (mock.boughtRow ctx).cost / after.exactEquity
      ≤ (worth (mock.rowsOf ctx.ticker) + ctx.notional) / mock.exactEquity *
          ((1 + unitRoundoff) ^ 3 / (1 - unitRoundoff) ^ 3) := weighed
    _ ≤ limit * ((1 + unitRoundoff) ^ (mock.holdings.length + 2) / (1 - unitRoundoff) ^ 3) *
          ((1 + unitRoundoff) ^ 3 / (1 - unitRoundoff) ^ 3) := by
        refine mul_le_mul_of_nonneg_right estimated ?_
        norm_num [unitRoundoff]
    _ = limit * weightSlack mock.holdings.length := by
        rw [weightSlack, mul_assoc, div_mul_div_comm, ← pow_add, ← pow_add]

theorem Sound.held_nonneg (sound : mock.Sound) (ticker : String) :
    0 ≤ mock.heldQuantity ticker := by
  rw [heldQuantity]
  cases search : mock.holding ticker with
  | none => exact le_rfl
  | some h => exact (sound.quantity h (List.mem_of_find?_eq_some search)).le

theorem Sound.buys (sound : mock.Sound) (bought : mock.Buys after ctx)
    (notional : 0 ≤ ctx.notional) (covered : ctx.notional ≤ mock.cash)
    (quantity : 0 < ctx.quantity) : after.Sound := by
  have held := sound.held_nonneg ctx.ticker
  have paid := (near_prevCost sound.toKeyed ctx.ticker).nonneg Decimal.roundoff
    (sound.rows_nonneg ctx.ticker).1
  have shares : (0 : ℚ) ≤ (mock.heldQuantity ctx.ticker + ctx.quantity : ℤ) := by
    exact_mod_cast (by omega : 0 ≤ mock.heldQuantity ctx.ticker + ctx.quantity)
  refine ⟨sound.toKeyed.setHolding bought.holdings rfl, ?_, fun h member => ?_, fun h member => ?_⟩
  · rw [bought.cash]
    exact Decimal.fix_nonneg (sub_nonneg.mpr covered)
  · rw [bought.holdings] at member
    rcases mem_setHolding member with rfl | old
    · exact add_pos_of_nonneg_of_pos held quantity
    · exact sound.quantity h old
  · rw [bought.holdings] at member
    rcases mem_setHolding member with rfl | old
    · exact Decimal.fix_nonneg (div_nonneg (Decimal.fix_nonneg (add_nonneg paid notional)) shares)
    · exact sound.avgPrice h old

end Purchase

section Limits

variable {mock : MockBroker} {settings : Settings} {db : Db} {ctx : RiskContext} {now : Time}

/-- The limits after a purchase as they would be without roundings: equity is what it was,
and the ticker within its weight. -/
structure KeepsLimits (settings : Settings) (mock after : MockBroker) (ticker : String) :
    Prop where
  cash : 0 ≤ after.cash
  others : after.otherRows ticker = mock.otherRows ticker
  equity : after.exactEquity = mock.exactEquity
  weight : after.exactWeight ticker ≤ settings.maxPositionWeight

/-- The limits after a purchase: equity and weight hold up to the digits of the context,
and what is not rounded holds exactly. -/
structure KeepsRoundedLimits (settings : Settings) (mock after : MockBroker) (ticker : String) :
    Prop where
  cash : 0 ≤ after.cash
  others : after.otherRows ticker = mock.otherRows ticker
  equity : |after.exactEquity - mock.exactEquity| ≤ mock.exactEquity * growth unitRoundoff 3
  weight : after.exactWeight ticker ≤
    settings.maxPositionWeight * weightSlack mock.holdings.length

/-- A purchase that the check allows is filled, and leaves a sound account within the limits. -/
theorem allowed_buy_keeps_limits (sound : mock.Sound) (price : 0 < ctx.price)
    (buys : ctx.side = .buy)
    (allowed : (checkOrder settings db ctx now mock.toBroker).allowed = true) :
    ∃ result after, mock.placeOrder ctx.limitOrder = .ok (result, after) ∧ after.Sound ∧
      KeepsRoundedLimits settings mock after ctx.ticker := by
  have quantity := quantity_of_allowed allowed
  have notional := notional_pos price quantity
  obtain ⟨covered, _, checked⟩ := @weight_of_no_reasons _ _ mock.toBroker mock.getBalance rfl
    (fun h held => ⟨(sound.quantity h held).le, sound.avgPrice h held,
      by simp [sound.unpriced h held]⟩)
    price quantity buys (checkOrder_allowed_iff.mp allowed).2.2.2
  have shares : mock.heldQuantity ctx.ticker + ctx.quantity ≠ 0 :=
    (add_pos_of_nonneg_of_pos (sound.held_nonneg ctx.ticker) quantity).ne'
  obtain ⟨result, after, filled, bought⟩ := placeOrder_buys price buys shares
  have afterSound := sound.buys bought notional.le covered quantity
  refine ⟨result, after, filled, afterSound, afterSound.cash, (bought.rows sound.toKeyed).2, ?_,
    exactWeight_le sound bought notional covered shares checked⟩
  have equityNonneg : 0 ≤ mock.exactEquity :=
    add_nonneg sound.cash (worth_nonneg sound.quantity sound.avgPrice)
  have drift := (near_equity_after sound bought notional.le covered shares).abs_sub_le
    Decimal.roundoff
  rwa [abs_of_nonneg equityNonneg] at drift

theorem allowed_buy_keeps_limits_two_more : ∃ result after,
    tenShares.placeOrder (RiskContext.limitOrder ⟨1, "005930", .buy, 2, 50000, .limit⟩) =
        .ok (result, after) ∧ after.Sound ∧ KeepsRoundedLimits {} tenShares after "005930" := by
  have sound : tenShares.Sound :=
    ⟨⟨by decide +kernel, by decide +kernel⟩, by decide +kernel, by decide +kernel,
      by decide +kernel⟩
  exact @allowed_buy_keeps_limits tenShares {} Db.empty ⟨1, "005930", .buy, 2, 50000, .limit⟩
    desk.now sound (by norm_num) rfl (by decide +kernel)

/-- An account with one share at 100. -/
def oneShare : MockBroker := { cash := 1000, holdings := [⟨"005930", none, 1, 100, none⟩] }

/-- Two more shares at 101 make a weight of 302 in 1100, to 28 digits. -/
def weightTo28Digits : Settings :=
  { maxPositionWeight := 2745454545454545454545454545 / 10 ^ 28 }

/-- The average price of three shares for 302 has no end. It is rounded up, and with it
equity and the weight. -/
theorem allowed_buy_not_exact :
    oneShare.Sound ∧
      (checkOrder weightTo28Digits Db.empty ⟨1, "005930", .buy, 2, 101, .limit⟩ desk.now
        oneShare.toBroker).allowed = true ∧
      ∃ filled ∈ (oneShare.placeOrder
          (RiskContext.limitOrder ⟨1, "005930", .buy, 2, 101, .limit⟩)).toOption,
        ¬ KeepsLimits weightTo28Digits oneShare filled.2 "005930" ∧
          oneShare.exactEquity < filled.2.exactEquity ∧
          weightTo28Digits.maxPositionWeight < filled.2.exactWeight "005930" := by
  have drifts : ∃ filled ∈ (oneShare.placeOrder
      (RiskContext.limitOrder ⟨1, "005930", .buy, 2, 101, .limit⟩)).toOption,
        oneShare.exactEquity < filled.2.exactEquity ∧
          weightTo28Digits.maxPositionWeight < filled.2.exactWeight "005930" := by
    decide +kernel
  refine ⟨⟨⟨by decide +kernel, by decide +kernel⟩, by decide +kernel, by decide +kernel,
    by decide +kernel⟩, by decide +kernel, ?_⟩
  obtain ⟨filled, member, equity, weight⟩ := drifts
  exact ⟨filled, member, fun kept => equity.ne' kept.equity, equity, weight⟩

end Limits

end MockBroker

end FundPolymarket
