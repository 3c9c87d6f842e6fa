import FundPolymarket.RiskGate

set_option autoImplicit false

/- The risk check is monotone: what it allows it also allows when less is asked for, or when the
limits are looser. -/
namespace FundPolymarket

namespace Decimal

/-- Rounding keeps the order, also of negative numbers. -/
theorem fix_le_fix {x y : ℚ} (le : x ≤ y) : fix x ≤ fix y := by
  rcases le_total 0 x with nonneg | negative
  · exact fix_mono nonneg le
  · rcases le_total 0 y with nonneg | below
    · have lower : fix x ≤ 0 := by
        have flipped := fix_nonneg (neg_nonneg.mpr negative)
        rw [fix_neg] at flipped
        exact neg_nonneg.mp flipped
      exact le_trans lower (fix_nonneg nonneg)
    · have flipped := fix_mono (neg_nonneg.mpr below) (neg_le_neg le)
      rw [fix_neg, fix_neg] at flipped
      exact neg_le_neg_iff.mp flipped

end Decimal

/-- No limit of the second settings is tighter. -/
structure Settings.Looser (settings looser : Settings) : Prop where
  killSwitch : looser.killSwitch = true → settings.killSwitch = true
  amount : settings.maxOrderAmountKrw ≤ looser.maxOrderAmountKrw
  session : looser.enforceMarketHours = true → settings.enforceMarketHours = true
  daily : settings.maxDailyOrders ≤ looser.maxDailyOrders
  weight : settings.maxPositionWeight ≤ looser.maxPositionWeight

/-- The second order asks for no more than the first, at no higher price. -/
structure RiskContext.Smaller (ctx smaller : RiskContext) : Prop where
  fundId : smaller.fundId = ctx.fundId
  ticker : smaller.ticker = ctx.ticker
  side : smaller.side = ctx.side
  quantity : 0 < smaller.quantity ∧ smaller.quantity ≤ ctx.quantity
  price : 0 ≤ smaller.price ∧ smaller.price ≤ ctx.price
  orderType : smaller.orderType = .market → ctx.orderType = .market

/-- In the second database the fund has no more recent orders, and holds no less. -/
structure NoWorse (ctx : RiskContext) (now : Time) (db later : Db) : Prop where
  daily : dailyOrderCount later ctx.fundId now ≤ dailyOrderCount db ctx.fundId now
  position : positionQuantity db ctx.fundId ctx.ticker ≤
    positionQuantity later ctx.fundId ctx.ticker

section Monotone

variable {settings looser : Settings} {db later : Db} {ctx smaller : RiskContext} {now : Time}
  {broker : Broker}

theorem RiskContext.Smaller.notional (less : ctx.Smaller smaller) :
    smaller.notional ≤ ctx.notional := by
  have quantity : (smaller.quantity : ℚ) ≤ ctx.quantity := by exact_mod_cast less.quantity.2
  have positive : (0 : ℚ) ≤ smaller.quantity := by exact_mod_cast less.quantity.1.le
  exact Decimal.fix_le_fix (mul_le_mul less.price.2 quantity positive
    (le_trans less.price.1 less.price.2))

theorem positionWeight_mono (less : ctx.Smaller smaller) {snapshot : BalanceSnapshot}
    (positive : 0 < equity snapshot) :
    positionWeight smaller snapshot ≤ positionWeight ctx snapshot := by
  have value : Decimal.add (existingValue snapshot smaller.ticker) smaller.notional ≤
      Decimal.add (existingValue snapshot ctx.ticker) ctx.notional := by
    rw [less.ticker]
    exact Decimal.fix_le_fix (add_le_add_right less.notional _)
  exact Decimal.fix_le_fix (div_le_div_of_nonneg_right value positive.le)

/-- What is allowed stays allowed for less, under looser limits, and in a state that is no worse. -/
theorem checkOrder_monotone (limits : settings.Looser looser) (less : ctx.Smaller smaller)
    (state : NoWorse ctx now db later)
    (allowed : (checkOrder settings db ctx now broker).allowed = true) :
    (checkOrder looser later smaller now broker).allowed = true := by
  simp only [checkOrder_allowed_iff, killSwitchReasons_eq_nil, quantityReasons_eq_nil,
    amountReasons_eq_nil, sessionReasons_eq_nil, dailyReasons_eq_nil, positionReasons_eq_nil,
    balanceReasons_eq_nil] at allowed ⊢
  obtain ⟨⟨killSwitch, _, amount⟩, ⟨session, daily⟩, position, balance⟩ := allowed
  refine ⟨⟨?_, less.quantity.1, ?_⟩, ⟨fun enforced => ?_, ?_⟩, fun sells => ?_, fun buys => ?_⟩
  · by_contra on
    have off := limits.killSwitch (Bool.eq_true_of_not_eq_false on)
    rw [killSwitch] at off
    cases off
  · exact le_trans less.notional (le_trans amount limits.amount)
  · obtain ⟨isOpen, regular⟩ := session (limits.session enforced)
    exact ⟨isOpen, fun isMarket => regular (less.orderType isMarket)⟩
  · have fewer := state.daily
    have more := limits.daily
    rw [less.fundId]
    omega
  · have held := position (less.side ▸ sells)
    rw [less.fundId, less.ticker]
    exact le_trans less.quantity.2 (le_trans held state.position)
  · obtain ⟨snapshot, read, cash, weight⟩ := balance (less.side ▸ buys)
    refine ⟨snapshot, read, le_trans less.notional cash, fun positive => ?_⟩
    exact le_trans (positionWeight_mono less positive) (le_trans (weight positive) limits.weight)

end Monotone

/-- One share instead of two, with twice as many orders a day. -/
theorem checkOrder_monotone_less :
    (checkOrder { maxDailyOrders := 20 } Db.empty ⟨1, "005930", .buy, 1, 50000, .limit⟩ desk.now
      desk.broker).allowed = true :=
  @checkOrder_monotone {} { maxDailyOrders := 20 } Db.empty Db.empty
    ⟨1, "005930", .buy, 2, 50000, .limit⟩ ⟨1, "005930", .buy, 1, 50000, .limit⟩ desk.now desk.broker
    ⟨id, le_refl _, id, by decide, le_refl _⟩
    ⟨rfl, rfl, rfl, by decide, by norm_num, id⟩ ⟨le_refl _, le_refl _⟩ (by decide +kernel)

end FundPolymarket
