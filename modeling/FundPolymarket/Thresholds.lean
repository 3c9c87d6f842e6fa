import FundPolymarket.Runs

set_option autoImplicit false

/- The thresholds of a new market. A request may leave either of them to the settings,
and the columns hold two places. -/
namespace FundPolymarket

open Decimal (Numeric)

/-- The thresholds of a payload, or those of the settings. -/
def MarketCreate.buyPct (settings : Settings) (payload : MarketCreate) : ℚ :=
  payload.buyThresholdPct.getD settings.defaultBuyThresholdPct

def MarketCreate.sellPct (settings : Settings) (payload : MarketCreate) : ℚ :=
  payload.sellThresholdPct.getD settings.defaultSellThresholdPct

/-- The two thresholds do not round to one hundredth, and one that is given alone is in
order with the default of the other. -/
structure ThresholdsApart (settings : Settings) (payload : MarketCreate) : Prop where
  hundredths : Decimal.halfUp (payload.sellPct settings * 10 ^ 2) ≠
    Decimal.halfUp (payload.buyPct settings * 10 ^ 2)
  buyAlone : payload.sellThresholdPct = none → ∀ buy ∈ payload.buyThresholdPct,
    settings.defaultSellThresholdPct < buy
  sellAlone : payload.buyThresholdPct = none → ∀ sell ∈ payload.sellThresholdPct,
    sell < settings.defaultBuyThresholdPct

/-- Exactly one of the three rules covers a return. -/
def JudgedOnce (buyThresholdPct sellThresholdPct returnPct : ℚ) : Prop :=
  buyThresholdPct ≤ returnPct ∧ ¬ returnPct ≤ sellThresholdPct ∧
      ¬ (sellThresholdPct < returnPct ∧ returnPct < buyThresholdPct) ∨
    ¬ buyThresholdPct ≤ returnPct ∧ returnPct ≤ sellThresholdPct ∧
      ¬ (sellThresholdPct < returnPct ∧ returnPct < buyThresholdPct) ∨
    ¬ buyThresholdPct ≤ returnPct ∧ ¬ returnPct ≤ sellThresholdPct ∧
      (sellThresholdPct < returnPct ∧ returnPct < buyThresholdPct)

theorem judgedOnce_iff (buyThresholdPct sellThresholdPct : ℚ) :
    (∀ returnPct, JudgedOnce buyThresholdPct sellThresholdPct returnPct) ↔
      sellThresholdPct < buyThresholdPct := by
  constructor
  · intro once
    by_contra overlap
    have between := once buyThresholdPct
    simp only [JudgedOnce, le_refl, not_true_eq_false, false_and, or_false, true_and] at between
    exact between.1 (not_lt.mp overlap)
  · intro ordered returnPct
    rw [JudgedOnce]
    by_cases buys : buyThresholdPct ≤ returnPct
    · have above : ¬ returnPct ≤ sellThresholdPct := not_le.mpr (ordered.trans_le buys)
      simp [buys, above, not_lt.mpr buys]
    · by_cases sells : returnPct ≤ sellThresholdPct
      · simp [buys, sells, not_lt.mpr sells]
      · simp [buys, sells, not_le.mp buys, not_le.mp sells]

section Created

variable {env : Env} {db : Db} {payload : MarketCreate} {adminId : ℕ} {market : Market}

/-- An accepted request adds one market. -/
theorem createMarket_served
    (created : (serve env (.createMarket payload adminId) db).result = .ok ()) :
    ∃ market, (serve env (.createMarket payload adminId) db).db.markets =
        db.markets.insert market ∧ CreatedMarket env db payload adminId market := by
  obtain ⟨ended, applied⟩ := serve_returned created
  obtain ⟨market, writes_eq, stored⟩ := createMarket_eq_ok (Handled.ofService_ok ended)
  have flushed : (handle env db (.createMarket payload adminId)).flushed =
      [.insertMarket market] := writes_eq
  rw [flushed] at applied
  have inserted : { db with markets := db.markets.insert market } =
      (serve env (.createMarket payload adminId) db).db := Except.ok.inj applied
  exact ⟨market, (congrArg Db.markets inserted).symm, stored⟩

theorem CreatedMarket.ordered_iff_hundredths
    (created : CreatedMarket env db payload adminId market) :
    market.sellThresholdPct.val < market.buyThresholdPct.val ↔
      Decimal.halfUp (payload.sellPct env.settings * 10 ^ 2) <
        Decimal.halfUp (payload.buyPct env.settings * 10 ^ 2) := by
  rw [Numeric.val, Numeric.val, Numeric.ofDecimal_units (orRaise_eq_ok.mp created.buy),
    Numeric.ofDecimal_units (orRaise_eq_ok.mp created.sell),
    div_lt_div_iff_of_pos_right (by norm_num), Int.cast_lt]
  rfl

/-- The rounding of the columns can close a gap, but does not turn the thresholds round. -/
theorem CreatedMarket.ordered_iff (created : CreatedMarket env db payload adminId market)
    (defaults : env.settings.defaultSellThresholdPct < env.settings.defaultBuyThresholdPct) :
    market.sellThresholdPct.val < market.buyThresholdPct.val ↔
      ThresholdsApart env.settings payload := by
  rw [created.ordered_iff_hundredths]
  have validated := created.validated
  have rounds : ∀ {x y : ℚ}, x < y → Decimal.halfUp (x * 10 ^ 2) ≤ Decimal.halfUp (y * 10 ^ 2) :=
    fun less => Decimal.halfUp_le_halfUp (by linarith)
  have order_of_rounded : ∀ {x y : ℚ},
      Decimal.halfUp (x * 10 ^ 2) < Decimal.halfUp (y * 10 ^ 2) → x < y := by
    intro x y less
    by_contra crossed
    have reversed : Decimal.halfUp (y * 10 ^ 2) ≤ Decimal.halfUp (x * 10 ^ 2) :=
      Decimal.halfUp_le_halfUp (by linarith)
    omega
  constructor
  · intro ordered
    refine ⟨ordered.ne, ?_, ?_⟩
    · intro noSell buy givenBuy
      have sell_eq : payload.sellPct env.settings = env.settings.defaultSellThresholdPct := by
        rw [MarketCreate.sellPct, noSell, Option.getD_none]
      have buy_eq : payload.buyPct env.settings = buy := by
        rw [MarketCreate.buyPct, givenBuy, Option.getD_some]
      rw [sell_eq, buy_eq] at ordered
      exact order_of_rounded ordered
    · intro noBuy sell givenSell
      have sell_eq : payload.sellPct env.settings = sell := by
        rw [MarketCreate.sellPct, givenSell, Option.getD_some]
      have buy_eq : payload.buyPct env.settings = env.settings.defaultBuyThresholdPct := by
        rw [MarketCreate.buyPct, noBuy, Option.getD_none]
      rw [sell_eq, buy_eq] at ordered
      exact order_of_rounded ordered
  · intro apart
    have ordered : payload.sellPct env.settings < payload.buyPct env.settings := by
      rw [MarketCreate.sellPct, MarketCreate.buyPct]
      cases givenBuy : payload.buyThresholdPct with
      | none =>
          cases givenSell : payload.sellThresholdPct with
          | none => exact defaults
          | some sell => exact apart.sellAlone givenBuy sell givenSell
      | some buy =>
          cases givenSell : payload.sellThresholdPct with
          | none => exact apart.buyAlone givenSell buy givenBuy
          | some sell => exact validated buy givenBuy sell givenSell
    exact lt_of_le_of_ne (rounds ordered) apart.hundredths

/-- A created market has one rule for every return exactly when its thresholds are apart. -/
theorem createMarket_consistent_iff
    (defaults : env.settings.defaultSellThresholdPct < env.settings.defaultBuyThresholdPct)
    (created : (serve env (.createMarket payload adminId) db).result = .ok ()) :
    ∃ market, (serve env (.createMarket payload adminId) db).db.markets.get? db.markets.nextId =
        some market ∧
      (market.sellThresholdPct.val < market.buyThresholdPct.val ↔
        ThresholdsApart env.settings payload) ∧
      ((∀ returnPct, JudgedOnce market.buyThresholdPct.val market.sellThresholdPct.val returnPct) ↔
        ThresholdsApart env.settings payload) := by
  obtain ⟨market, markets, stored⟩ := createMarket_served created
  refine ⟨market, ?_, stored.ordered_iff defaults, ?_⟩
  · rw [markets, Table.get?_insert, if_pos rfl]
  · rw [judgedOnce_iff, stored.ordered_iff defaults]

/-- A desk with a fund and no market yet. -/
def fundOpened : List Event :=
  [.request desk (.createMember { email := "a@example.com", name := "a" }),
    .request desk (.createFund "fund" "1" "KIS")]

/-- A market over the given thresholds. -/
def marketOver (buyThresholdPct sellThresholdPct : Option ℚ) : Request :=
  .createMarket
    { fundId := 1, title := "t", ticker := "005930", closesAt := desk.now + 1,
      resolveAt := desk.now + 2, notionalKrw := 100000, buyThresholdPct, sellThresholdPct } 1

theorem createMarket_consistent_five :
    ∃ market,
      (serve desk (marketOver (some 5) none) (stateAfter Db.empty fundOpened)).db.markets.get?
        (stateAfter Db.empty fundOpened).markets.nextId = some market ∧
      market.sellThresholdPct.val < market.buyThresholdPct.val := by
  obtain ⟨market, stored, ordered, _⟩ := @createMarket_consistent_iff desk
    (stateAfter Db.empty fundOpened) _ 1 (by decide +kernel)
    (show (serve desk (marketOver (some 5) none) _).result = .ok () by decide +kernel)
  refine ⟨market, stored, ordered.mpr ⟨by decide +kernel, fun _ buy given => ?_, nofun⟩⟩
  cases given
  decide +kernel

/-- A market whose BUY threshold is below the default of the other calls a return of -4 both
BUY and SELL, and one whose thresholds round to 3.00 calls a return of 3 both. -/
theorem createMarket_inconsistent :
    (∃ market, (serve desk (marketOver (some (-5)) none)
        (stateAfter Db.empty fundOpened)).result = .ok () ∧
      (serve desk (marketOver (some (-5)) none) (stateAfter Db.empty fundOpened)).db.markets.get?
        (stateAfter Db.empty fundOpened).markets.nextId = some market ∧
      market.buyThresholdPct.val ≤ -4 ∧ -4 ≤ market.sellThresholdPct.val) ∧
    ∃ market, (serve desk (marketOver (some (3004 / 1000)) (some (3001 / 1000)))
        (stateAfter Db.empty fundOpened)).result = .ok () ∧
      (serve desk (marketOver (some (3004 / 1000)) (some (3001 / 1000)))
        (stateAfter Db.empty fundOpened)).db.markets.get?
          (stateAfter Db.empty fundOpened).markets.nextId = some market ∧
      market.buyThresholdPct.val ≤ 3 ∧ 3 ≤ market.sellThresholdPct.val := by
  constructor
  · obtain ⟨market, stored, thresholds⟩ : ∃ market ∈ (serve desk (marketOver (some (-5)) none)
        (stateAfter Db.empty fundOpened)).db.markets.get?
          (stateAfter Db.empty fundOpened).markets.nextId,
        market.buyThresholdPct.val ≤ -4 ∧ -4 ≤ market.sellThresholdPct.val := by decide +kernel
    exact ⟨market, by decide +kernel, stored, thresholds⟩
  · obtain ⟨market, stored, thresholds⟩ : ∃ market ∈
        (serve desk (marketOver (some (3004 / 1000)) (some (3001 / 1000)))
          (stateAfter Db.empty fundOpened)).db.markets.get?
            (stateAfter Db.empty fundOpened).markets.nextId,
        market.buyThresholdPct.val ≤ 3 ∧ 3 ≤ market.sellThresholdPct.val := by decide +kernel
    exact ⟨market, by decide +kernel, stored, thresholds⟩

end Created

end FundPolymarket
