import FundPolymarket.MarketService
import FundPolymarket.Probabilities

set_option autoImplicit false

/- When `build_decision` leaves a decision that waits for approval: the checks one by
one, and the gate that they make together. -/
namespace FundPolymarket

open Decimal (Scaled unitRoundoff)

/-- The decision that is built waits for approval. -/
def BuildsPending (settings : Settings) (db : Db) (marketId : ℕ) (market : Market)
    (broker : Broker) : Prop :=
  ∃ writes decision, buildDecision settings db marketId market broker = .ok writes ∧
    Write.insertDecision decision ∈ writes ∧ decision.status = .pendingApproval

/-- A flush inserts a decision that waits for approval. -/
def insertsPending (writes : List Write) : Bool :=
  writes.any fun
    | .insertDecision decision => decision.status = .pendingApproval
    | _ => false

theorem insertsPending_iff {writes : List Write} :
    insertsPending writes = true ↔
      ∃ decision, Write.insertDecision decision ∈ writes ∧ decision.status = .pendingApproval := by
  rw [insertsPending, List.any_eq_true]
  constructor
  · rintro ⟨write, member, pending⟩
    cases write <;> simp at pending
    exact ⟨_, member, pending⟩
  · rintro ⟨decision, member, pending⟩
    exact ⟨_, member, by simpa using pending⟩

instance (settings : Settings) (db : Db) (marketId : ℕ) (market : Market) (broker : Broker) :
    Decidable (BuildsPending settings db marketId market broker) :=
  decidable_of_iff
    ((buildDecision settings db marketId market broker).toOption.any insertsPending = true) (by
      cases built : buildDecision settings db marketId market broker <;>
        simp [BuildsPending, built, Except.toOption, insertsPending_iff])

section Checks

variable {settings : Settings} {db : Db} {marketId : ℕ} {market : Market} {broker : Broker}
  {consensus : Consensus}

theorem quorumReasons_eq_nil :
    quorumReasons settings db consensus = [] ↔
      0 < consensus.totalStake ∧ (0 < activeCount db →
        settings.quorumRatio ≤ Decimal.div consensus.participantCount (activeCount db)) := by
  rw [quorumReasons]
  split
  · rename_i nothing
    simp [not_lt.mpr nothing]
  · rename_i something
    have staked := not_le.mp something
    split
    · rename_i active
      dsimp only
      split
      · rename_i few
        simp [active, not_le.mpr few]
      · rename_i enough
        simp [staked, not_lt.mp enough]
    · rename_i inactive
      simp [staked, inactive]

theorem consensusReasons_eq_nil :
    consensusReasons settings db consensus = [] ↔
      quorumReasons settings db consensus = [] ∧
        settings.executionMinProbability ≤ consensus.leadingProbability := by
  rw [consensusReasons]
  split
  · rename_i weak
    simp [not_le.mpr weak.2]
  · rename_i passed
    constructor
    · intro quorum
      exact ⟨quorum, not_lt.mp fun low => passed ⟨quorum, low⟩⟩
    · exact And.left

/-- What an order of the leading outcome is sized to. -/
def targetQuantity (db : Db) (market : Market) (price : ℚ) : Outcome → ℤ
  | .buy => ⌊market.notionalKrw.val / price⌋
  | _ => positionQuantity db market.fundId market.ticker

theorem store_limitPrice {price : ℚ} {sized : Sizing} (priced : sized.limitPrice = some price) :
    (∃ limitPrice, storedLimitPrice [] sized = .ok limitPrice) ↔
      (Decimal.Numeric.ofDecimal 18 4 price).isSome := by
  rw [storedLimitPrice, if_pos rfl, priced]
  cases stored : Decimal.Numeric.ofDecimal 18 4 price <;>
    simp [store, orRaise, stored, Functor.map, Except.map]

/-- A positive result of a floor division is the floor. -/
theorem floordiv_eq {x y : ℚ} {quantity : ℤ}
    (divided : Decimal.floordiv x y = some quantity) (some_bought : 0 < quantity) :
    quantity = ⌊x / y⌋ := by
  rw [Decimal.floordiv] at divided
  split at divided
  · cases divided
  · cases divided
    rcases le_or_gt 0 (x / y) with nonneg | negative
    · simp only [Decimal.down, nonneg, ↓reduceIte]
    · have floorNonneg := Int.floor_nonneg.mpr (neg_pos.mpr negative).le
      simp only [Decimal.down, not_le.mpr negative, ↓reduceIte] at some_bought
      omega

/-- A floor division by a positive number that comes to at least one. -/
theorem floordiv_pos_iff {x y : ℚ} (positive : 0 < y) :
    (∃ quantity, Decimal.floordiv x y = some quantity ∧ 0 < quantity) ↔
      1 ≤ ⌊x / y⌋ ∧ x / y < 10 ^ Decimal.prec := by
  rw [Decimal.floordiv]
  rcases le_or_gt 0 (x / y) with nonneg | negative
  · have whole : Decimal.down (x / y) = ⌊x / y⌋ := by
      simp only [Decimal.down, nonneg, ↓reduceIte]
    have floorNonneg := Int.floor_nonneg.mpr nonneg
    have fits : x / y < 10 ^ Decimal.prec ↔ ¬ 10 ^ Decimal.prec ≤ ⌊x / y⌋.natAbs := by
      have room : (10 : ℚ) ^ Decimal.prec = ((10 ^ Decimal.prec : ℕ) : ℤ) := by push_cast; rfl
      rw [room, ← Int.floor_lt]
      omega
    rw [whole, fits]
    simp only [positive.ne', false_or]
    constructor
    · rintro ⟨quantity, bought, some_bought⟩
      split at bought
      · cases bought
      · rename_i small
        cases bought
        exact ⟨some_bought, small⟩
    · rintro ⟨least, small⟩
      exact ⟨_, if_neg small, least⟩
  · have few : Decimal.down (x / y) ≤ 0 := by
      simp only [Decimal.down, not_le.mpr negative, ↓reduceIte]
      have floorNonneg := Int.floor_nonneg.mpr (neg_pos.mpr negative).le
      omega
    have none_bought : ⌊x / y⌋ < 1 := Int.floor_lt.mpr (by push_cast; linarith)
    constructor
    · rintro ⟨quantity, bought, some_bought⟩
      split at bought
      · cases bought
      · cases bought
        omega
    · rintro ⟨some_bought, _⟩
      omega

theorem store_quantity {sized : Sizing} (positive : 0 < sized.quantity) :
    (∃ quantity, storedQuantity [] sized = .ok quantity) ↔ sized.quantity < 2 ^ 31 := by
  rw [storedQuantity, if_pos rfl, storeInteger]
  split
  · rename_i within
    exact ⟨fun _ => within.2, fun _ => ⟨_, rfl⟩⟩
  · rename_i outside
    simp only [reduceCtorEq, exists_false, false_iff, not_lt]
    omega

/-- A number of shares that a column takes is computed without an error. -/
theorem quotient_small {x y : ℚ} (fits : ⌊x / y⌋ < 2 ^ 31) : x / y < 10 ^ Decimal.prec := by
  have below := Int.floor_lt.mp fits
  push_cast at below
  exact lt_trans below (by norm_num [Decimal.prec])

theorem targetQuantity_not_buy {price : ℚ} {action : Outcome} (sells : action ≠ .buy) :
    targetQuantity db market price action = positionQuantity db market.fundId market.ticker := by
  cases action <;> first | exact absurd rfl sells | rfl

/-- An order can be sized, and its quantity and its limit price can be stored. -/
theorem sizeOrder_iff {quote : Quote} {action : Outcome}
    (quoted : broker.getQuote market.ticker = .ok quote) (positive : 0 < quote.price) :
    (∃ sized, sizeOrder db market action broker = .ok sized ∧ sized.reasons = [] ∧
        (∃ quantity, storedQuantity [] sized = .ok quantity) ∧
        ∃ limitPrice, storedLimitPrice [] sized = .ok limitPrice) ↔
      1 ≤ targetQuantity db market quote.price action ∧
        targetQuantity db market quote.price action < 2 ^ 31 ∧
        (Decimal.Numeric.ofDecimal 18 4 quote.price).isSome := by
  have bought := floordiv_pos_iff (x := market.notionalKrw.val) positive
  constructor
  · rintro ⟨sized, ordered, clear, counted, stored⟩
    obtain ⟨_, answered, rest⟩ := bind_eq_ok.mp ordered
    rw [quoted] at answered
    cases answered
    split at rest
    · rename_i buys
      obtain ⟨quantity, floored, same⟩ := bind_eq_ok.mp rest
      cases same
      have some_bought : 0 < quantity := by
        by_contra none_bought
        simp [not_lt.mp none_bought] at clear
      have fits := (store_quantity some_bought).mp counted
      have same := floordiv_eq (orRaise_eq_ok.mp floored) some_bought
      rw [buys]
      change 1 ≤ ⌊market.notionalKrw.val / quote.price⌋ ∧
        ⌊market.notionalKrw.val / quote.price⌋ < 2 ^ 31 ∧ _
      rw [← same]
      exact ⟨some_bought, fits, (store_limitPrice rfl).mp stored⟩
    · rename_i sells
      cases rest
      have some_held : 0 < positionQuantity db market.fundId market.ticker := by
        by_contra none_held
        simp [not_lt.mp none_held] at clear
      rw [targetQuantity_not_buy sells]
      exact ⟨some_held, (store_quantity some_held).mp counted, (store_limitPrice rfl).mp stored⟩
  · rintro ⟨some_ordered, fits, priced⟩
    rw [sizeOrder, quoted]
    by_cases buys : action = .buy
    · rw [buys] at some_ordered fits
      obtain ⟨quantity, floored, some_bought⟩ :=
        bought.mpr ⟨some_ordered, quotient_small fits⟩
      have same := floordiv_eq floored some_bought
      refine ⟨⟨quantity, some quote.price, []⟩, ?_, rfl,
        (store_quantity some_bought).mpr (same ▸ fits), (store_limitPrice rfl).mpr priced⟩
      simp [buys, floored, orRaise, bind, Except.bind, pure, Except.pure, not_le.mpr some_bought]
    · rw [targetQuantity_not_buy buys] at some_ordered fits
      have held : 0 < positionQuantity db market.fundId market.ticker := by omega
      refine ⟨⟨positionQuantity db market.fundId market.ticker, some quote.price, []⟩, ?_, rfl,
        (store_quantity held).mpr fits, (store_limitPrice rfl).mpr priced⟩
      simp [buys, bind, Except.bind, pure, Except.pure, not_le.mpr held]

/-- The decision of a closed market waits for approval when every check passes. -/
theorem buildsPending_iff {quote : Quote} (closed : market.status = .closed)
    (fresh : ∀ decision ∈ db.decisions.contents, decision.marketId ≠ marketId)
    (computed : getConsensus db marketId = .ok consensus)
    (quoted : broker.getQuote market.ticker = .ok quote) (positive : 0 < quote.price) :
    BuildsPending settings db marketId market broker ↔
      consensusReasons settings db consensus = [] ∧
        consensus.leadingOutcome.getD .hold ≠ .hold ∧
        (1 ≤ targetQuantity db market quote.price (consensus.leadingOutcome.getD .hold) ∧
          targetQuantity db market quote.price (consensus.leadingOutcome.getD .hold) < 2 ^ 31 ∧
          (Decimal.Numeric.ofDecimal 18 4 quote.price).isSome) ∧
        consensus.participantCount < 2 ^ 31 ∧
        ∃ totalStake, store 18 2 consensus.totalStake = .ok totalStake := by
  have search := search_none fresh
  rw [← sizeOrder_iff quoted positive]
  constructor
  · rintro ⟨writes, decision, built, member, pending⟩
    rw [buildDecision, raiseIf_bind_eq_ok, search] at built
    obtain ⟨found, counted, built⟩ := bind_eq_ok.mp built.2
    rw [computed] at counted
    cases counted
    obtain ⟨sized, sizedOk, built⟩ := bind_eq_ok.mp built
    obtain ⟨totalStake, stored, built⟩ := bind_eq_ok.mp built
    obtain ⟨participants, participantsOk, built⟩ := bind_eq_ok.mp built
    obtain ⟨quantity, quantityOk, built⟩ := bind_eq_ok.mp built
    obtain ⟨limitPrice, priced, same⟩ := bind_eq_ok.mp built
    cases same
    simp only [List.mem_cons, Write.insertDecision.injEq, reduceCtorEq, List.not_mem_nil,
      or_false] at member
    subst member
    have clear : skipReasons settings db consensus (consensus.leadingOutcome.getD .hold) sized =
        [] := by
      by_contra reasons
      simp [newDecision, reasons] at pending
    rw [clear] at priced quantityOk
    obtain ⟨passed, sizedClear, trades⟩ := skipReasons_eq_nil.mp clear
    rw [sizing, if_pos ⟨passed, trades⟩] at sizedOk
    exact ⟨passed, trades,
      ⟨sized, sizedOk, sizedClear, ⟨quantity, quantityOk⟩, limitPrice, priced⟩,
      (storeCount_eq_ok.mp participantsOk).1, totalStake, stored⟩
  · rintro ⟨passed, trades,
      ⟨sized, sizedOk, sizedClear, ⟨quantity, quantityOk⟩, limitPrice, priced⟩,
      few, totalStake, stored⟩
    have clear := skipReasons_eq_nil.mpr ⟨passed, sizedClear, trades⟩
    refine ⟨[.insertDecision (newDecision marketId (consensus.leadingOutcome.getD .hold) consensus
      totalStake consensus.participantCount quantity limitPrice []),
      .updateMarket marketId Market.decide], _, ?_, List.mem_cons_self, rfl⟩
    rw [buildDecision, raiseIf_bind_eq_ok, search]
    refine ⟨not_not.mpr closed,
      bind_eq_ok.mpr ⟨consensus, computed, bind_eq_ok.mpr ⟨sized, ?_, ?_⟩⟩⟩
    · rw [sizing, if_pos ⟨passed, trades⟩]
      exact sizedOk
    · rw [clear]
      exact bind_eq_ok.mpr ⟨totalStake, stored,
        bind_eq_ok.mpr ⟨_, storeCount_eq_ok.mpr ⟨few, rfl⟩,
          bind_eq_ok.mpr ⟨quantity, quantityOk, bind_eq_ok.mpr ⟨limitPrice, priced, rfl⟩⟩⟩⟩

end Checks

section Gate

/-- The market's stake on an outcome. -/
def outcomeStake (db : Db) (marketId : ℕ) (outcome : Outcome) : ℚ :=
  pool (winners (loadStakes db marketId) outcome)

/-- The market's stake on all outcomes. -/
def stakedTotal (db : Db) (marketId : ℕ) : ℚ := pool (positiveStakes (loadStakes db marketId))

/-- The gate over exact quotients. -/
structure TrueShareGate (settings : Settings) (db : Db) (marketId : ℕ) (market : Market)
    (price : ℚ) : Prop where
  staked : 0 < stakedTotal db marketId
  quorum : 0 < activeCount db →
    settings.quorumRatio ≤ (participantCount (loadStakes db marketId) : ℚ) / activeCount db
  probability : settings.executionMinProbability ≤
    outcomeStake db marketId (leader (outcomeStake db marketId)) / stakedTotal db marketId
  trades : leader (outcomeStake db marketId) ≠ .hold
  quantity : 1 ≤ targetQuantity db market price (leader (outcomeStake db marketId))

/-- The gate that the code applies: the participation is a decimal quotient, the probability
is the published one, and what is stored has to fit its column. -/
structure PublishedGate (settings : Settings) (db : Db) (marketId : ℕ) (market : Market)
    (price : ℚ) : Prop where
  staked : 0 < stakedTotal db marketId
  quorum : 0 < activeCount db → settings.quorumRatio ≤
    Decimal.div (participantCount (loadStakes db marketId)) (activeCount db)
  probability : settings.executionMinProbability ≤
    publishedProbability (outcomeStake db marketId) (stakedTotal db marketId)
      (leader (outcomeStake db marketId))
  trades : leader (outcomeStake db marketId) ≠ .hold
  quantity : 1 ≤ targetQuantity db market price (leader (outcomeStake db marketId))
  quantityFits : targetQuantity db market price (leader (outcomeStake db marketId)) < 2 ^ 31
  participantsFit : participantCount (loadStakes db marketId) < 2 ^ 31
  totalFits : stakedTotal db marketId < 10 ^ 16
  limitPriceFits : (Decimal.Numeric.ofDecimal 18 4 price).isSome

variable {settings : Settings} {db : Db} {marketId : ℕ} {market : Market} {broker : Broker}
  {quote : Quote}

theorem loadStakes_scaled (db : Db) (marketId : ℕ) :
    ∀ s ∈ loadStakes db marketId, Scaled 2 s.amount := by
  intro s member
  obtain ⟨row, _, rfl⟩ := List.mem_map.mp member
  exact row.2.stake.val_scaled

theorem stakedTotal_eq (db : Db) (marketId : ℕ) :
    allStaked (outcomeStake db marketId) = stakedTotal db marketId := pool_outcomes _

theorem outcomeStake_nonneg (db : Db) (marketId : ℕ) (outcome : Outcome) :
    0 ≤ outcomeStake db marketId outcome := by
  apply List.sum_nonneg
  intro amount member
  obtain ⟨s, won, rfl⟩ := List.mem_map.mp member
  exact (winners_pos won).le

theorem outcomeStake_le (db : Db) (marketId : ℕ) (outcome : Outcome) :
    outcomeStake db marketId outcome ≤ stakedTotal db marketId := by
  have buy := outcomeStake_nonneg db marketId .buy
  have sell := outcomeStake_nonneg db marketId .sell
  have hold := outcomeStake_nonneg db marketId .hold
  rw [← stakedTotal_eq, allStaked]
  cases outcome <;> linarith

theorem outcomeStake_scaled (db : Db) (marketId : ℕ) (outcome : Outcome) :
    Scaled 2 (outcomeStake db marketId outcome) := by
  apply Scaled.sum
  intro amount member
  obtain ⟨s, won, rfl⟩ := List.mem_map.mp member
  exact loadStakes_scaled db marketId s (List.mem_filter.mp won).1

theorem stakedTotal_scaled (db : Db) (marketId : ℕ) : Scaled 2 (stakedTotal db marketId) := by
  rw [← stakedTotal_eq, allStaked]
  exact ((outcomeStake_scaled db marketId _).add (outcomeStake_scaled db marketId _)).add
    (outcomeStake_scaled db marketId _)

/-- The consensus of a storable total, in exact arithmetic. -/
theorem consensus_exact (staked : 0 < stakedTotal db marketId)
    (small : stakedTotal db marketId < 10 ^ 16) :
    ∃ consensus, getConsensus db marketId = .ok consensus ∧
      consensus.totalStake = stakedTotal db marketId ∧
      consensus.participantCount = participantCount (loadStakes db marketId) ∧
      consensus.leadingOutcome = some (leader (outcomeStake db marketId)) ∧
      consensus.leadingProbability = publishedProbability (outcomeStake db marketId)
        (stakedTotal db marketId) (leader (outcomeStake db marketId)) := by
  have cents : CentStakes (positiveStakes (loadStakes db marketId)) :=
    positiveStakes_cents (loadStakes_scaled db marketId)
      (lt_trans (show pool _ < 10 ^ 16 from small) (by norm_num))
  have weights : stakeByOutcome (loadStakes db marketId) = outcomeStake db marketId :=
    stakeByOutcome_exact cents
  have total : Decimal.sum (allOutcomes.map (stakeByOutcome (loadStakes db marketId))) =
      stakedTotal db marketId := total_exact cents
  have rounded : ∀ outcome, roundedUnits (outcomeStake db marketId) (stakedTotal db marketId)
      outcome = ⌊outcomeStake db marketId outcome / stakedTotal db marketId * 10 ^ 4 + 1 / 2⌋ :=
    fun outcome => roundedUnits_exact (outcomeStake_scaled db marketId outcome)
      (stakedTotal_scaled db marketId) (outcomeStake_nonneg db marketId outcome)
      (outcomeStake_le db marketId outcome) staked small
  refine ⟨_, computeConsensus_eq staked, total, rfl, ?_, ?_⟩
  · rw [Consensus.leadingOutcome, total, if_neg (not_le.mpr staked), weights]
  · rw [leadingProbability_eq (total.symm ▸ staked), total, weights]
    dsimp only
    rw [publishedUnits_leader, publishedProbability]
    simp only [rounded]

/-- A decision waits for approval exactly when it passes the published gate, whose
probability is at most a ten-thousandth from the share. -/
theorem buildDecision_gate (closed : market.status = .closed)
    (fresh : ∀ decision ∈ db.decisions.contents, decision.marketId ≠ marketId)
    (quoted : broker.getQuote market.ticker = .ok quote) (positive : 0 < quote.price) :
    (BuildsPending settings db marketId market broker ↔
      PublishedGate settings db marketId market quote.price) ∧
    (0 < stakedTotal db marketId →
      |publishedProbability (outcomeStake db marketId) (stakedTotal db marketId)
          (leader (outcomeStake db marketId)) -
        outcomeStake db marketId (leader (outcomeStake db marketId)) / stakedTotal db marketId| ≤
          1 / 10 ^ 4) := by
  refine ⟨?_, fun staked => publishedProbability_near (stakedTotal_eq db marketId) staked _⟩
  rcases le_or_gt (stakedTotal db marketId) 0 with nothing | staked
  · have cents : CentStakes (positiveStakes (loadStakes db marketId)) :=
      positiveStakes_cents (loadStakes_scaled db marketId)
        (lt_of_le_of_lt (show pool _ ≤ 0 from nothing) (by norm_num))
    have total : Decimal.sum (allOutcomes.map (stakeByOutcome (loadStakes db marketId))) =
        stakedTotal db marketId := total_exact cents
    rw [buildsPending_iff closed fresh
      (computeConsensus_none (not_lt.mpr (total.trans_le nothing))) quoted positive,
      consensusReasons_eq_nil, quorumReasons_eq_nil]
    constructor
    · rintro ⟨⟨⟨staked, _⟩, _⟩, _⟩
      exact absurd staked (not_lt.mpr (total.trans_le nothing))
    · intro gate
      exact absurd gate.staked (not_lt.mpr nothing)
  · rcases lt_or_ge (stakedTotal db marketId) (10 ^ 16) with small | large
    · obtain ⟨consensus, computed, total, participants, leads, probability⟩ :=
        consensus_exact staked small
      have stored : ∃ stored, store 18 2 (stakedTotal db marketId) = .ok stored := by
        obtain ⟨stored, stored_eq⟩ := @Decimal.Numeric.exists_ofDecimal 18 2 _
          (stakedTotal_scaled db marketId) (by rw [abs_of_pos staked]; norm_num; exact small)
        exact ⟨stored, orRaise_eq_ok.mpr stored_eq⟩
      rw [buildsPending_iff closed fresh computed quoted positive, consensusReasons_eq_nil,
        quorumReasons_eq_nil, total, participants, leads, probability, Option.getD_some]
      constructor
      · rintro ⟨⟨⟨_, quorum⟩, probable⟩, trades, ⟨quantity, fits, priced⟩, few, _⟩
        exact ⟨staked, quorum, probable, trades, quantity, fits, few, small, priced⟩
      · intro gate
        exact ⟨⟨⟨staked, gate.quorum⟩, gate.probability⟩, gate.trades,
          ⟨gate.quantity, gate.quantityFits, gate.limitPriceFits⟩, gate.participantsFit, stored⟩
    · have total_ge := total_large (loadStakes_scaled db marketId) large
      rw [buildsPending_iff closed fresh (computeConsensus_eq staked) quoted positive]
      constructor
      · rintro ⟨_, _, _, _, stored, storedOk⟩
        have below := Decimal.Numeric.lt_of_ofDecimal (by linarith) (orRaise_eq_ok.mp storedOk)
        norm_num at below
        linarith
      · intro gate
        exact absurd gate.totalFits (not_lt.mpr large)

/-- A closed market with a notional of 100,000. -/
def gateMarket : Market :=
  { fundId := 1, createdBy := 1, title := "t", description := none, ticker := "005930",
    tickerName := none, status := .closed, closesAt := 0, resolveAt := 1,
    buyThresholdPct := ⟨300, by decide⟩, sellThresholdPct := ⟨-300, by decide⟩,
    notionalKrw := ⟨10000000, by decide⟩ }

/-- Active members, as many as there are names, and rows for the market. -/
def gateDesk (names : List String) (bets : List (ℕ × Outcome × Points)) (quantity : ℤ) : Db :=
  let members := names.map fun name => Write.insertMember { email := name, name }
  let rows := bets.map fun bet => Write.insertBet
    { marketId := 1, memberId := bet.1, outcome := bet.2.1, stake := bet.2.2, rationale := none }
  let held := Write.insertPosition
    { fundId := 1, ticker := "005930", tickerName := none, quantity, avgPrice := ⟨1, by decide⟩ }
  (applyWrites Db.empty (members ++ rows ++ [held])).toOption.getD Db.empty

theorem buildDecision_gate_passed :
    BuildsPending {} (gateDesk ["a", "b"] [(1, .buy, ⟨6000, by decide⟩),
      (2, .sell, ⟨4000, by decide⟩)] 0) 1 gateMarket (.steady 50000 0 []) :=
  (@buildDecision_gate {} _ 1 gateMarket _ { ticker := "005930", price := 50000 } rfl
    (by decide +kernel) rfl (by decide +kernel)).1.mpr
      ⟨by decide +kernel, by decide +kernel, by decide +kernel, by decide +kernel,
        by decide +kernel, by decide +kernel, by decide +kernel, by decide +kernel,
        by decide +kernel⟩

/-- 54.996 % of the stake is on BUY. -/
def nearThreshold : Db :=
  gateDesk ["a", "b"] [(1, .buy, ⟨5499600, by decide⟩), (2, .sell, ⟨4500400, by decide⟩)] 0

/-- Two of three members take part. -/
def twoOfThree : Db :=
  gateDesk ["a", "b", "c"] [(1, .buy, ⟨100, by decide⟩), (2, .buy, ⟨100, by decide⟩)] 0

/-- The total has one digit more than its column. -/
def overflowingTotal : Db :=
  gateDesk ["a", "b"] [(1, .buy, ⟨5 * 10 ^ 17, by decide⟩), (2, .buy, ⟨5 * 10 ^ 17, by decide⟩)] 0

/-- One member stakes on one outcome, and one share is held. -/
def unanimous (outcome : Outcome) : Db := gateDesk ["a"] [(1, outcome, ⟨100, by decide⟩)] 1

/-- The market with a notional of 300,000,000,000. -/
def largeMarket : Market := { gateMarket with notionalKrw := ⟨3 * 10 ^ 13, by decide⟩ }

/-- A share below the threshold passes, two of three pass a quorum just above two thirds, and
a total, a limit price or a quantity that does not fit stops what should pass. -/
theorem buildDecision_not_trueShareGate :
    (BuildsPending {} nearThreshold 1 gateMarket (.steady 50000 0 []) ∧
      ¬ TrueShareGate {} nearThreshold 1 gateMarket 50000) ∧
    (BuildsPending { quorumRatio := 6666666666666666666666666667 / 10 ^ 28 } twoOfThree 1 gateMarket
        (.steady 50000 0 []) ∧
      ¬ TrueShareGate { quorumRatio := 6666666666666666666666666667 / 10 ^ 28 } twoOfThree 1
        gateMarket 50000) ∧
    (TrueShareGate {} overflowingTotal 1 gateMarket 50000 ∧
      ¬ BuildsPending {} overflowingTotal 1 gateMarket (.steady 50000 0 [])) ∧
    (TrueShareGate {} (unanimous .sell) 1 gateMarket (10 ^ 14) ∧
      ¬ BuildsPending {} (unanimous .sell) 1 gateMarket (.steady (10 ^ 14) 0 [])) ∧
    (TrueShareGate {} (unanimous .buy) 1 largeMarket 100 ∧
      ¬ BuildsPending {} (unanimous .buy) 1 largeMarket (.steady 100 0 [])) := by
  refine ⟨⟨by decide +kernel, fun gate => ?_⟩, ⟨by decide +kernel, fun gate => ?_⟩,
    ⟨?_, by decide +kernel⟩, ⟨?_, by decide +kernel⟩, ⟨?_, by decide +kernel⟩⟩
  · exact absurd gate.probability (by decide +kernel)
  · exact absurd (gate.quorum (by decide +kernel)) (by decide +kernel)
  all_goals exact ⟨by decide +kernel, by decide +kernel, by decide +kernel, by decide +kernel,
    by decide +kernel⟩

end Gate

end FundPolymarket
