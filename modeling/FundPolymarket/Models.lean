import FundPolymarket.Enums
import FundPolymarket.Session
import FundPolymarket.Table

set_option autoImplicit false

/- `models/`: the rows, the tables with their constraints, and the writes that a
flush sends to them. Columns that no modelled function reads are left out. -/
namespace FundPolymarket

open Decimal (Numeric)

/-- Stakes and ledger amounts, `Numeric(18, 2)`. -/
abbrev Points := Numeric 18 2

/-- Prices, `Numeric(18, 4)`. -/
abbrev Price := Numeric 18 4

/-- A value on its way into a `Numeric(p, s)` column; an overflow is a `DataError`. -/
def store (precision scale : ℕ) (x : ℚ) : Except AppError (Numeric precision scale) :=
  orRaise .dataError (Numeric.ofDecimal precision scale x)

/-- A value on its way into an `INTEGER` column. -/
def storeInteger (x : ℤ) : Except AppError ℤ :=
  if -2 ^ 31 ≤ x ∧ x < 2 ^ 31 then .ok x else .error .dataError

/-- The same for a number that is counted. -/
def storeCount (n : ℕ) : Except AppError ℕ :=
  if n < 2 ^ 31 then .ok n else .error .dataError

theorem storeInteger_eq_ok {x stored : ℤ} :
    storeInteger x = .ok stored ↔ (-2 ^ 31 ≤ x ∧ x < 2 ^ 31) ∧ stored = x := by
  unfold storeInteger
  split
  · rename_i within
    exact ⟨fun result => ⟨within, (Except.ok.inj result).symm⟩, fun facts => facts.2 ▸ rfl⟩
  · rename_i outside
    exact ⟨fun result => (by cases result), fun facts => absurd facts.1 outside⟩

theorem storeCount_eq_ok {n stored : ℕ} :
    storeCount n = .ok stored ↔ n < 2 ^ 31 ∧ n = stored := by
  unfold storeCount
  split <;> simp_all

/-- A text that a `Text` column takes: the zero character is refused. -/
def FreeText (text : String) : Prop := Char.ofNat 0 ∉ text.toList

instance (text : String) : Decidable (FreeText text) := inferInstanceAs (Decidable (_ ∉ _))

/-- A text that a `VARCHAR(limit)` column takes: of a longer one only blanks may be cut off. -/
def StorableText (limit : ℕ) (text : String) : Prop :=
  FreeText text ∧ ∀ c ∈ text.toList.drop limit, c = ' '

instance (limit : ℕ) (text : String) : Decidable (StorableText limit text) :=
  @instDecidableAnd _ _ inferInstance (List.decidableBAll _ _)

def storeText (limit : ℕ) (text : String) : Except AppError String :=
  if StorableText limit text then .ok (String.ofList (text.toList.take limit))
  else .error .dataError

section Texts

variable {limit : ℕ} {text kept : String}

/-- A text that a column holds as it is. -/
def FitsText (limit : ℕ) (text : String) : Prop :=
  FreeText text ∧ text.toList.length ≤ limit

instance : Decidable (FitsText limit text) := inferInstanceAs (Decidable (_ ∧ _))

theorem storeText_eq_ok :
    storeText limit text = .ok kept ↔
      StorableText limit text ∧ kept = String.ofList (text.toList.take limit) := by
  unfold storeText
  split
  · rename_i storable
    exact ⟨fun result => ⟨storable, (Except.ok.inj result).symm⟩, fun facts => facts.2 ▸ rfl⟩
  · rename_i refused
    exact ⟨fun result => (by cases result), fun facts => absurd facts.1 refused⟩

theorem storeText_fits (result : storeText limit text = .ok kept) : FitsText limit kept := by
  obtain ⟨storable, rfl⟩ := storeText_eq_ok.mp result
  rw [FitsText, FreeText, String.toList_ofList]
  exact ⟨fun zero => storable.1 (List.mem_of_mem_take zero), List.length_take_le _ _⟩

theorem FitsText.storable (fits : FitsText limit text) : StorableText limit text := by
  refine ⟨fits.1, ?_⟩
  rw [List.drop_of_length_le fits.2]
  simp

theorem FitsText.unchanged (fits : FitsText limit text) : storeText limit text = .ok text := by
  refine storeText_eq_ok.mpr ⟨fits.storable, ?_⟩
  rw [List.take_of_length_le fits.2, String.ofList_toList]

theorem storeName_eq_ok {name storedName : Option String} :
    name.mapM (storeText limit) = .ok storedName ↔
      (name = none ∧ storedName = none) ∨
        ∃ text stored, name = some text ∧ storedName = some stored ∧
          storeText limit text = .ok stored := by
  cases name with
  | none =>
      have nothing : (none : Option String).mapM (storeText limit) = .ok none := rfl
      rw [nothing]
      simp [eq_comm]
  | some text =>
      rw [Option.mapM_some, map_eq_ok]
      simp [eq_comm, and_comm]

end Texts

/-- An optional text on its way into a `Text` column. -/
def checkText (text : Option String) : Except AppError Unit :=
  raiseIf (∃ given ∈ text, ¬ FreeText given) .dataError

theorem checkText_eq_ok {text : Option String} {done : Unit} :
    checkText text = .ok done ↔ ∀ given ∈ text, FreeText given := by
  rw [checkText, raiseIf_eq_ok]
  push Not
  rfl

structure Member where
  email : String
  name : String
  role : Role := .member
  isActive : Bool := true

structure Fund where
  name : String
  accountNo : String
  broker : String := "KIS"

structure Position where
  fundId : ℕ
  ticker : String
  tickerName : Option String
  quantity : ℤ
  avgPrice : Price

structure Market where
  fundId : ℕ
  createdBy : ℕ
  title : String
  description : Option String
  ticker : String
  tickerName : Option String
  status : MarketStatus := .open
  closesAt : Time
  resolveAt : Time
  buyThresholdPct : Numeric 6 2
  sellThresholdPct : Numeric 6 2
  referencePrice : Option Price := none
  resolutionPrice : Option Price := none
  winningOutcome : Option Outcome := none
  notionalKrw : Points
  closedAt : Option Time := none
  resolvedAt : Option Time := none
  settledAt : Option Time := none

structure Bet where
  marketId : ℕ
  memberId : ℕ
  outcome : Outcome
  stake : Points
  rationale : Option String
  payout : Option Points := none
  deriving DecidableEq

/-- The columns of `uq_bet_market_member_outcome`. -/
def Bet.key (bet : Bet) : ℕ × ℕ × Outcome := (bet.marketId, bet.memberId, bet.outcome)

structure LedgerEntry where
  memberId : ℕ
  marketId : Option ℕ
  entryType : LedgerEntryType
  amount : Points
  memo : Option String
  deriving DecidableEq

structure TradeDecision where
  marketId : ℕ
  action : Outcome
  probabilities : List (Outcome × ℚ)
  totalStake : Points
  participantCount : ℕ
  targetQuantity : ℤ
  limitPrice : Option Price
  orderType : OrderType
  status : DecisionStatus
  reason : Option String
  approvedBy : Option ℕ := none
  approvedAt : Option Time := none

structure Order where
  decisionId : Option ℕ
  marketId : Option ℕ
  fundId : ℕ
  ticker : String
  side : OrderSide
  orderType : OrderType
  quantity : ℤ
  price : Option Price
  brokerEnv : String
  brokerOrderNo : Option String := none
  status : OrderStatus := .pending
  errorMessage : Option String := none
  submittedAt : Option Time := none
  createdAt : Time

structure Db where
  members : UniqueTable Member Member.email
  funds : Table Fund
  positions : UniqueTable Position fun p => (p.fundId, p.ticker)
  markets : Table Market
  bets : UniqueTable Bet Bet.key
  ledger : Table LedgerEntry
  decisions : Table TradeDecision
  orders : Table Order

namespace Db

def empty : Db :=
  ⟨.empty, .empty, .empty, .empty, .empty, .empty, .empty, .empty⟩

/-- `select(Bet).where(Bet.market_id == ...)`. -/
def betsOf (db : Db) (marketId : ℕ) : List (ℕ × Bet) :=
  db.bets.select fun bet => bet.marketId = marketId

end Db

/-- One row-level statement of a flush. An update sets columns of the current row. -/
inductive Write where
  | insertMember (row : Member)
  | insertFund (row : Fund)
  | insertMarket (row : Market)
  | updateMarket (id : ℕ) (set : Market → Market)
  | insertBet (row : Bet)
  | deleteBet (id : ℕ)
  | setPayout (id : ℕ) (payout : Points)
  | insertLedger (row : LedgerEntry)
  | insertDecision (row : TradeDecision)
  | updateDecision (id : ℕ) (set : TradeDecision → TradeDecision)
  | insertOrder (row : Order)
  | insertPosition (row : Position)
  | setPosition (id : ℕ) (tickerName : Option String) (quantity : ℤ) (avgPrice : Price)

/-- Repeating a unique key is an `IntegrityError`; the other statements succeed,
also when the row they address is gone. -/
def applyWrite (db : Db) : Write → Except AppError Db
  | .insertMember row => do
      let members ← orRaise .integrityError (db.members.insert? row)
      pure { db with members := members }
  | .insertFund row => pure { db with funds := db.funds.insert row }
  | .insertMarket row => pure { db with markets := db.markets.insert row }
  | .updateMarket id set => pure { db with markets := db.markets.update id set }
  | .insertBet row => do
      let bets ← orRaise .integrityError (db.bets.insert? row)
      pure { db with bets := bets }
  | .deleteBet id => pure { db with bets := db.bets.delete id }
  | .setPayout id payout =>
      pure { db with bets := db.bets.update id (fun bet => { bet with payout := some payout })
                              fun _ => rfl }
  | .insertLedger row => pure { db with ledger := db.ledger.insert row }
  | .insertDecision row => pure { db with decisions := db.decisions.insert row }
  | .updateDecision id set => pure { db with decisions := db.decisions.update id set }
  | .insertOrder row => pure { db with orders := db.orders.insert row }
  | .insertPosition row => do
      let positions ← orRaise .integrityError (db.positions.insert? row)
      pure { db with positions := positions }
  | .setPosition id tickerName quantity avgPrice =>
      pure { db with positions := db.positions.update id
                      (fun p => { p with tickerName, quantity, avgPrice }) fun _ => rfl }

/-- The writes of a transaction, in order; the first failure aborts all of them. -/
def applyWrites (db : Db) : List Write → Except AppError Db
  | [] => pure db
  | write :: writes => do
      let next ← applyWrite db write
      applyWrites next writes

theorem applyWrites_append (db : Db) (first second : List Write) :
    applyWrites db (first ++ second) =
      applyWrites db first >>= fun next => applyWrites next second := by
  induction first generalizing db with
  | nil => rfl
  | cons write first ih =>
      simp only [List.cons_append, applyWrites, ih]
      cases applyWrite db write <;> rfl

theorem applyWrites_cons_eq_ok {db final : Db} {write : Write} {writes : List Write} :
    applyWrites db (write :: writes) = .ok final ↔
      ∃ next, applyWrite db write = .ok next ∧ applyWrites next writes = .ok final := bind_eq_ok

/-- Writes that each change nothing. -/
theorem applyWrites_of_same {db : Db} {writes : List Write}
    (same : ∀ write ∈ writes, applyWrite db write = .ok db) : applyWrites db writes = .ok db := by
  induction writes with
  | nil => rfl
  | cons write writes ih =>
      exact applyWrites_cons_eq_ok.mpr ⟨db, same write (by simp),
        ih fun other member => same other (by simp [member])⟩

end FundPolymarket
