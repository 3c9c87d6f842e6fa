import FundPolymarket.MarketService
import Mathlib.Data.List.Sort

set_option autoImplicit false

/- `services/scoring.py` and the Brier score of `services/consensus.py`. -/
namespace FundPolymarket

/-- `x ** 2`: the square has three digits to spare before it is rounded to the context. -/
def square (x : ℚ) : ℚ := Decimal.fix (Decimal.roundSig (Decimal.prec + 3) (x * x))

def brierScore (memberProbabilities : Outcome → ℚ) (winningOutcome : Outcome) :
    Except AppError ℚ :=
  let error := fun outcome =>
    let actual : ℚ := if outcome = winningOutcome then 1 else 0
    square (Decimal.sub (memberProbabilities outcome) actual)
  q (Decimal.sum (allOutcomes.map error)) 6 .halfUp

structure MemberScore where
  memberId : ℕ
  name : String
  balance : ℚ
  netProfit : ℚ
  settledMarkets : ℕ
  hits : ℕ
  hitRate : ℚ
  brier : Option ℚ

/-- `_member_allocation`. -/
def memberAllocation (bets : List Bet) : Outcome → ℚ :=
  let total := Decimal.sum (bets.map fun bet => bet.stake.val)
  if total ≤ 0 then fun _ => 0
  else
    bets.foldl
      (fun dist bet outcome =>
        if outcome = bet.outcome then
          Decimal.add (dist outcome) (Decimal.div bet.stake.val total)
        else dist outcome)
      fun _ => 0

/-- The entry types that the net profit counts. -/
def LedgerEntryType.countsAsProfit : LedgerEntryType → Bool
  | .betLock | .betRefund | .cancelRefund | .payout => true
  | .initialGrant | .rake | .adjustment => false

section Leaderboard

variable (db : Db)

/-- What counts as profit for one member; the initial grant does not. -/
def netProfit (memberId : ℕ) : ℚ :=
  Decimal.sum ((db.ledger.contents.filter fun entry =>
    entry.memberId = memberId ∧ entry.entryType.countsAsProfit).map fun entry => entry.amount.val)

/-- The net profits of the listed members, added up in one pass over the ledger. -/
def netProfits (memberIds : List ℕ) : List (ℕ × ℚ) :=
  ((db.ledger.contents.filter fun entry => entry.entryType.countsAsProfit).map fun entry =>
    (entry.memberId, entry.amount.val)).foldl
      (fun profits entry => Tally.addKnown profits entry.1 entry.2) (Tally.zeros memberIds)

def settledMarkets : List (ℕ × Market) :=
  db.markets.select fun market => market.status = .settled

/-- The verdicts of the settled markets on which the member has bet, each with the bets. -/
def participations (memberId : ℕ) : List (Outcome × List Bet) :=
  (settledMarkets db).filterMap fun row =>
    let bets := (existingBets db row.1 memberId).map Prod.snd
    if bets = [] then none
    else row.2.winningOutcome.map fun winner => (winner, bets)

def memberScore (balances profits : List (ℕ × ℚ)) (row : ℕ × Member) :
    Except AppError MemberScore := do
  let participated := participations db row.1
  let hits := (participated.filter fun entry =>
    leader (memberAllocation entry.2) = entry.1).length
  let briers ← participated.mapM fun entry => brierScore (memberAllocation entry.2) entry.1
  let hitRate ←
    if participated = [] then pure 0
    else q (Decimal.div hits participated.length) 4 .halfEven
  let brier ←
    if participated = [] then pure none
    else some <$> q (Decimal.div (Decimal.sum briers) participated.length) 6 .halfEven
  pure
    { memberId := row.1
      name := row.2.name
      balance := Tally.get balances row.1
      netProfit := Tally.get profits row.1
      settledMarkets := participated.length
      hits, hitRate, brier }

/-- The sort key; without a Brier score a member comes after all that have one. -/
def MemberScore.key (score : MemberScore) : ℚ ×ₗ ℚ := toLex (-score.netProfit, score.brier.getD 9)

def leaderboard : Except AppError (List MemberScore) := do
  let members := db.members.select Member.isActive
  let memberIds := members.map Prod.fst
  let scores ← members.mapM (memberScore db (getBalances db memberIds) (netProfits db memberIds))
  pure (scores.insertionSort fun first second => first.key ≤ second.key)

end Leaderboard

-- Two thirds on the right outcome: one third squared, and twice a sixth squared.
example : brierScore (fun | .buy => 2 / 3 | .sell => 1 / 6 | .hold => 1 / 6) .buy =
    .ok (166667 / 1000000) := by decide +kernel

end FundPolymarket
