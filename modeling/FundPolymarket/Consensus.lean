import FundPolymarket.Enums
import FundPolymarket.Session
import FundPolymarket.Tally
import Mathlib.Data.List.Dedup
import Mathlib.Data.Prod.Lex

set_option autoImplicit false

/- `services/consensus.py`: consensus probabilities, the parimutuel settlement and
the verdict, in the decimal arithmetic the code runs in. -/
namespace FundPolymarket

/-- `_q`. -/
def q (value : ℚ) (places : ℕ) (mode : Decimal.Rounding) : Except AppError ℚ :=
  orRaise .invalidOperation (Decimal.quantize places mode value)

structure Stake where
  memberId : ℕ
  outcome : Outcome
  amount : ℚ
  deriving DecidableEq, Repr

structure Consensus where
  stakeByOutcome : Outcome → ℚ
  totalStake : ℚ
  participantCount : ℕ
  probabilities : Outcome → ℚ

/-- `max(ALL_OUTCOMES, key=...)`, the first of the largest. -/
def leader (weight : Outcome → ℚ) : Outcome := (allOutcomes.argmax weight).getD .buy

namespace Consensus

def leadingOutcome (c : Consensus) : Option Outcome :=
  if c.totalStake ≤ 0 then none else some (leader c.stakeByOutcome)

def leadingProbability (c : Consensus) : ℚ :=
  match c.leadingOutcome with
  | some outcome => c.probabilities outcome
  | none => 0

/-- The snapshot of the JSON column, before the conversion to floats. -/
def asDict (c : Consensus) : List (Outcome × ℚ) :=
  allOutcomes.map fun outcome => (outcome, c.probabilities outcome)

end Consensus

/-- The accumulation of `compute_consensus` over the rows; rows that are not
positive do not count. -/
def stakeByOutcome (stakes : List Stake) : Outcome → ℚ :=
  stakes.foldl
    (fun byOutcome s =>
      if s.amount ≤ 0 then byOutcome
      else fun outcome =>
        if outcome = s.outcome then Decimal.add (byOutcome outcome) s.amount
        else byOutcome outcome)
    fun _ => 0

def participantCount (stakes : List Stake) : ℕ :=
  ((stakes.filter fun s => 0 < s.amount).map Stake.memberId).dedup.length

/-- The rounded shares, with the rounding drift absorbed by the leader. -/
def probabilities (byOutcome : Outcome → ℚ) (total : ℚ) : Except AppError (Outcome → ℚ) := do
  let buy ← q (Decimal.div (byOutcome .buy) total) 4 .halfUp
  let sell ← q (Decimal.div (byOutcome .sell) total) 4 .halfUp
  let hold ← q (Decimal.div (byOutcome .hold) total) 4 .halfUp
  let rounded : Outcome → ℚ
    | .buy => buy
    | .sell => sell
    | .hold => hold
  let drift := Decimal.sub 1 (Decimal.sum (allOutcomes.map rounded))
  pure fun outcome =>
    if drift ≠ 0 ∧ outcome = leader byOutcome then Decimal.add (rounded outcome) drift
    else rounded outcome

/-- Nobody has staked anything: all probabilities are zero. -/
def shares (byOutcome : Outcome → ℚ) (total : ℚ) : Except AppError (Outcome → ℚ) :=
  if 0 < total then probabilities byOutcome total else pure fun _ => 0

def computeConsensus (stakes : List Stake) : Except AppError Consensus := do
  let byOutcome := stakeByOutcome stakes
  let total := Decimal.sum (allOutcomes.map byOutcome)
  let probabilities ← shares byOutcome total
  pure
    { stakeByOutcome := byOutcome
      totalStake := total
      participantCount := participantCount stakes
      probabilities }

section Settlement

variable (stakes : List Stake) (winningOutcome : Outcome)

def winners : List Stake :=
  stakes.filter fun s => s.outcome = winningOutcome ∧ 0 < s.amount

def totalPool : ℚ := Decimal.sum ((stakes.filter fun s => 0 < s.amount).map Stake.amount)

def winningPool : ℚ := Decimal.sum ((winners stakes winningOutcome).map Stake.amount)

/-- Nobody was right: everybody gets the own stakes back. -/
def refunds : List (ℕ × ℚ) :=
  Tally.ofList ((stakes.filter fun s => 0 < s.amount).map fun s => (s.memberId, s.amount))

/-- The rake is taken from the losing pool only. -/
def rake (rakeBps : ℤ) : Except AppError ℚ :=
  let losingPool := Decimal.sub (totalPool stakes) (winningPool stakes winningOutcome)
  q (Decimal.div (Decimal.mul losingPool rakeBps) 10000) 2 .down

/-- One winner's truncated share. -/
def share (distributable pool : ℚ) (s : Stake) : Except AppError (ℕ × ℚ) := do
  let amount ← q (Decimal.mul distributable (Decimal.div s.amount pool)) 2 .down
  pure (s.memberId, amount)

/-- `max(winners, key=lambda s: (s.amount, -s.member_id))`. -/
def topWinner (winning : List Stake) : Option Stake :=
  winning.maxOn? fun s => toLex (s.amount, -(s.memberId : ℤ))

/-- What truncation left over goes to the largest winner. -/
def payRemainder (remainder : ℚ) (winning : List Stake) (payouts : List (ℕ × ℚ)) :
    List (ℕ × ℚ) :=
  match topWinner winning with
  | some top => if 0 < remainder then Tally.add payouts top.memberId remainder else payouts
  | none => payouts

def settleParimutuel (rakeBps : ℤ) : Except AppError (List (ℕ × ℚ)) := do
  raiseIf (rakeBps < 0 ∨ 10000 ≤ rakeBps) (.valueError "rake_bps must be in [0, 10000)")
  if winningPool stakes winningOutcome ≤ 0 then pure (refunds stakes)
  else do
    let withheld ← rake stakes winningOutcome rakeBps
    let distributable := Decimal.sub (totalPool stakes) withheld
    let shares ← (winners stakes winningOutcome).mapM
      (share distributable (winningPool stakes winningOutcome))
    let payouts := Tally.ofList shares
    let remainder := Decimal.sub distributable (Decimal.sum (payouts.map Prod.snd))
    pure (payRemainder remainder (winners stakes winningOutcome) payouts)

end Settlement

def resolveOutcome (referencePrice resolutionPrice buyThresholdPct sellThresholdPct : ℚ) :
    Except AppError (Outcome × ℚ) := do
  raiseIf (referencePrice ≤ 0) (.valueError "reference_price must be positive")
  let change := Decimal.div (Decimal.sub resolutionPrice referencePrice) referencePrice
  let returnPct ← q (Decimal.mul change 100) 4 .halfUp
  if buyThresholdPct ≤ returnPct then pure (.buy, returnPct)
  else if returnPct ≤ sellThresholdPct then pure (.sell, returnPct)
  else pure (.hold, returnPct)

-- A pool of 300 split evenly by three winners pays 99.99 twice and 100.02 once.
example : settleParimutuel [⟨1, .buy, 100⟩, ⟨2, .buy, 100⟩, ⟨3, .buy, 100⟩] .buy 0 =
    .ok [(1, 10002 / 100), (2, 9999 / 100), (3, 9999 / 100)] := by decide +kernel

end FundPolymarket
