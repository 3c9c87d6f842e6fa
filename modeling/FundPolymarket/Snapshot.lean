import FundPolymarket.DecisionGate
import FundPolymarket.Returns

set_option autoImplicit false

/- What the close of a market fixes: its reference price, its bets, and the decision
that is built from them. -/
namespace FundPolymarket

/-- What the creation of a decision fixes. -/
structure Judgement where
  marketId : ℕ
  action : Outcome
  probabilities : List (Outcome × ℚ)
  totalStake : Points
  participantCount : ℕ
  targetQuantity : ℤ
  limitPrice : Option Price

def TradeDecision.judgement (row : TradeDecision) : Judgement :=
  ⟨row.marketId, row.action, row.probabilities, row.totalStake, row.participantCount,
    row.targetQuantity, row.limitPrice⟩

theorem TradeDecision.judgement_reject (row : TradeDecision) (adminId : ℕ) (reason : String)
    (now : Time) : (row.reject adminId reason now).judgement = row.judgement := rfl

theorem TradeDecision.judgement_execute (row : TradeDecision) (adminId : ℕ) (now : Time) :
    (row.execute adminId now).judgement = row.judgement := rfl

/-- The decision holds the consensus that the bets of its market have now. -/
def Judgement.Current (db : Db) (judgement : Judgement) : Prop :=
  ∃ consensus, getConsensus db judgement.marketId = .ok consensus ∧
    judgement.totalStake.val = consensus.totalStake ∧
      judgement.participantCount = consensus.participantCount ∧
      judgement.probabilities = consensus.asDict

def judgements (db : Db) : List Judgement := db.decisions.contents.map TradeDecision.judgement

theorem Judgement.Current.of_bets {db next : Db} {judgement : Judgement}
    (current : judgement.Current db)
    (same : marketBets next judgement.marketId = marketBets db judgement.marketId) :
    judgement.Current next := by
  unfold Judgement.Current getConsensus at current ⊢
  rwa [loadStakes_marketBets, same, ← loadStakes_marketBets]

section Step

variable {env : Env} {db next : Db} {request : Request} {writes : List Write}

theorem BuiltDecision.current {marketId : ℕ} {market : Market} {broker : Broker}
    {decision : TradeDecision} (built : BuiltDecision db marketId market broker decision) :
    decision.judgement.Current db := by
  obtain ⟨consensus, computed, stored, participants, probabilities⟩ := built.judged
  have mine : decision.judgement.marketId = marketId := built.marketId_eq
  refine ⟨consensus, mine ▸ computed, ?_, participants, probabilities⟩
  obtain ⟨shares, _, same⟩ := bind_eq_ok.mp computed
  cases same
  exact storedTotal_exact (loadStakes_scaled db marketId) (orRaise_eq_ok.mp stored)

/-- Nothing but the close sets a reference price, and it finds the market open. -/
theorem MarketChange.kept {id : ℕ} {row later : Market}
    (change : MarketChange env db request id row later) (left : row.status ≠ .open) :
    later.status ≠ .open ∧ later.referencePrice = row.referencePrice := by
  cases change with
  | close isOpen => exact absurd isOpen left
  | decide => exact ⟨by simp [Market.decide], rfl⟩
  | execute => exact ⟨by simp [Market.execute], rfl⟩
  | resolve => exact ⟨by simp [Market.resolve], rfl⟩
  | settle => exact ⟨by simp [Market.settle], rfl⟩
  | cancel => exact ⟨by simp [Market.cancel], rfl⟩

/-- What a later state keeps of the markets that have left OPEN, and of the decisions. -/
structure Kept (start db : Db) : Prop where
  markets : ∀ id row, start.markets.get? id = some row → row.status ≠ .open →
    ∃ later, db.markets.get? id = some later ∧ later.status ≠ .open ∧
      later.referencePrice = row.referencePrice
  bets : ∀ id row, start.markets.get? id = some row → row.status ≠ .open →
    marketBets db id = marketBets start id
  decisions : ∀ id row, start.decisions.get? id = some row →
    ∃ later, db.decisions.get? id = some later ∧ later.judgement = row.judgement

namespace Kept

theorem refl (db : Db) : Kept db db :=
  ⟨fun _ row found left => ⟨row, found, left, rfl⟩, fun _ _ _ _ => rfl,
    fun _ row found => ⟨row, found, rfl⟩⟩

theorem trans {start : Db} (first : Kept start db) (second : Kept db next) : Kept start next := by
  refine ⟨?_, ?_, ?_⟩
  · intro id row found left
    obtain ⟨middle, middleFound, middleLeft, samePrice⟩ := first.markets id row found left
    obtain ⟨later, laterFound, laterLeft, price⟩ := second.markets id middle middleFound middleLeft
    exact ⟨later, laterFound, laterLeft, price.trans samePrice⟩
  · intro id row found left
    obtain ⟨middle, middleFound, middleLeft, _⟩ := first.markets id row found left
    exact (second.bets id middle middleFound middleLeft).trans (first.bets id row found left)
  · intro id row found
    obtain ⟨middle, middleFound, same⟩ := first.decisions id row found
    obtain ⟨later, laterFound, judged⟩ := second.decisions id middle middleFound
    exact ⟨later, laterFound, judged.trans same⟩

end Kept

theorem DecisionsAfter.kept {decisions : Table TradeDecision}
    (after : DecisionsAfter env db request decisions) {id : ℕ} {row : TradeDecision}
    (found : db.decisions.get? id = some row) :
    ∃ later, decisions.get? id = some later ∧ later.judgement = row.judgement := by
  cases after with
  | same => exact ⟨row, found, rfl⟩
  | built => exact ⟨row, Table.get?_insert_of_some _ found, rfl⟩
  | rejected =>
      rw [Table.get?_update, found]
      split
      · exact ⟨_, rfl, row.judgement_reject _ _ _⟩
      · exact ⟨row, rfl, rfl⟩
  | executed =>
      rw [Table.get?_update, found]
      split
      · exact ⟨_, rfl, row.judgement_execute _ _⟩
      · exact ⟨row, rfl, rfl⟩

theorem Commits.kept (committed : Commits env db request writes)
    (applied : applyWrites db writes = .ok next) : Kept db next := by
  refine ⟨?_, ?_, fun _ _ found => (committed.decisions applied).kept found⟩
  · intro id row found left
    obtain ⟨later, laterFound, same | change⟩ := (committed.markets applied).kept found
    · exact ⟨later, laterFound, same ▸ left, same ▸ rfl⟩
    · exact ⟨later, laterFound, change.kept left⟩
  · intro id row found left
    refine (committed.bets applied).frozen ?_
    rintro allocated memberId allocation rationale rfl rfl
    cases committed with
    | putAllocation open_ checked =>
        rw [found] at open_
        cases open_
        exact left (checkAllocation_eq_ok checked).isOpen

/-- Every market has at most one decision, made after its close on the bets that it
still has. -/
structure Snapshots (db : Db) : Prop where
  single : ((judgements db).map Judgement.marketId).Nodup
  left : ∀ judgement ∈ judgements db,
    ∃ row, db.markets.get? judgement.marketId = some row ∧ row.status ≠ .open
  current : ∀ judgement ∈ judgements db, judgement.Current db

/-- A committed request leaves the judgements as they are, or adds the one of a closed
market that has none. -/
theorem DecisionsAfter.judged (after : DecisionsAfter env db request next.decisions) :
    judgements next = judgements db ∨
      ∃ (market : Market) (decision : TradeDecision),
        judgements next = judgements db ++ [decision.judgement] ∧
        db.markets.get? decision.marketId = some market ∧ market.status = .closed ∧
        (∀ other ∈ db.decisions.contents, other.marketId ≠ decision.marketId) ∧
        decision.judgement.Current db := by
  unfold judgements
  generalize next.decisions = decisions at after
  cases after with
  | same => exact .inl rfl
  | @built marketId market decision found isClosed fresh built =>
      refine .inr ⟨market, decision, ?_, ?_, isClosed, ?_, built.current⟩
      · rw [Table.contents_insert, List.map_append]
        rfl
      · rw [built.marketId_eq, found]
      · rwa [built.marketId_eq]
  | rejected =>
      exact .inl (Table.contents_update_map (fun row => row.judgement_reject _ _ _) _ _)
  | executed =>
      exact .inl (Table.contents_update_map (fun row => row.judgement_execute _ _) _ _)

theorem Snapshots.kept (snapshots : Snapshots db) (kept : Kept db next) {judgement : Judgement}
    (member : judgement ∈ judgements db) :
    (∃ row, next.markets.get? judgement.marketId = some row ∧ row.status ≠ .open) ∧
      judgement.Current next := by
  obtain ⟨row, found, left⟩ := snapshots.left judgement member
  obtain ⟨later, laterFound, laterLeft, _⟩ := kept.markets _ row found left
  exact ⟨⟨later, laterFound, laterLeft⟩,
    (snapshots.current judgement member).of_bets (kept.bets _ row found left)⟩

theorem Commits.snapshots (committed : Commits env db request writes)
    (applied : applyWrites db writes = .ok next) (snapshots : Snapshots db) :
    Snapshots next := by
  have kept := committed.kept applied
  rcases (committed.decisions applied).judged with
    same | ⟨market, decision, added, found, isClosed, fresh, current⟩
  · refine ⟨same ▸ snapshots.single, ?_, ?_⟩
    · exact fun judgement member => (snapshots.kept kept (same ▸ member)).1
    · exact fun judgement member => (snapshots.kept kept (same ▸ member)).2
  · have left : market.status ≠ .open := by simp [isClosed]
    obtain ⟨later, laterFound, laterLeft, _⟩ := kept.markets _ market found left
    refine ⟨?_, ?_, ?_⟩
    · rw [added, List.map_append, List.nodup_append]
      refine ⟨snapshots.single, List.nodup_singleton _, ?_⟩
      intro marketId member other last same
      obtain ⟨judgement, old, rfl⟩ := List.mem_map.mp member
      obtain ⟨row, rowMember, rfl⟩ := List.mem_map.mp old
      rw [List.map_singleton, List.mem_singleton] at last
      exact fresh row rowMember (same.trans last)
    · intro judgement member
      rw [added, List.mem_append, List.mem_singleton] at member
      rcases member with old | rfl
      · exact (snapshots.kept kept old).1
      · exact ⟨later, laterFound, laterLeft⟩
    · intro judgement member
      rw [added, List.mem_append, List.mem_singleton] at member
      rcases member with old | rfl
      · exact (snapshots.kept kept old).2
      · exact current.of_bets (kept.bets _ market found left)

end Step

/-- The run rule of the snapshots. -/
theorem run_kept {start : Db} (snapshots : Snapshots start) (events : List Event) :
    Kept start (stateAfter start events) ∧ Snapshots (stateAfter start events) := by
  refine @requests_invariant (fun _ _ _ => True) (fun _ => True)
    (fun db => Kept start db ∧ Snapshots db) start (fun _ _ _ _ _ => trivial) ?_
    ⟨.refl start, snapshots⟩ events (fun _ _ => trusts_anything _) (fun s _ => s.meets_anything)
  rintro env request db writes next - - committed applied ⟨kept, held⟩
  exact ⟨kept.trans (committed.kept applied), committed.snapshots applied held⟩

theorem snapshots_empty : Snapshots Db.empty where
  single := List.nodup_nil
  left := fun _ member => absurd member List.not_mem_nil
  current := fun _ member => absurd member List.not_mem_nil

/-- What a later state still has of a market that was found past OPEN: its reference
price and its bets, and one decision at most, with the judgement that it was created
with and that its bets still have. -/
structure SnapshotKept (marketId : ℕ) (row : Market) (early late : Db) : Prop where
  market : ∃ later, late.markets.get? marketId = some later ∧ later.status ≠ .open ∧
    later.referencePrice = row.referencePrice
  bets : marketBets late marketId = marketBets early marketId
  single : (late.decisions.contents.filter fun decision => decision.marketId = marketId).length ≤ 1
  judged : ∀ id decision, early.decisions.get? id = some decision →
    decision.marketId = marketId →
    ∃ later, late.decisions.get? id = some later ∧ later.judgement = decision.judgement
  current : ∀ decision ∈ late.decisions.contents, decision.marketId = marketId →
    decision.judgement.Current late

/-- The snapshot of a market is the same in every later state of a run. -/
theorem snapshot_immutable (before after : List Event) {marketId : ℕ} {row : Market}
    (found : (stateAfter Db.empty before).markets.get? marketId = some row)
    (left : row.status ≠ .open) :
    SnapshotKept marketId row (stateAfter Db.empty before)
      (stateAfter Db.empty (before ++ after)) := by
  have reached := (run_kept snapshots_empty before).2
  obtain ⟨kept, snapshots⟩ := run_kept reached after
  rw [stateAfter_append]
  refine ⟨kept.markets marketId row found left, kept.bets marketId row found left, ?_,
    fun id decision decided _ => kept.decisions id decision decided,
    fun decision member _ => snapshots.current _ (List.mem_map_of_mem member)⟩
  have once := List.nodup_iff_count_le_one.mp snapshots.single marketId
  rw [List.count, List.countP_map, judgements, List.countP_map,
    List.countP_eq_length_filter] at once
  exact once

def closedMarket : List Event := openedMarket ++ [.request desk (.closeMarket 1)]

/-- What follows the close of a market up to its settlement. -/
def tradedAndSettled : List Event :=
  [.request desk (.createDecision 1), .request desk (.approveDecision 1 1),
    .request desk (.resolveMarket 1), .request desk (.settleMarket 1)]

theorem snapshot_immutable_settled : ∃ row,
    SnapshotKept 1 row (stateAfter Db.empty closedMarket)
      (stateAfter Db.empty (closedMarket ++ tradedAndSettled)) := by
  obtain ⟨row, found, left⟩ :
      ∃ row ∈ (stateAfter Db.empty closedMarket).markets.get? 1, row.status ≠ .open := by
    decide +kernel
  exact ⟨row, snapshot_immutable closedMarket tradedAndSettled found left⟩

end FundPolymarket
