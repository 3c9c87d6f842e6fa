import FundPolymarket.AuditTrail
import FundPolymarket.BalanceViews

set_option autoImplicit false

/- The ledger under interleavings: what the type of an entry says about its amount, and
that every member is granted points once. -/
namespace FundPolymarket

open Decimal (Numeric)
open Interleaving (Act World)

/-- Locks take points, refunds and payouts give some back, both for a market; a grant
belongs to none. Nothing writes the other types. -/
def LedgerEntry.Regular (entry : LedgerEntry) : Prop :=
  match entry.entryType with
  | .initialGrant => entry.marketId = none
  | .betLock => entry.marketId.isSome ∧ entry.amount.val ≤ 0
  | .betRefund | .cancelRefund | .payout => entry.marketId.isSome ∧ 0 ≤ entry.amount.val
  | .rake | .adjustment => False

/-- A ledger that nothing but the code has written. -/
structure LedgerSound (db : Db) : Prop where
  granted : GrantedOnce db
  regular : ∀ entry ∈ db.ledger.contents, entry.Regular
  stakes : StakesNonneg db

/-- What a request that has read nonnegative stakes inserts. -/
def Write.Sound : Write → Prop
  | .insertLedger entry => entry.Regular
  | .insertBet bet => 0 ≤ bet.stake.val
  | _ => True

section Rows

variable {memberId marketId : ℕ} {amount : ℚ} {entry : LedgerEntry}

theorem Recorded.regular {entryType : LedgerEntryType}
    (recorded : Recorded memberId entryType amount (some marketId) entry) (nonneg : 0 ≤ amount)
    (kind : entryType = .betRefund ∨ entryType = .cancelRefund ∨ entryType = .payout) :
    entry.Regular := by
  have stored := recorded.nonneg nonneg
  unfold LedgerEntry.Regular
  rcases kind with rfl | rfl | rfl <;>
    simp [recorded.entryType_eq, recorded.marketId_eq, stored]

theorem lock_regular {allocation : Allocation} {memo : Option String}
    (locked : record memberId .betLock (-allocation.total) (some marketId) memo = .ok entry) :
    entry.Regular := by
  obtain ⟨_, market, kind, stored, storedOk, amount⟩ := lock_eq_ok locked
  have nonneg := Numeric.val_nonneg_of_ofDecimal (total_nonneg allocation) storedOk
  unfold LedgerEntry.Regular
  simp [kind, market, amount, nonneg]

end Rows

section Writes

variable {env : Env} {db next : Db} {request : Request} {writes : List Write}

theorem Commits.regular (committed : Commits env db request writes) (nonneg : StakesNonneg db) :
    ∀ entry ∈ insertedRows .ledger writes, entry.Regular := by
  intro entry member
  have writesLedger := committed.table_of_row member
  cases committed with
  | createFund | createMarket | closeMarket | createDecision | approveDecision | rejectDecision
  | resolveMarket | syncFund => simp [Request.tables] at writesLedger
  | createMember granted =>
      cases List.mem_singleton.mp member
      have row := record_eq_ok granted
      unfold LedgerEntry.Regular
      rw [row.entryType_eq]
      exact row.marketId_eq
  | putAllocation _ _ refunded _ locked =>
      rw [allocation_rows] at member
      rcases List.mem_append.mp member with refund | lock
      · exact (refund_recorded refunded entry refund).regular (previousTotal_nonneg nonneg _ _)
          (.inl rfl)
      · cases List.mem_singleton.mp lock
        exact lock_regular locked
  | settleMarket _ _ _ _ recorded _ =>
      rw [settlement_rows] at member
      obtain ⟨pair, due, row⟩ := forall₂_exists_left (payouts_recorded recorded) member
      have positive := (of_decide_eq_true (List.mem_filter.mp due).2).1
      exact row.regular positive.le (.inr (.inr rfl))
  | cancelMarket _ _ _ recorded =>
      rw [cancellation_rows] at member
      obtain ⟨pair, due, row⟩ := forall₂_exists_left (refunds_recorded recorded) member
      exact row.regular (stakeByMember_nonneg nonneg _ pair (List.mem_filter.mp due).1)
        (.inr (.inl rfl))

theorem mem_insertedRows {name : TableName} {row : Row name} :
    row ∈ insertedRows name writes ↔ ∃ w ∈ writes, w.inserted name = some row :=
  List.mem_filterMap

theorem Commits.sound (committed : Commits env db request writes) (nonneg : StakesNonneg db) :
    ∀ w ∈ writes, w.Sound := by
  intro w member
  cases w with
  | insertLedger entry =>
      exact committed.regular nonneg entry (mem_insertedRows.mpr ⟨_, member, rfl⟩)
  | insertBet bet =>
      have table := committed.tables _ member
      cases committed with
      | putAllocation _ _ _ staked _ =>
          simp only [List.mem_append, List.mem_map, List.mem_singleton] at member
          rcases member with ((⟨_, _, same⟩ | ⟨_, _, same⟩) | ⟨_, listed, same⟩) | same
          · cases same
          · cases same
          · cases same
            exact (newBets_mem (newBets_eq_ok staked) listed).2.2
          · cases same
      | settleMarket => simp at member
      | _ => simp [Request.tables, Write.table] at table
  | _ => trivial

/-- Sound statements leave no negative stake. -/
theorem Write.stakes_on {w : Write} (sound : w.Sound) {rows : Table Bet}
    (nonneg : ∀ bet ∈ rows.contents, 0 ≤ bet.stake.val) :
    ∀ bet ∈ (w.on .bets rows).contents, 0 ≤ bet.stake.val := by
  intro bet member
  cases w with
  | insertBet row =>
      change bet ∈ (rows.insert row).contents at member
      rw [Table.contents_insert, List.mem_append, List.mem_singleton] at member
      rcases member with old | rfl
      · exact nonneg bet old
      · exact sound
  | deleteBet id =>
      obtain ⟨entry, listed, rfl⟩ := List.mem_map.mp member
      exact nonneg _ (List.mem_map_of_mem (List.mem_of_mem_filter listed))
  | setPayout id payout =>
      obtain ⟨old, oldMember, rfl | rfl⟩ := Table.mem_contents_update member
      · exact nonneg _ oldMember
      · exact nonneg old oldMember
  | _ => exact nonneg bet member

theorem applyWrites_stakesNonneg (sound : ∀ w ∈ writes, w.Sound)
    (applied : applyWrites db writes = .ok next) (nonneg : StakesNonneg db) : StakesNonneg next :=
  @applyWrites_invariant .bets (fun rows => ∀ bet ∈ rows.contents, 0 ≤ bet.stake.val) _ _ _
    (fun w member _ => Write.stakes_on (sound w member)) applied nonneg

end Writes

section Run

variable {seen now next : Db} {task : Task}

theorem Task.sound (read : StakesNonneg seen) (met : StakesNonneg now)
    (returned : (task.handle seen now).result = .ok ())
    (applied : applyWrites now (task.handle seen now).flushed = .ok next) :
    ∀ w ∈ (task.handle seen now).flushed, w.Sound := by
  refine Task.writes_induction (motive := StakesNonneg) ?_ read met returned applied
  intro env db request writes _ nonneg flushes
  have sound := flushes.commits.sound nonneg
  exact ⟨sound, fun next applied => applyWrites_stakesNonneg sound applied nonneg⟩

/-- The grant of a registration has the key of the row that the commit inserts. -/
theorem Task.grantedOnce (granted : GrantedOnce now)
    (returned : (task.handle seen now).result = .ok ())
    (applied : applyWrites now (task.handle seen now).flushed = .ok next) : GrantedOnce next := by
  by_cases registers : ∃ env payload, task = .request env (.createMember payload)
  · obtain ⟨env, payload, rfl⟩ := registers
    obtain ⟨db, which, flushes⟩ := Task.request_flushes returned applied
    rcases which with ⟨_, other⟩ | rfl
    · exact absurd rfl (other payload)
    · exact flushes.commits.grantedOnce applied granted
  · push Not at registers
    have profits : ∀ w ∈ (task.handle seen now).flushed, w.table ≠ .members ∧
        ∀ entry, w.inserted .ledger = some entry → entry.entryType.countsAsProfit = true := by
      refine Task.writes_induction (motive := fun _ => True) ?_ trivial trivial returned applied
      intro env db request writes makes _ flushes
      have other : ∀ payload, request ≠ .createMember payload := by
        rintro payload rfl
        cases task with
        | request env asked => exact registers env payload (makes ▸ rfl)
        | closeLoop | resolveLoop => cases makes
      refine ⟨fun w member => ⟨?_, fun entry inserted => ?_⟩, fun _ _ => trivial⟩
      · intro same
        have table := flushes.commits.tables w member
        rw [same] at table
        cases request <;> simp_all [Request.tables]
      · exact flushes.commits.profits other entry (mem_insertedRows.mpr ⟨w, member, inserted⟩)
    refine granted.unregistered (applyWrites_frame applied .members fun w member =>
      (profits w member).1) (applyWrites_contents applied .ledger rfl) fun entry member => ?_
    obtain ⟨w, writes, inserted⟩ := mem_insertedRows.mp member
    exact (profits w writes).2 entry inserted

/-- However requests and loops overlap, every entry has the sign and the market of its type,
and every member has been granted points exactly once. -/
theorem ledger_sound (acts : List (Act Task)) :
    LedgerSound (Interleaving.run tasks (World.quiet Db.empty) acts).shared := by
  refine @tasks_invariant (fun _ _ => True) LedgerSound ?_ Db.empty
    ⟨grantedOnce_stateAfter [], by simp [Db.empty], stakesNonneg_empty⟩ acts
    (starts_anything _ acts)
  intro task seen now next _ _ read met returned applied
  have sound := Task.sound read.stakes met.stakes returned applied
  refine ⟨Task.grantedOnce met.granted returned applied, fun entry member => ?_,
    applyWrites_stakesNonneg sound applied met.stakes⟩
  have ledger := applyWrites_contents applied .ledger rfl
  rcases List.mem_append.mp (ledger ▸ member) with old | new
  · exact met.regular entry old
  · obtain ⟨w, writes, inserted⟩ := mem_insertedRows.mp new
    have ofEntry := sound w writes
    cases w <;> cases inserted
    exact ofEntry

end Run

end FundPolymarket
