import FundPolymarket.Effects

set_option autoImplicit false

/- The points accounts: sums over the ledger and over the bets, and what the requests
that move points add to them. -/
namespace FundPolymarket

open Decimal (Numeric Scaled)

/-- The sum of some ledger entries. -/
def amounts (entries : List LedgerEntry) : ℚ := (entries.map fun entry => entry.amount.val).sum

/-- The sum of the stakes of some bets. -/
def staked (bets : List Bet) : ℚ := (bets.map fun bet => bet.stake.val).sum

section Sums

@[simp] theorem amounts_nil : amounts [] = 0 := rfl

@[simp] theorem amounts_append (first second : List LedgerEntry) :
    amounts (first ++ second) = amounts first + amounts second := by
  simp [amounts]

@[simp] theorem amounts_singleton (entry : LedgerEntry) : amounts [entry] = entry.amount.val := by
  simp [amounts]

theorem amounts_nonneg {entries : List LedgerEntry}
    (nonneg : ∀ entry ∈ entries, 0 ≤ entry.amount.val) : 0 ≤ amounts entries := by
  apply List.sum_nonneg
  intro amount member
  obtain ⟨entry, entryMember, rfl⟩ := List.mem_map.mp member
  exact nonneg entry entryMember

theorem amounts_scaled (entries : List LedgerEntry) : Scaled 2 (amounts entries) := by
  apply Scaled.sum
  intro amount member
  obtain ⟨entry, _, rfl⟩ := List.mem_map.mp member
  exact entry.amount.val_scaled

@[simp] theorem staked_nil : staked [] = 0 := rfl

@[simp] theorem staked_append (first second : List Bet) :
    staked (first ++ second) = staked first + staked second := by
  simp [staked]

theorem staked_nonneg {bets : List Bet} (nonneg : ∀ bet ∈ bets, 0 ≤ bet.stake.val) :
    0 ≤ staked bets := by
  apply List.sum_nonneg
  intro stake member
  obtain ⟨bet, betMember, rfl⟩ := List.mem_map.mp member
  exact nonneg bet betMember

theorem staked_scaled (bets : List Bet) : Scaled 2 (staked bets) := by
  apply Scaled.sum
  intro stake member
  obtain ⟨bet, _, rfl⟩ := List.mem_map.mp member
  exact bet.stake.val_scaled

/-- A sum splits along any condition. -/
theorem staked_filter_add (bets : List Bet) (keep : Bet → Bool) :
    staked (bets.filter keep) + staked (bets.filter fun bet => !keep bet) = staked bets := by
  have split := List.sum_map_filter_add_sum_map_filter_not (keep · = true)
    (fun bet => bet.stake.val) bets
  simpa [staked] using split

end Sums

section Record

/-- The row that a call of `record` adds. -/
structure Recorded (memberId : ℕ) (entryType : LedgerEntryType) (amount : ℚ)
    (marketId : Option ℕ) (entry : LedgerEntry) : Prop where
  memberId_eq : entry.memberId = memberId
  entryType_eq : entry.entryType = entryType
  marketId_eq : entry.marketId = marketId
  stored : Numeric.ofDecimal 18 2 amount = some entry.amount

variable {memberId : ℕ} {entryType : LedgerEntryType} {amount : ℚ} {marketId : Option ℕ}
  {memo : Option String} {entry : LedgerEntry}

theorem record_eq_ok (success : record memberId entryType amount marketId memo = .ok entry) :
    Recorded memberId entryType amount marketId entry := by
  obtain ⟨stored, storedOk, same⟩ := bind_eq_ok.mp success
  cases same
  exact ⟨rfl, rfl, rfl, orRaise_eq_ok.mp storedOk⟩

namespace Recorded

theorem nonneg (recorded : Recorded memberId entryType amount marketId entry)
    (amountNonneg : 0 ≤ amount) : 0 ≤ entry.amount.val :=
  Numeric.val_nonneg_of_ofDecimal amountNonneg recorded.stored

/-- Whole hundredths are stored as they are. -/
theorem exact (recorded : Recorded memberId entryType amount marketId entry)
    (cents : Scaled 2 amount) : entry.amount.val = amount :=
  Numeric.val_ofDecimal cents recorded.stored

end Recorded

end Record

section Ledger

theorem getBalance_append {db next : Db} {entries : List LedgerEntry}
    (ledger : next.ledger.contents = db.ledger.contents ++ entries) (memberId : ℕ) :
    getBalance next memberId =
      getBalance db memberId + amounts (entries.filter fun entry => entry.memberId = memberId) := by
  rw [getBalance, getBalance, ledger, List.filter_append]
  exact amounts_append _ _

theorem settlement_rows (entries : List LedgerEntry) (shown : List (ℕ × Points)) (id : ℕ)
    (set : Market → Market) :
    insertedRows .ledger (entries.map Write.insertLedger ++
      shown.map (fun entry => .setPayout entry.1 entry.2) ++ [.updateMarket id set]) = entries := by
  rw [insertedRows_append, insertedRows_append, insertedRows_insertLedger,
    insertedRows_of_ne (table_map shown (by simp [Write.table])),
    insertedRows_of_ne (by simp [Write.table]), List.append_nil, List.append_nil]

theorem cancellation_rows (entries : List LedgerEntry) (id : ℕ) (set : Market → Market) :
    insertedRows .ledger (entries.map Write.insertLedger ++ [.updateMarket id set]) = entries := by
  rw [insertedRows_append, insertedRows_insertLedger,
    insertedRows_of_ne (by simp [Write.table]), List.append_nil]

theorem allocation_rows (refund : List LedgerEntry) (existing : List (ℕ × Bet)) (bets : List Bet)
    (lock : LedgerEntry) :
    insertedRows .ledger (refund.map Write.insertLedger ++
      existing.map (fun row => Write.deleteBet row.1) ++ bets.map Write.insertBet ++
      [.insertLedger lock]) = refund ++ [lock] := by
  rw [insertedRows_append, insertedRows_append, insertedRows_append, insertedRows_insertLedger,
    insertedRows_of_ne (table_map existing (by simp [Write.table])),
    insertedRows_of_ne (table_map bets (by simp [Write.table]))]
  simp [insertedRows, Write.inserted]

theorem payouts_recorded {marketId : ℕ} {winningOutcome : Outcome} {due : List (ℕ × ℚ)}
    {entries : List LedgerEntry}
    (success : due.mapM (payoutEntry marketId winningOutcome) = .ok entries) :
    List.Forall₂ (fun pair entry => Recorded pair.1 .payout pair.2 (some marketId) entry) due
      entries :=
  (mapM_forall₂ success).imp fun _ _ => record_eq_ok

theorem refunds_recorded {marketId : ℕ} {reason : String} {due : List (ℕ × ℚ)}
    {entries : List LedgerEntry} (success : due.mapM (refundEntry marketId reason) = .ok entries) :
    List.Forall₂ (fun pair entry => Recorded pair.1 .cancelRefund pair.2 (some marketId) entry) due
      entries := by
  refine (mapM_forall₂ success).imp fun pair entry entered => ?_
  obtain ⟨_, _, recorded⟩ := bind_eq_ok.mp entered
  exact record_eq_ok recorded

end Ledger

section Bets

variable {env : Env} {db next : Db} {request : Request} {writes : List Write}

/-- A bet without the payout column, which is for display. -/
def Bet.core (bet : Bet) : Bet := { bet with payout := none }

/-- The bets of one member on one market. -/
def ownBets (db : Db) (marketId memberId : ℕ) : List Bet :=
  db.bets.contents.filter fun bet => bet.marketId = marketId ∧ bet.memberId = memberId

theorem existingBets_values (db : Db) (marketId memberId : ℕ) :
    (existingBets db marketId memberId).map Prod.snd = ownBets db marketId memberId := by
  rw [existingBets, Table.select, ownBets, Table.contents, List.filter_map]
  rfl

theorem existingBets_mem {marketId memberId : ℕ} {row : ℕ × Bet}
    (member : row ∈ existingBets db marketId memberId) :
    row.2 ∈ db.bets.contents ∧ row.2.marketId = marketId ∧ row.2.memberId = memberId := by
  have listed : row.2 ∈ (existingBets db marketId memberId).map Prod.snd :=
    List.mem_map_of_mem member
  rw [existingBets_values, ownBets, List.mem_filter] at listed
  exact ⟨listed.1, of_decide_eq_true listed.2⟩

theorem betsOf_values (db : Db) (marketId : ℕ) :
    (db.betsOf marketId).map Prod.snd =
      db.bets.contents.filter fun bet => bet.marketId = marketId := by
  rw [Db.betsOf, Table.select, Table.contents, List.filter_map]
  rfl

theorem betsOf_mem {marketId : ℕ} {row : ℕ × Bet} (member : row ∈ db.betsOf marketId) :
    row.2 ∈ db.bets.contents := by
  have listed : row.2 ∈ (db.betsOf marketId).map Prod.snd := List.mem_map_of_mem member
  rw [betsOf_values] at listed
  exact (List.mem_filter.mp listed).1

theorem contents_foldl_insert {α : Type} (table : Table α) (rows : List α) :
    (rows.foldl Table.insert table).contents = table.contents ++ rows := by
  induction rows generalizing table with
  | nil => simp
  | cons row rows ih =>
      rw [List.foldl_cons, ih, Table.contents_insert, List.append_assoc]
      rfl

/-- What a committed request does to the bets: only an allocation changes the stakes,
and only those of one member on one market. -/
inductive BetsAfter (env : Env) (db : Db) : Request → List Bet → Prop where
  | same {request : Request} {bets : List Bet}
      (core : bets.map Bet.core = db.bets.contents.map Bet.core) :
      BetsAfter env db request bets
  | allocated {marketId memberId : ℕ} {allocation : Allocation} {rationale : Option String}
      {bets : List Bet}
      (staked : allocation.cleaned.mapM (newBet marketId memberId rationale) = .ok bets) :
      BetsAfter env db (.putAllocation marketId memberId allocation rationale)
        ((db.bets.contents.filter fun bet =>
          !decide (bet.marketId = marketId ∧ bet.memberId = memberId)) ++ bets)

theorem foldl_on_map {α : Type} {name : TableName} {f : α → Write}
    (act : Table (Row name) → α → Table (Row name))
    (acts : ∀ value rows, (f value).on name rows = act rows value) (values : List α)
    (rows : Table (Row name)) :
    (values.map f).foldl (fun rows write => write.on name rows) rows = values.foldl act rows := by
  induction values generalizing rows with
  | nil => rfl
  | cons value values ih =>
      rw [List.map_cons, List.foldl_cons, List.foldl_cons, acts]
      exact ih _

/-- The payout column of some rows is set. -/
def showPayouts (shown : List (ℕ × Points)) (rows : Table Bet) : Table Bet :=
  shown.foldl
    (fun rows entry => rows.update entry.1 fun bet => { bet with payout := some entry.2 }) rows

/-- A row that shows what is listed under its key. -/
def shownRow (shown : List (ℕ × Points)) (row : ℕ × Bet) : Bet :=
  ((shown.find? fun entry => entry.1 = row.1).map fun entry =>
    { row.2 with payout := some entry.2 }).getD row.2

theorem shownRow_core (shown : List (ℕ × Points)) (row : ℕ × Bet) :
    (shownRow shown row).core = row.2.core := by
  rw [shownRow]
  generalize shown.find? _ = found
  cases found <;> rfl

theorem shownRow_payout {shown : List (ℕ × Points)} (distinct : (shown.map Prod.fst).Nodup)
    {row : ℕ × Bet} {entry : ℕ × Points} (member : entry ∈ shown) (key : entry.1 = row.1) :
    (shownRow shown row).payout = some entry.2 := by
  rw [shownRow, ← key, find?_of_key distinct member]
  rfl

theorem rows_showPayouts {shown : List (ℕ × Points)} (distinct : (shown.map Prod.fst).Nodup)
    (table : Table Bet) :
    (showPayouts shown table).rows = table.rows.map fun row => (row.1, shownRow shown row) :=
  @Table.rows_foldl_update _ _ (fun payout (bet : Bet) => { bet with payout := some payout }) _
    distinct table

theorem core_showPayouts (shown : List (ℕ × Points)) (rows : Table Bet) :
    (showPayouts shown rows).contents.map Bet.core = rows.contents.map Bet.core := by
  induction shown generalizing rows with
  | nil => rfl
  | cons entry shown ih =>
      have same : ∀ bet : Bet, Bet.core { bet with payout := some entry.2 } = bet.core :=
        fun _ => rfl
      exact (ih _).trans (Table.contents_update_map same rows entry.1)

theorem settlement_bets {entries : List LedgerEntry} {shown : List (ℕ × Points)} {id : ℕ}
    {set : Market → Market}
    (applied : applyWrites db (entries.map Write.insertLedger ++
      shown.map (fun entry => .setPayout entry.1 entry.2) ++ [.updateMarket id set]) = .ok next) :
    next.bets.toTable = showPayouts shown db.bets.toTable := by
  have rows := applyWrites_table applied .bets
  rw [List.foldl_append, List.foldl_append,
    foldl_on_of_ne (table_map entries (by simp [Write.table])),
    foldl_on_map (fun (rows : Table (Row .bets)) (entry : ℕ × Points) =>
      rows.update entry.1 fun bet : Bet => { bet with payout := some entry.2 })
      (fun _ _ => rfl),
    foldl_on_of_ne (by simp [Write.table])] at rows
  exact rows

/-- The old rows of an allocation are gone before the new ones come. -/
theorem cleared_bets {marketId memberId : ℕ} {refund : List LedgerEntry}
    (applied : applyWrites db (refund.map Write.insertLedger ++
      (existingBets db marketId memberId).map (fun row => Write.deleteBet row.1)) = .ok next) :
    next.bets.contents = db.bets.contents.filter fun bet =>
      !decide (bet.marketId = marketId ∧ bet.memberId = memberId) := by
  have rows := applyWrites_table applied .bets
  rw [List.foldl_append, foldl_on_of_ne (table_map refund (by simp [Write.table])),
    foldl_on_map (fun (rows : Table (Row .bets)) (row : ℕ × Bet) => rows.delete row.1)
      (fun _ _ => rfl)] at rows
  have contents : next.bets.contents = _ := congrArg Table.contents rows
  have kept := Table.contents_foldl_delete_select db.bets.toTable fun bet =>
    decide (bet.marketId = marketId ∧ bet.memberId = memberId)
  rw [List.foldl_map] at kept
  rw [contents, existingBets]
  exact kept

/-- The old rows are deleted one by one, then the new ones inserted. -/
theorem allocation_table {marketId memberId : ℕ} {refund : List LedgerEntry} {bets : List Bet}
    {lock : LedgerEntry}
    (applied : applyWrites db (refund.map Write.insertLedger ++
      (existingBets db marketId memberId).map (fun row => Write.deleteBet row.1) ++
      bets.map Write.insertBet ++ [.insertLedger lock]) = .ok next) :
    next.bets.toTable = bets.foldl Table.insert
      (((existingBets db marketId memberId).map Prod.fst).foldl Table.delete db.bets.toTable) := by
  have rows := applyWrites_table applied .bets
  rw [List.foldl_append, List.foldl_append, List.foldl_append,
    foldl_on_of_ne (table_map refund (by simp [Write.table])),
    foldl_on_map (fun (rows : Table (Row .bets)) (row : ℕ × Bet) => rows.delete row.1)
      (fun _ _ => rfl),
    foldl_on_map (fun (rows : Table (Row .bets)) (row : Bet) => rows.insert row)
      (fun _ _ => rfl),
    foldl_on_of_ne (by simp [Write.table])] at rows
  rw [List.foldl_map]
  exact rows

/-- The old rows go, the new ones come at the end. -/
theorem allocation_bets {marketId memberId : ℕ} {refund : List LedgerEntry} {bets : List Bet}
    {lock : LedgerEntry}
    (applied : applyWrites db (refund.map Write.insertLedger ++
      (existingBets db marketId memberId).map (fun row => Write.deleteBet row.1) ++
      bets.map Write.insertBet ++ [.insertLedger lock]) = .ok next) :
    next.bets.contents = (db.bets.contents.filter fun bet =>
      !decide (bet.marketId = marketId ∧ bet.memberId = memberId)) ++ bets := by
  rw [allocation_table applied, contents_foldl_insert, existingBets,
    Table.contents_foldl_delete_select]

theorem Commits.bets (committed : Commits env db request writes)
    (applied : applyWrites db writes = .ok next) :
    BetsAfter env db request next.bets.contents := by
  have frame : .bets ∉ request.tables → BetsAfter env db request next.bets.contents := by
    intro untouched
    have same : next.bets.toTable = db.bets.toTable := committed.frame applied .bets untouched
    rw [same]
    exact .same rfl
  cases committed with
  | createMember | createFund | createMarket | closeMarket | createDecision | approveDecision
  | rejectDecision | resolveMarket | cancelMarket | syncFund =>
      exact frame (by simp [Request.tables])
  | putAllocation _ _ _ staked _ =>
      rw [allocation_bets applied]
      exact .allocated staked
  | settleMarket =>
      rw [settlement_bets applied]
      exact .same (core_showPayouts _ _)

end Bets

end FundPolymarket
