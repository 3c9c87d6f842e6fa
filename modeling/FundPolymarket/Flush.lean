import FundPolymarket.Models

set_option autoImplicit false

/- What a flush does to each table. Every statement addresses one table, so the
tables of a flushed state are folds over the statements. -/
namespace FundPolymarket

inductive TableName where
  | members
  | funds
  | positions
  | markets
  | bets
  | ledger
  | decisions
  | orders
  deriving DecidableEq

abbrev Row : TableName → Type
  | .members => Member
  | .funds => Fund
  | .positions => Position
  | .markets => Market
  | .bets => Bet
  | .ledger => LedgerEntry
  | .decisions => TradeDecision
  | .orders => Order

/-- A table of the database without its constraint. -/
def Db.table (db : Db) : (name : TableName) → Table (Row name)
  | .members => db.members.toTable
  | .funds => db.funds
  | .positions => db.positions.toTable
  | .markets => db.markets
  | .bets => db.bets.toTable
  | .ledger => db.ledger
  | .decisions => db.decisions
  | .orders => db.orders

namespace Write

/-- The table that a statement addresses. -/
def table : Write → TableName
  | .insertMember _ => .members
  | .insertFund _ => .funds
  | .insertMarket _ | .updateMarket _ _ => .markets
  | .insertBet _ | .deleteBet _ | .setPayout _ _ => .bets
  | .insertLedger _ => .ledger
  | .insertDecision _ | .updateDecision _ _ => .decisions
  | .insertOrder _ => .orders
  | .insertPosition _ | .setPosition _ _ _ _ => .positions

/-- The statement on a table, where it passes the constraint. -/
def on : Write → (name : TableName) → Table (Row name) → Table (Row name)
  | .insertMember row, .members, rows => rows.insert row
  | .insertFund row, .funds, rows => rows.insert row
  | .insertMarket row, .markets, rows => rows.insert row
  | .updateMarket id set, .markets, rows => rows.update id set
  | .insertBet row, .bets, rows => rows.insert row
  | .deleteBet id, .bets, rows => rows.delete id
  | .setPayout id payout, .bets, rows =>
      rows.update id fun bet => { bet with payout := some payout }
  | .insertLedger row, .ledger, rows => rows.insert row
  | .insertDecision row, .decisions, rows => rows.insert row
  | .updateDecision id set, .decisions, rows => rows.update id set
  | .insertOrder row, .orders, rows => rows.insert row
  | .insertPosition row, .positions, rows => rows.insert row
  | .setPosition id tickerName quantity avgPrice, .positions, rows =>
      rows.update id fun p => { p with tickerName, quantity, avgPrice }
  | _, _, rows => rows

theorem on_of_ne {write : Write} {name : TableName} (other : write.table ≠ name)
    (rows : Table (Row name)) : write.on name rows = rows := by
  cases write <;> cases name <;> first | rfl | exact absurd rfl other

/-- The row that a statement adds to a table. -/
def inserted : Write → (name : TableName) → Option (Row name)
  | .insertMember row, .members => some row
  | .insertFund row, .funds => some row
  | .insertMarket row, .markets => some row
  | .insertBet row, .bets => some row
  | .insertLedger row, .ledger => some row
  | .insertDecision row, .decisions => some row
  | .insertOrder row, .orders => some row
  | .insertPosition row, .positions => some row
  | _, _ => none

/-- Statements that no constraint can refuse. -/
def unconstrained : Write → Bool
  | .insertMember _ | .insertBet _ | .insertPosition _ => false
  | _ => true

end Write

/-- Tables whose rows are neither changed nor removed. -/
def TableName.appendOnly : TableName → Bool
  | .members | .funds | .ledger | .orders => true
  | _ => false

theorem applyWrite_table {db next : Db} {write : Write} (success : applyWrite db write = .ok next)
    (name : TableName) : next.table name = write.on name (db.table name) := by
  cases write with
  | insertMember row | insertBet row | insertPosition row =>
      obtain ⟨inserted, accepted, same⟩ := bind_eq_ok.mp success
      cases same
      have rows := UniqueTable.toTable_insert? (orRaise_eq_ok.mp accepted)
      cases name <;> first | rfl | exact rows
  | _ =>
      cases success
      cases name <;> rfl

theorem applyWrites_table {db final : Db} {writes : List Write}
    (success : applyWrites db writes = .ok final) (name : TableName) :
    final.table name = writes.foldl (fun rows write => write.on name rows) (db.table name) := by
  induction writes generalizing db with
  | nil =>
      cases success
      rfl
  | cons write writes ih =>
      obtain ⟨next, head, rest⟩ := applyWrites_cons_eq_ok.mp success
      rw [ih rest, applyWrite_table head, List.foldl_cons]

/-- What every statement of a flush keeps of a table. -/
theorem applyWrites_invariant {name : TableName} {P : Table (Row name) → Prop} {db final : Db}
    {writes : List Write} (kept : ∀ w ∈ writes, ∀ rows, P rows → P (w.on name rows))
    (success : applyWrites db writes = .ok final) (held : P (db.table name)) :
    P (final.table name) := by
  rw [applyWrites_table success]
  generalize db.table name = rows at held
  clear success
  induction writes generalizing rows with
  | nil => exact held
  | cons head tail ih =>
      exact ih (fun w member => kept w (List.mem_cons_of_mem _ member)) _
        (kept head List.mem_cons_self rows held)

theorem foldl_on_of_ne {writes : List Write} {name : TableName}
    (other : ∀ write ∈ writes, write.table ≠ name) (rows : Table (Row name)) :
    writes.foldl (fun rows write => write.on name rows) rows = rows := by
  induction writes with
  | nil => rfl
  | cons write writes ih =>
      rw [List.foldl_cons, Write.on_of_ne (other write (by simp))]
      exact ih fun write member => other write (by simp [member])

/-- A flush leaves the tables alone that it does not address. -/
theorem applyWrites_frame {db final : Db} {writes : List Write}
    (success : applyWrites db writes = .ok final) (name : TableName)
    (other : ∀ write ∈ writes, write.table ≠ name) : final.table name = db.table name := by
  rw [applyWrites_table success, foldl_on_of_ne other]

/-- The rows that a flush adds to a table. -/
def insertedRows (name : TableName) (writes : List Write) : List (Row name) :=
  writes.filterMap fun write => write.inserted name

theorem insertedRows_append (name : TableName) (first second : List Write) :
    insertedRows name (first ++ second) = insertedRows name first ++ insertedRows name second :=
  List.filterMap_append

theorem Write.contents_on {name : TableName} (appendOnly : name.appendOnly = true) (write : Write)
    (rows : Table (Row name)) :
    (write.on name rows).contents = rows.contents ++ (write.inserted name).toList := by
  cases write <;> cases name <;>
    first
    | exact (List.append_nil _).symm
    | exact Table.contents_insert _ _
    | cases appendOnly

/-- A flush only adds rows to an append-only table. -/
theorem applyWrites_contents {db final : Db} {writes : List Write}
    (success : applyWrites db writes = .ok final) (name : TableName)
    (appendOnly : name.appendOnly = true) :
    (final.table name).contents = (db.table name).contents ++ insertedRows name writes := by
  rw [applyWrites_table success]
  generalize db.table name = rows
  induction writes generalizing rows db with
  | nil => simp [insertedRows]
  | cons write writes ih =>
      obtain ⟨next, _, rest⟩ := applyWrites_cons_eq_ok.mp success
      rw [List.foldl_cons, ih rest, Write.contents_on appendOnly, List.append_assoc]
      congr 1
      cases added : write.inserted name <;> simp [insertedRows, added]

/-- Rows of new and distinct keys can all be inserted. -/
theorem applyWrites_insertAll {α κ : Type} [DecidableEq κ] {key : α → κ} {insert : α → Write}
    (column : Db → UniqueTable α key)
    (inserts : ∀ db value inserted, (column db).insert? value = some inserted →
      ∃ next, applyWrite db (insert value) = .ok next ∧ column next = inserted)
    {db : Db} {values : List α}
    (fresh : ∀ value ∈ values, ∀ old ∈ (column db).contents, key old ≠ key value)
    (distinct : (values.map key).Nodup) :
    ∃ next, applyWrites db (values.map insert) = .ok next := by
  induction values generalizing db with
  | nil => exact ⟨db, rfl⟩
  | cons value values ih =>
      rw [List.map_cons, List.nodup_cons] at distinct
      obtain ⟨inserted, insertOk⟩ := UniqueTable.exists_insert?
        fun old member => fresh value (by simp) old member
      obtain ⟨between, written, same⟩ := inserts db value inserted insertOk
      have stillFresh : ∀ other ∈ values, ∀ old ∈ (column between).contents,
          key old ≠ key other := by
        intro other member old oldMember
        rw [same, UniqueTable.contents_insert? insertOk] at oldMember
        rcases List.mem_append.mp oldMember with before | new
        · exact fresh other (List.mem_cons_of_mem _ member) old before
        · rw [List.mem_singleton.mp new]
          exact fun sameKey => distinct.1 (sameKey ▸ List.mem_map_of_mem member)
      obtain ⟨next, rest⟩ := ih stillFresh distinct.2
      exact ⟨next, applyWrites_cons_eq_ok.mpr ⟨between, written, rest⟩⟩

theorem applyWrites_unconstrained (db : Db) {writes : List Write}
    (unconstrained : ∀ write ∈ writes, write.unconstrained = true) :
    ∃ final, applyWrites db writes = .ok final := by
  induction writes generalizing db with
  | nil => exact ⟨db, rfl⟩
  | cons write writes ih =>
      obtain ⟨next, head⟩ : ∃ next, applyWrite db write = .ok next := by
        have free := unconstrained write (by simp)
        cases write with
        | insertMember row | insertBet row | insertPosition row => cases free
        | _ => exact ⟨_, rfl⟩
      obtain ⟨final, rest⟩ := ih next fun write member => unconstrained write (by simp [member])
      exact ⟨final, applyWrites_cons_eq_ok.mpr ⟨next, head, rest⟩⟩

end FundPolymarket
