import FundPolymarket.Accounts

set_option autoImplicit false

/- `sync_positions`: what the snapshot of a broker leaves in the positions of a fund. Of the
rows that a ticker has in the snapshot the last one counts where the position is known, and
every one is inserted where it is not. -/
namespace FundPolymarket

open Decimal (Numeric)

/-- The rows of a snapshot with one ticker. -/
def rowsOf (holdings : List HoldingItem) (ticker : String) : List HoldingItem :=
  holdings.filter fun h => h.ticker = ticker

theorem mem_rowsOf {holdings : List HoldingItem} {ticker : String} {h : HoldingItem} :
    h ∈ rowsOf holdings ticker ↔ h ∈ holdings ∧ h.ticker = ticker := by
  rw [rowsOf, List.mem_filter, decide_eq_true_eq]

theorem rowsOf_of_unseen {holdings : List HoldingItem} {ticker : String}
    (unseen : ¬ ∃ h ∈ holdings, h.ticker = ticker) : rowsOf holdings ticker = [] :=
  List.eq_nil_iff_forall_not_mem.mpr fun h row => unseen ⟨h, mem_rowsOf.mp row⟩

/-- What the broker holds of a ticker. -/
def totalQuantity (holdings : List HoldingItem) (ticker : String) : ℤ :=
  ((rowsOf holdings ticker).map HoldingItem.quantity).sum

/-- The last name of a ticker that is not empty. -/
def lastName (holdings : List HoldingItem) (ticker : String) : Option String :=
  (rowsOf holdings ticker).foldl (fun name h => nameOr h.name name) none

section Session

variable {existing : List (ℕ × Position)} {holdings : List HoldingItem}

/-- A loaded position that one holding is assigned to. -/
def Synced.assign (s : Synced) (h : HoldingItem) : Synced :=
  { s with
    tickerName := nameOr h.name s.tickerName, quantity := h.quantity, avgPrice := h.avgPrice }

/-- A position that is not on record yet. -/
def Synced.fresh (h : HoldingItem) : Synced :=
  ⟨none, h.ticker, nameOr h.name none, h.quantity, h.avgPrice⟩

def Synced.ofRow (row : ℕ × Position) : Synced :=
  ⟨some row.1, row.2.ticker, row.2.tickerName, row.2.quantity, row.2.avgPrice.val⟩

/-- Whether a position of the ticker was loaded. -/
def listed (existing : List (ℕ × Position)) (ticker : String) : Bool :=
  existing.any fun row => row.2.ticker = ticker

theorem ticker_foldl_assign (s : Synced) (rows : List HoldingItem) :
    (rows.foldl Synced.assign s).ticker = s.ticker ∧ (rows.foldl Synced.assign s).id = s.id := by
  induction rows generalizing s with
  | nil => exact ⟨rfl, rfl⟩
  | cons h rows ih => exact ih (s.assign h)

/-- The loop over the holdings: a loaded position takes its own rows one after the other,
and every other row adds a position. -/
theorem foldl_syncHolding {loaded added : List Synced}
    (known : ∀ s ∈ loaded, s.id.isSome = true ∧ listed existing s.ticker = true)
    (new : ∀ s ∈ added, s.id = none) :
    holdings.foldl (syncHolding existing) (loaded ++ added) =
      loaded.map (fun s => (rowsOf holdings s.ticker).foldl Synced.assign s) ++
        (added ++ (holdings.filter fun h => !listed existing h.ticker).map Synced.fresh) := by
  induction holdings generalizing loaded added with
  | nil => simp [rowsOf]
  | cons h holdings ih =>
      rw [List.foldl_cons]
      by_cases found : listed existing h.ticker = true
      · have step : syncHolding existing (loaded ++ added) h =
            loaded.map (fun s => if s.ticker = h.ticker then s.assign h else s) ++ added := by
          rw [syncHolding, ← listed, if_pos found, List.map_append]
          refine congrArg₂ (· ++ ·) (List.map_congr_left fun s member => ?_)
            ((List.map_congr_left fun s member => ?_).trans (List.map_id _))
          · simp only [(known s member).1, true_and]
            rfl
          · simp [new s member]
        rw [step, ih]
        · rw [List.map_map, List.filter_cons_of_neg (by simpa using found)]
          refine congrArg (· ++ _) (List.map_congr_left fun s member => ?_)
          by_cases same : s.ticker = h.ticker
          · have ticker : (s.assign h).ticker = s.ticker := rfl
            simp [same, rowsOf, ticker]
          · simp [same, Ne.symm same, rowsOf]
        · intro s member
          obtain ⟨old, oldMember, rfl⟩ := List.mem_map.mp member
          split
          · exact known old oldMember
          · exact known old oldMember
        · exact new
      · have step : syncHolding existing (loaded ++ added) h =
            loaded ++ (added ++ [Synced.fresh h]) := by
          rw [syncHolding, ← listed, if_neg found, List.append_assoc]
          rfl
        rw [step, ih known, List.filter_cons_of_pos (by simpa using found), List.map_cons,
          List.append_assoc]
        · refine congrArg₂ (· ++ ·) (List.map_congr_left fun s member => ?_) (by simp)
          have differs : h.ticker ≠ s.ticker := fun same => found (same ▸ (known s member).2)
          simp [rowsOf, differs]
        · intro s member
          rcases List.mem_append.mp member with old | fresh
          · exact new s old
          · rw [List.mem_singleton.mp fresh]
            rfl

theorem foldl_nameOr (rows : List HoldingItem) (start : Option String) :
    rows.foldl (fun name h => nameOr h.name name) start =
      (rows.foldl (fun name h => nameOr h.name name) none).or start := by
  have first : ∀ name start : Option String, nameOr name start = (nameOr name none).or start := by
    intro name start
    unfold nameOr
    split
    · cases name with
      | none => contradiction
      | some text => rfl
    · rfl
  induction rows generalizing start with
  | nil => rfl
  | cons h rows ih =>
      rw [List.foldl_cons, List.foldl_cons, ih, ih (nameOr h.name none), first h.name start,
        Option.or_assoc]

/-- The last row of a ticker is the one that counts; a position without rows is closed. -/
def Synced.settle (holdings : List HoldingItem) (s : Synced) : Synced :=
  match (rowsOf holdings s.ticker).getLast? with
  | none => { s with quantity := 0 }
  | some last =>
      { s with
        tickerName := (lastName holdings s.ticker).or s.tickerName
        quantity := last.quantity
        avgPrice := last.avgPrice }

theorem foldl_assign (s : Synced) {rows : List HoldingItem} {last : HoldingItem}
    (ends : rows.getLast? = some last) :
    rows.foldl Synced.assign s =
      { s with
        tickerName := (rows.foldl (fun name h => nameOr h.name name) none).or s.tickerName
        quantity := last.quantity
        avgPrice := last.avgPrice } := by
  have names : ∀ (rows : List HoldingItem) (s : Synced), (rows.foldl Synced.assign s).tickerName =
      rows.foldl (fun name h => nameOr h.name name) s.tickerName := by
    intro rows
    induction rows with
    | nil => exact fun _ => rfl
    | cons h rows ih => exact fun s => ih (s.assign h)
  obtain ⟨init, rfl⟩ := List.getLast?_eq_some_iff.mp ends
  rw [← foldl_nameOr, ← names, List.foldl_append, List.foldl_cons, List.foldl_nil]
  have same := ticker_foldl_assign s init
  rw [Synced.assign, same.1, same.2]

/-- The session after the loop and after the positions that were not seen are closed. -/
theorem zero_unseen {s : Synced} (loaded : s.id.isSome = true) :
    (let final := (rowsOf holdings s.ticker).foldl Synced.assign s
      if final.id.isSome ∧ final.ticker ∉ holdings.map HoldingItem.ticker then
        { final with quantity := 0 }
      else final) = s.settle holdings := by
  have same := ticker_foldl_assign s (rowsOf holdings s.ticker)
  dsimp only
  rw [same.1, same.2, Synced.settle]
  by_cases seen : s.ticker ∈ holdings.map HoldingItem.ticker
  · obtain ⟨h, member, ticker⟩ := List.mem_map.mp seen
    obtain ⟨last, ends⟩ := Option.isSome_iff_exists.mp
      (List.getLast?_isSome.mpr (List.ne_nil_of_mem (mem_rowsOf.mpr ⟨member, ticker⟩)))
    rw [if_neg (by simp [seen]), foldl_assign s ends, ends]
    rfl
  · have none : rowsOf holdings s.ticker = [] :=
      rowsOf_of_unseen fun ⟨h, row⟩ => seen (List.mem_map.mpr ⟨h, row⟩)
    rw [if_pos ⟨loaded, seen⟩, none]
    rfl

end Session

theorem stored_eq_ok {s : Synced} {st : Synced.Stored} :
    s.stored = .ok st ↔ s.tickerName.mapM (storeText 100) = .ok st.tickerName ∧
      storeInteger s.quantity = .ok st.quantity ∧ store 18 4 s.avgPrice = .ok st.avgPrice := by
  constructor
  · intro result
    obtain ⟨name, nameOk, rest⟩ := bind_eq_ok.mp result
    obtain ⟨quantity, quantityOk, rest⟩ := bind_eq_ok.mp rest
    obtain ⟨price, priceOk, same⟩ := bind_eq_ok.mp rest
    cases same
    exact ⟨nameOk, quantityOk, priceOk⟩
  · rintro ⟨nameOk, quantityOk, priceOk⟩
    exact bind_eq_ok.mpr ⟨_, nameOk, bind_eq_ok.mpr ⟨_, quantityOk, bind_eq_ok.mpr
      ⟨_, priceOk, rfl⟩⟩⟩

section Writes

variable {db next : Db} {fundId : ℕ} {broker : Broker} {snapshot : BalanceSnapshot}

/-- The rows of the snapshot whose tickers the fund has no position of. -/
def newHoldings (db : Db) (fundId : ℕ) (holdings : List HoldingItem) : List HoldingItem :=
  holdings.filter fun h => !listed (positionsOf db fundId) h.ticker

theorem listed_iff {ticker : String} :
    listed (positionsOf db fundId) ticker = true ↔
      ∃ row ∈ positionsOf db fundId, row.2.ticker = ticker := by
  simp [listed, List.any_eq_true]

/-- What a synchronisation writes: every known position as the snapshot has it, and then
the new ones. -/
theorem syncPositions_eq (answer : broker.getBalance = .ok snapshot) :
    syncPositions db fundId broker = (do
      let sets ← (positionsOf db fundId).mapM fun row =>
        syncedWrite fundId ((Synced.ofRow row).settle snapshot.holdings)
      let inserts ← (newHoldings db fundId snapshot.holdings).mapM fun h =>
        syncedWrite fundId (Synced.fresh h)
      pure (sets ++ inserts)) := by
  have known : ∀ s ∈ (positionsOf db fundId).map Synced.ofRow,
      s.id.isSome = true ∧ listed (positionsOf db fundId) s.ticker = true := by
    intro s member
    obtain ⟨row, rowMember, rfl⟩ := List.mem_map.mp member
    exact ⟨rfl, List.any_eq_true.mpr ⟨row, rowMember, decide_eq_true rfl⟩⟩
  have session := @foldl_syncHolding (positionsOf db fundId) snapshot.holdings _ [] known (by simp)
  rw [List.append_nil, List.nil_append] at session
  have settled : (snapshot.holdings.foldl (syncHolding (positionsOf db fundId))
      ((positionsOf db fundId).map Synced.ofRow)).map (fun s =>
        if s.id.isSome ∧ s.ticker ∉ snapshot.holdings.map HoldingItem.ticker then
          { s with quantity := 0 }
        else s) =
      ((positionsOf db fundId).map fun row => (Synced.ofRow row).settle snapshot.holdings) ++
        (newHoldings db fundId snapshot.holdings).map Synced.fresh := by
    rw [session, List.map_append, List.map_map, List.map_map]
    refine congrArg₂ (· ++ ·) (List.map_congr_left fun row _ => zero_unseen rfl)
      ((List.map_congr_left fun s member => ?_).trans (List.map_id _))
    obtain ⟨h, _, rfl⟩ := List.mem_map.mp member
    rfl
  rw [syncPositions, answer]
  refine (congrArg (List.mapM (syncedWrite fundId)) settled).trans ?_
  rw [List.mapM_append, List.mapM_map, List.mapM_map]
  rfl

/-- The columns of a position are overwritten. -/
def Position.set (p : Position) (st : Synced.Stored) : Position :=
  { p with tickerName := st.tickerName, quantity := st.quantity, avgPrice := st.avgPrice }

/-- What becomes of a row when its fund is synchronised. -/
def settledRow (fundId : ℕ) (holdings : List HoldingItem) (row : ℕ × Position) : Position :=
  if row.2.fundId = fundId then
    match ((Synced.ofRow row).settle holdings).stored with
    | .ok st => row.2.set st
    | .error _ => row.2
  else row.2

/-- A row of the snapshot and the position that it adds. -/
structure Adds (fundId : ℕ) (h : HoldingItem) (p : Position) : Prop where
  fundId_eq : p.fundId = fundId
  ticker : storeText 20 h.ticker = .ok p.ticker
  stored : (Synced.fresh h).stored = .ok ⟨p.tickerName, p.quantity, p.avgPrice⟩

theorem syncedWrite_settle {holdings : List HoldingItem} {row : ℕ × Position} {st : Synced.Stored}
    (stored : ((Synced.ofRow row).settle holdings).stored = .ok st) :
    syncedWrite fundId ((Synced.ofRow row).settle holdings) =
      .ok (.setPosition row.1 st.tickerName st.quantity st.avgPrice) := by
  have id : ((Synced.ofRow row).settle holdings).id = some row.1 := by
    rw [Synced.settle]
    split <;> rfl
  exact bind_eq_ok.mpr ⟨st, stored, by rw [id]; rfl⟩

theorem sets_eq_ok {holdings : List HoldingItem} {sets : List Write}
    (written : ((positionsOf db fundId).mapM fun row =>
      syncedWrite fundId ((Synced.ofRow row).settle holdings)) = .ok sets) :
    ∃ updates : List (ℕ × Synced.Stored),
      List.Forall₂ (fun row update => update.1 = row.1 ∧
        ((Synced.ofRow row).settle holdings).stored = .ok update.2)
          (positionsOf db fundId) updates ∧
      sets = updates.map fun update => .setPosition update.1 update.2.tickerName
        update.2.quantity update.2.avgPrice := by
  refine forall₂_exists_map ((mapM_forall₂ written).imp fun row write result => ?_)
  obtain ⟨st, stored, _⟩ := bind_eq_ok.mp result
  rw [syncedWrite_settle stored] at result
  exact ⟨(row.1, st), ⟨rfl, stored⟩, (Except.ok.inj result).symm⟩

theorem inserts_eq_ok {holdings : List HoldingItem} {inserts : List Write}
    (written : (newHoldings db fundId holdings).mapM (fun h =>
      syncedWrite fundId (Synced.fresh h)) = .ok inserts) :
    ∃ added, List.Forall₂ (Adds fundId) (newHoldings db fundId holdings) added ∧
      inserts = added.map Write.insertPosition := by
  refine forall₂_exists_map ((mapM_forall₂ written).imp fun h write result => ?_)
  obtain ⟨st, stored, rest⟩ := bind_eq_ok.mp result
  obtain ⟨ticker, tickerOk, same⟩ := bind_eq_ok.mp rest
  cases same
  exact ⟨⟨fundId, ticker, st.tickerName, st.quantity, st.avgPrice⟩, ⟨rfl, tickerOk, stored⟩, rfl⟩

/-- The known positions are overwritten in place. -/
theorem rows_sets {holdings : List HoldingItem} {updates : List (ℕ × Synced.Stored)}
    (related : List.Forall₂ (fun row update => update.1 = row.1 ∧
      ((Synced.ofRow row).settle holdings).stored = .ok update.2) (positionsOf db fundId) updates) :
    (updates.foldl (fun (rows : Table Position) update =>
      rows.update update.1 fun p => p.set update.2) db.positions.toTable).rows =
        db.positions.rows.map fun row => (row.1, settledRow fundId holdings row) := by
  have ids : updates.map Prod.fst = (positionsOf db fundId).map Prod.fst :=
    forall₂_map_eq related fun row _ update facts => facts.1
  have distinct : (updates.map Prod.fst).Nodup :=
    ids ▸ db.positions.distinct.sublist (List.filter_sublist.map _)
  rw [@Table.rows_foldl_update _ _ (fun st (p : Position) => p.set st) _ distinct]
  refine List.map_congr_left fun row member => ?_
  rw [settledRow]
  by_cases mine : row.2.fundId = fundId
  · have selected : row ∈ positionsOf db fundId := List.mem_filter.mpr ⟨member, by simpa using mine⟩
    obtain ⟨update, listed, sameId, stored⟩ := forall₂_exists_left related.flip selected
    rw [← sameId, find?_of_key distinct listed, if_pos mine, stored]
    rfl
  · have absent : updates.find? (fun other => other.1 = row.1) = none := by
      rw [List.find?_eq_none]
      intro update listed sameId
      have key := @List.mem_map_of_mem _ _ _ _ Prod.fst listed
      rw [of_decide_eq_true sameId, ids] at key
      obtain ⟨other, selected, otherId⟩ := List.mem_map.mp key
      have same : other = row := List.inj_on_of_nodup_map db.positions.distinct
        (List.mem_of_mem_filter selected) member otherId
      exact mine (by simpa [same] using (List.mem_filter.mp selected).2)
    rw [absent, if_neg mine]
    rfl

theorem contents_sets {holdings : List HoldingItem} {updates : List (ℕ × Synced.Stored)}
    (related : List.Forall₂ (fun row update => update.1 = row.1 ∧
      ((Synced.ofRow row).settle holdings).stored = .ok update.2) (positionsOf db fundId) updates)
    (applied : applyWrites db (updates.map fun update =>
      .setPosition update.1 update.2.tickerName update.2.quantity update.2.avgPrice) = .ok next) :
    next.positions.contents = db.positions.rows.map (settledRow fundId holdings) := by
  have rows := applyWrites_table applied .positions
  rw [foldl_on_map (fun (rows : Table (Row .positions)) (update : ℕ × Synced.Stored) =>
    rows.update update.1 fun p : Position => p.set update.2) (fun _ _ => rfl)] at rows
  have table : next.positions.toTable = updates.foldl (fun (rows : Table Position) update =>
      rows.update update.1 fun p => p.set update.2) db.positions.toTable := rows
  rw [Table.contents, table, rows_sets related, List.map_map]
  rfl

/-- `sync_positions` up to its flush. -/
def synced (db : Db) (fundId : ℕ) (broker : Broker) : Except AppError Db := do
  let writes ← syncPositions db fundId broker
  applyWrites db writes

/-- What a synchronisation that succeeds has done. -/
structure SyncedTo (db next : Db) (fundId : ℕ) (holdings : List HoldingItem)
    (added : List Position) : Prop where
  storable : ∀ row ∈ positionsOf db fundId,
    ∃ st, ((Synced.ofRow row).settle holdings).stored = .ok st
  adds : List.Forall₂ (Adds fundId) (newHoldings db fundId holdings) added
  contents : next.positions.contents =
    db.positions.rows.map (settledRow fundId holdings) ++ added
  others : next.positions.select (fun p => p.fundId ≠ fundId) =
    db.positions.select fun p => p.fundId ≠ fundId

theorem settledRow_key (fundId : ℕ) (holdings : List HoldingItem) (row : ℕ × Position) :
    (settledRow fundId holdings row).fundId = row.2.fundId ∧
      (settledRow fundId holdings row).ticker = row.2.ticker := by
  unfold settledRow
  split
  · split <;> exact ⟨rfl, rfl⟩
  · exact ⟨rfl, rfl⟩

theorem synced_eq_ok (answer : broker.getBalance = .ok snapshot)
    (success : synced db fundId broker = .ok next) :
    ∃ added, SyncedTo db next fundId snapshot.holdings added := by
  obtain ⟨writes, written, applied⟩ := bind_eq_ok.mp success
  rw [syncPositions_eq answer] at written
  obtain ⟨sets, setsOk, rest⟩ := bind_eq_ok.mp written
  obtain ⟨inserts, insertsOk, same⟩ := bind_eq_ok.mp rest
  cases same
  obtain ⟨updates, related, rfl⟩ := sets_eq_ok setsOk
  obtain ⟨added, adds, rfl⟩ := inserts_eq_ok insertsOk
  have table : next.positions.toTable = added.foldl Table.insert
      (updates.foldl (fun (rows : Table Position) update =>
        rows.update update.1 fun p => p.set update.2) db.positions.toTable) := by
    have rows := applyWrites_table applied .positions
    rw [List.foldl_append,
      foldl_on_map (fun (rows : Table (Row .positions)) (update : ℕ × Synced.Stored) =>
        rows.update update.1 fun p : Position => p.set update.2) (fun _ _ => rfl),
      foldl_on_map (fun (rows : Table (Row .positions)) (p : Position) => rows.insert p)
        (fun _ _ => rfl)] at rows
    exact rows
  have settled := rows_sets related
  refine ⟨added, fun row member => ?_, adds, ?_, ?_⟩
  · obtain ⟨update, _, _, stored⟩ := forall₂_exists_left related.flip member
    exact ⟨update.2, stored⟩
  · rw [table, contents_foldl_insert, Table.contents, settled, List.map_map]
    rfl
  · have theirs : ∀ p ∈ added, decide (p.fundId ≠ fundId) = false := by
      intro p member
      obtain ⟨h, _, adding⟩ := forall₂_exists_left adds member
      simp [adding.fundId_eq]
    rw [Table.select, table, Table.rows_foldl_insert theirs, settled, List.filter_map, Table.select]
    have kept : ((fun row : ℕ × Position => decide (row.2.fundId ≠ fundId)) ∘
        fun row => (row.1, settledRow fundId snapshot.holdings row)) =
          fun row => decide (row.2.fundId ≠ fundId) := by
      funext row
      simp only [Function.comp_apply, (settledRow_key fundId snapshot.holdings row).1]
    rw [kept]
    refine (List.map_congr_left fun row member => ?_).trans (List.map_id _)
    have other : row.2.fundId ≠ fundId := by simpa using (List.mem_filter.mp member).2
    rw [settledRow, if_neg other]
    rfl

/-- A position has the quantity of its own row. -/
theorem positionQuantity_of_mem {p : Position} (member : p ∈ db.positions.contents) :
    positionQuantity db p.fundId p.ticker = p.quantity := by
  have alone : ∀ other ∈ db.positions.contents, other.fundId = p.fundId ∧ other.ticker = p.ticker →
      other = p := by
    intro other listed same
    exact List.inj_on_of_nodup_map db.positions.contents_unique listed member
      (Prod.ext same.1 same.2)
  obtain ⟨found, search⟩ : ∃ found, db.positions.contents.find? (fun other =>
      other.fundId = p.fundId ∧ other.ticker = p.ticker) = some found :=
    Option.isSome_iff_exists.mp (List.find?_isSome.mpr ⟨p, member, by simp⟩)
  have key := List.find?_some search
  rw [decide_eq_true_eq] at key
  rw [positionQuantity, search, alone found (List.mem_of_find?_eq_some search) key]

theorem positionQuantity_of_absent {ticker : String}
    (absent : ∀ p ∈ db.positions.contents, p.fundId = fundId → p.ticker ≠ ticker) :
    positionQuantity db fundId ticker = 0 := by
  have none : db.positions.contents.find? (fun p => p.fundId = fundId ∧ p.ticker = ticker) =
      none := by
    rw [List.find?_eq_none]
    intro p member same
    rw [decide_eq_true_eq] at same
    exact absent p member same.1 same.2
  rw [positionQuantity, none]

end Writes

end FundPolymarket
