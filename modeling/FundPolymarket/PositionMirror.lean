import FundPolymarket.PositionSync

set_option autoImplicit false

/- When the positions of a fund mirror its broker after a synchronisation, and a second one
changes nothing: exactly where every ticker of the snapshot is decided by one row that its
columns can hold. -/
namespace FundPolymarket

open Decimal (Numeric)

section Settled

variable {holdings : List HoldingItem}

/-- The quantity of the last row of a ticker. -/
def lastQuantity (holdings : List HoldingItem) (ticker : String) : ℤ :=
  match (rowsOf holdings ticker).getLast? with
  | some last => last.quantity
  | none => 0

/-- A position as the snapshot has it: a synchronisation writes what is there. -/
def Position.Settled (holdings : List HoldingItem) (p : Position) : Prop :=
  ∀ id, ((Synced.ofRow (id, p)).settle holdings).stored =
    .ok ⟨p.tickerName, p.quantity, p.avgPrice⟩

/-- A name that was stored is stored again in the same way. -/
theorem storeName_again {limit : ℕ} {name fallback kept : Option String}
    (result : (name.or fallback).mapM (storeText limit) = .ok kept) :
    (name.or kept).mapM (storeText limit) = .ok kept := by
  cases name with
  | some text => exact result
  | none =>
      rw [Option.none_or] at result ⊢
      rcases storeName_eq_ok.mp result with ⟨_, rfl⟩ | ⟨text, stored, _, rfl, storedOk⟩
      · rfl
      · have again := (storeText_fits storedOk).unchanged
        exact storeName_eq_ok.mpr (.inr ⟨stored, stored, rfl, rfl, again⟩)

/-- Once its values are stored, a position is settled. -/
theorem settled_of_stored {s : Synced} {p : Position} (ticker : p.ticker = s.ticker)
    (stored : (s.settle holdings).stored = .ok ⟨p.tickerName, p.quantity, p.avgPrice⟩) :
    p.Settled holdings := by
  intro id
  have price : store 18 4 p.avgPrice.val = .ok p.avgPrice :=
    orRaise_eq_ok.mpr (Numeric.ofDecimal_val p.avgPrice)
  rw [Synced.settle] at stored ⊢
  rw [show (Synced.ofRow (id, p)).ticker = s.ticker from ticker]
  cases ends : (rowsOf holdings s.ticker).getLast? with
  | none =>
      rw [ends] at stored
      obtain ⟨nameOk, quantityOk, _⟩ := stored_eq_ok.mp stored
      exact stored_eq_ok.mpr ⟨@storeName_again _ none _ _ nameOk, quantityOk, price⟩
  | some last =>
      rw [ends] at stored
      obtain ⟨nameOk, quantityOk, priceOk⟩ := stored_eq_ok.mp stored
      exact stored_eq_ok.mpr ⟨storeName_again nameOk, quantityOk, priceOk⟩

theorem Position.Settled.quantity_eq {p : Position} (settled : p.Settled holdings) :
    p.quantity = lastQuantity holdings p.ticker := by
  have stored := settled 0
  rw [Synced.settle, show (Synced.ofRow (0, p)).ticker = p.ticker from rfl] at stored
  rw [lastQuantity]
  cases ends : (rowsOf holdings p.ticker).getLast? with
  | none =>
      rw [ends] at stored
      exact (storeInteger_eq_ok.mp (stored_eq_ok.mp stored).2.1).2
  | some last =>
      rw [ends] at stored
      exact (storeInteger_eq_ok.mp (stored_eq_ok.mp stored).2.1).2

theorem settledRow_settled {fundId : ℕ} {row : ℕ × Position} (mine : row.2.fundId = fundId)
    {st : Synced.Stored} (stored : ((Synced.ofRow row).settle holdings).stored = .ok st) :
    (settledRow fundId holdings row).Settled holdings := by
  have set : settledRow fundId holdings row = row.2.set st := by
    rw [settledRow, if_pos mine, stored]
  rw [set]
  exact settled_of_stored rfl stored

theorem settle_fresh {h : HoldingItem} (once : rowsOf holdings h.ticker = [h]) :
    (Synced.fresh h).settle holdings = Synced.fresh h := by
  rw [Synced.settle, lastName, show (Synced.fresh h).ticker = h.ticker from rfl, once]
  simp [Synced.fresh]

/-- A ticker that comes once is settled by the position that it adds. -/
theorem Adds.settled {fundId : ℕ} {h : HoldingItem} {p : Position} (adds : Adds fundId h p)
    (ticker : p.ticker = h.ticker) (once : rowsOf holdings h.ticker = [h]) :
    p.Settled holdings := by
  refine settled_of_stored (s := Synced.fresh h) ticker ?_
  rw [settle_fresh once]
  exact adds.stored

end Settled

section Again

variable {db next : Db} {fundId : ℕ} {broker : Broker} {snapshot : BalanceSnapshot}

/-- A settled position is overwritten with itself. -/
theorem applyWrite_setPosition {row : ℕ × Position} (member : row ∈ positionsOf db fundId) :
    applyWrite db (.setPosition row.1 row.2.tickerName row.2.quantity row.2.avgPrice) = .ok db := by
  have found : db.positions.get? row.1 = some row.2 :=
    (db.positions.mem_rows_iff row.1 row.2).mp (List.mem_of_mem_filter member)
  refine congrArg Except.ok ?_
  have same := @UniqueTable.update_of_same _ _ (fun p : Position => (p.fundId, p.ticker))
    db.positions row.1
    (fun p => { p with
      tickerName := row.2.tickerName, quantity := row.2.quantity, avgPrice := row.2.avgPrice })
    (fun _ => rfl) (fun p other => by rw [found] at other; cases other; rfl)
  cases db
  exact congrArg (fun positions => Db.mk _ _ positions _ _ _ _ _) same

/-- Where every position is settled and no ticker is new, nothing changes. -/
theorem synced_of_settled (answer : broker.getBalance = .ok snapshot)
    (settled : ∀ row ∈ positionsOf db fundId, row.2.Settled snapshot.holdings)
    (known : ∀ h ∈ snapshot.holdings, listed (positionsOf db fundId) h.ticker = true) :
    synced db fundId broker = .ok db := by
  have none : newHoldings db fundId snapshot.holdings = [] := by
    rw [newHoldings, List.filter_eq_nil_iff]
    intro h member
    simp [known h member]
  have sets := @mapM_eq_map AppError _ _ (fun row : ℕ × Position =>
      syncedWrite fundId ((Synced.ofRow row).settle snapshot.holdings))
    (fun row => .setPosition row.1 row.2.tickerName row.2.quantity row.2.avgPrice)
    (positionsOf db fundId) fun row member => syncedWrite_settle (settled row member row.1)
  have writes : syncPositions db fundId broker = .ok ((positionsOf db fundId).map fun row =>
      .setPosition row.1 row.2.tickerName row.2.quantity row.2.avgPrice) := by
    rw [syncPositions_eq answer, none]
    exact bind_eq_ok.mpr ⟨_, sets, bind_eq_ok.mpr ⟨[], rfl, by rw [List.append_nil]; rfl⟩⟩
  refine bind_eq_ok.mpr ⟨_, writes, applyWrites_of_same fun write member => ?_⟩
  obtain ⟨row, listed, rfl⟩ := List.mem_map.mp member
  exact applyWrite_setPosition listed

/-- A synchronisation that changes nothing has added nothing. -/
theorem known_of_synced (answer : broker.getBalance = .ok snapshot)
    (again : synced db fundId broker = .ok db) :
    ∀ h ∈ snapshot.holdings, listed (positionsOf db fundId) h.ticker = true := by
  obtain ⟨added, done⟩ := synced_eq_ok answer again
  have lengths := congrArg List.length done.contents
  rw [List.length_append, List.length_map, Table.contents, List.length_map] at lengths
  have nothing : added = [] := List.length_eq_zero_iff.mp (by omega)
  have adds := done.adds
  rw [nothing, List.forall₂_nil_right_iff, newHoldings, List.filter_eq_nil_iff] at adds
  intro h member
  simpa using adds h member

end Again

section Rows

variable {holdings : List HoldingItem} {ticker : String}

theorem getLast?_rowsOf {h : HoldingItem} (member : h ∈ holdings) :
    ∃ last, (rowsOf holdings h.ticker).getLast? = some last :=
  Option.isSome_iff_exists.mp (List.getLast?_isSome.mpr
    (List.ne_nil_of_mem (mem_rowsOf.mpr ⟨member, rfl⟩)))

theorem length_rowsOf (holdings : List HoldingItem) (ticker : String) :
    (rowsOf holdings ticker).length = (holdings.map HoldingItem.ticker).count ticker := by
  rw [rowsOf, List.count, List.countP_map, List.countP_eq_length_filter]
  congr 1

theorem rowsOf_of_once {h : HoldingItem} (member : h ∈ holdings)
    (once : (rowsOf holdings h.ticker).length ≤ 1) : rowsOf holdings h.ticker = [h] := by
  have listed := mem_rowsOf.mpr ⟨member, rfl⟩
  obtain ⟨only, alone⟩ := List.length_eq_one_iff.mp
    (le_antisymm once (List.length_pos_of_mem listed))
  rw [alone, List.mem_singleton] at listed
  rw [alone, listed]

/-- The values of a position that the snapshot lists can be stored if the last ones can. -/
theorem exists_stored_settle {s : Synced} {h : HoldingItem} (member : h ∈ holdings)
    (same : h.ticker = s.ticker) :
    (∃ st, (s.settle holdings).stored = .ok st) ↔
      (∃ kept, ((lastName holdings h.ticker).or s.tickerName).mapM (storeText 100) = .ok kept) ∧
        (-2 ^ 31 ≤ lastQuantity holdings h.ticker ∧ lastQuantity holdings h.ticker < 2 ^ 31) ∧
        ∀ last ∈ (rowsOf holdings h.ticker).getLast?,
          (Numeric.ofDecimal 18 4 last.avgPrice).isSome = true := by
  obtain ⟨last, ends⟩ := getLast?_rowsOf member
  rw [Synced.settle, ← same, lastQuantity, ends]
  constructor
  · rintro ⟨st, stored⟩
    obtain ⟨nameOk, quantityOk, priceOk⟩ := stored_eq_ok.mp stored
    refine ⟨⟨_, nameOk⟩, (storeInteger_eq_ok.mp quantityOk).1, fun other same => ?_⟩
    cases same
    rw [orRaise_eq_ok.mp priceOk]
    rfl
  · rintro ⟨⟨kept, nameOk⟩, within, priced⟩
    obtain ⟨price, priceOk⟩ := Option.isSome_iff_exists.mp (priced last rfl)
    exact ⟨⟨kept, last.quantity, price⟩, stored_eq_ok.mpr ⟨nameOk,
      storeInteger_eq_ok.mpr ⟨within, rfl⟩, orRaise_eq_ok.mpr priceOk⟩⟩

end Rows

section Mirror

variable {db next : Db} {fundId : ℕ} {broker : Broker} {snapshot : BalanceSnapshot}

/-- A row that the columns of its table can hold. -/
structure Position.Fits (p : Position) : Prop where
  ticker : FitsText 20 p.ticker
  tickerName : ∀ name ∈ p.tickerName, FitsText 100 name
  quantity : -2 ^ 31 ≤ p.quantity ∧ p.quantity < 2 ^ 31

def PositionsFit (db : Db) : Prop := ∀ p ∈ db.positions.contents, p.Fits

/-- The local positions of a fund are those of the snapshot. -/
structure Mirrors (db next : Db) (fundId : ℕ) (holdings : List HoldingItem) : Prop where
  quantities : ∀ ticker, positionQuantity next fundId ticker = totalQuantity holdings ticker
  others : next.positions.select (fun p => p.fundId ≠ fundId) =
    db.positions.select fun p => p.fundId ≠ fundId
  unique : ((positionsOf next fundId).map fun row => row.2.ticker).Nodup

/-- A ticker without a position comes once, the last row of one with a position has the whole
quantity, and the columns can hold what counts in the end. -/
structure Mirrorable (db : Db) (fundId : ℕ) (holdings : List HoldingItem) : Prop where
  once : ∀ h ∈ holdings, listed (positionsOf db fundId) h.ticker = false →
    (rowsOf holdings h.ticker).length ≤ 1
  whole : ∀ h ∈ holdings, listed (positionsOf db fundId) h.ticker = true →
    lastQuantity holdings h.ticker = totalQuantity holdings h.ticker
  ticker : ∀ h ∈ holdings, listed (positionsOf db fundId) h.ticker = false → FitsText 20 h.ticker
  name : ∀ h ∈ holdings, ∀ name ∈ lastName holdings h.ticker, StorableText 100 name
  quantity : ∀ h ∈ holdings,
    -2 ^ 31 ≤ lastQuantity holdings h.ticker ∧ lastQuantity holdings h.ticker < 2 ^ 31
  price : ∀ h ∈ holdings, ∀ last ∈ (rowsOf holdings h.ticker).getLast?,
    (Numeric.ofDecimal 18 4 last.avgPrice).isSome = true

/-- Of positive quantities, the last one is the whole only where it is the only one. -/
theorem lastQuantity_eq_total_iff {holdings : List HoldingItem}
    (positive : ∀ h ∈ holdings, 0 < h.quantity) (ticker : String) :
    lastQuantity holdings ticker = totalQuantity holdings ticker ↔
      (rowsOf holdings ticker).length ≤ 1 := by
  rw [lastQuantity, totalQuantity]
  have rows : ∀ h ∈ rowsOf holdings ticker, 0 < h.quantity :=
    fun h member => positive h (mem_rowsOf.mp member).1
  cases ends : (rowsOf holdings ticker).getLast? with
  | none => simp [List.getLast?_eq_none_iff.mp ends]
  | some last =>
      obtain ⟨init, split⟩ := List.getLast?_eq_some_iff.mp ends
      rw [split] at rows ⊢
      rw [List.map_append, List.sum_append, List.length_append]
      cases init with
      | nil => simp
      | cons h init =>
          have first := rows h (by simp)
          have rest : 0 ≤ (init.map HoldingItem.quantity).sum := by
            refine List.sum_nonneg fun q member => ?_
            obtain ⟨other, listed, rfl⟩ := List.mem_map.mp member
            exact (rows other (by simp [listed])).le
          simp only [List.map_cons, List.sum_cons, List.map_nil, List.sum_nil, List.length_cons,
            List.length_nil]
          omega

/-- For a snapshot of the adapter, whose quantities are positive, the first two conditions say
that no ticker comes twice. -/
theorem once_and_whole_iff {holdings : List HoldingItem}
    (positive : ∀ h ∈ holdings, 0 < h.quantity) :
    (∀ h ∈ holdings,
        (listed (positionsOf db fundId) h.ticker = false → (rowsOf holdings h.ticker).length ≤ 1) ∧
        (listed (positionsOf db fundId) h.ticker = true →
          lastQuantity holdings h.ticker = totalQuantity holdings h.ticker)) ↔
      (holdings.map HoldingItem.ticker).Nodup := by
  simp only [lastQuantity_eq_total_iff positive, List.nodup_iff_count_le_one, ← length_rowsOf]
  constructor
  · intro once ticker
    by_cases seen : ∃ h ∈ holdings, h.ticker = ticker
    · obtain ⟨h, member, rfl⟩ := seen
      cases found : listed (positionsOf db fundId) h.ticker with
      | false => exact (once h member).1 found
      | true => exact (once h member).2 found
    · simp [rowsOf_of_unseen seen]
  · exact fun once h _ => ⟨fun _ => once h.ticker, fun _ => once h.ticker⟩

theorem storeName_of_holds {name : Option String}
    (storable : ∀ text ∈ name, StorableText 100 text) :
    ∃ kept, name.mapM (storeText 100) = .ok kept := by
  cases name with
  | none => exact ⟨none, rfl⟩
  | some text =>
      have stored := storeText_eq_ok.mpr ⟨storable text rfl, rfl⟩
      exact ⟨_, storeName_eq_ok.mpr (.inr ⟨text, _, rfl, rfl, stored⟩)⟩

namespace Mirrorable

/-- Every position of the fund can be written. -/
theorem storable (mirrorable : Mirrorable db fundId snapshot.holdings) (fits : PositionsFit db)
    {row : ℕ × Position} (member : row ∈ positionsOf db fundId) :
    ∃ st, ((Synced.ofRow row).settle snapshot.holdings).stored = .ok st := by
  have old := fits row.2 (List.mem_map_of_mem (List.mem_of_mem_filter member))
  have oldName : ∀ name ∈ row.2.tickerName, StorableText 100 name :=
    fun name found => (old.tickerName name found).storable
  by_cases seen : ∃ h ∈ snapshot.holdings, h.ticker = row.2.ticker
  · obtain ⟨h, hMember, ticker⟩ := seen
    refine (exists_stored_settle hMember ticker).mpr ⟨storeName_of_holds fun text found => ?_,
      mirrorable.quantity h hMember, mirrorable.price h hMember⟩
    rcases Option.or_eq_some_iff.mp found with last | ⟨_, kept⟩
    · exact mirrorable.name h hMember text last
    · exact oldName text kept
  · have none : rowsOf snapshot.holdings row.2.ticker = [] := rowsOf_of_unseen seen
    obtain ⟨kept, nameOk⟩ := storeName_of_holds oldName
    rw [Synced.settle, show (Synced.ofRow row).ticker = row.2.ticker from rfl, none]
    exact ⟨⟨kept, 0, row.2.avgPrice⟩, stored_eq_ok.mpr ⟨nameOk, rfl,
      orRaise_eq_ok.mpr (Numeric.ofDecimal_val row.2.avgPrice)⟩⟩

theorem rowsOf_new (mirrorable : Mirrorable db fundId snapshot.holdings) {h : HoldingItem}
    (member : h ∈ newHoldings db fundId snapshot.holdings) :
    rowsOf snapshot.holdings h.ticker = [h] := by
  obtain ⟨listedIn, isNew⟩ := List.mem_filter.mp member
  exact rowsOf_of_once listedIn (mirrorable.once h listedIn (by simpa using isNew))

/-- Every new row of the snapshot can be inserted under its own ticker. -/
theorem addable (mirrorable : Mirrorable db fundId snapshot.holdings) {h : HoldingItem}
    (member : h ∈ newHoldings db fundId snapshot.holdings) :
    ∃ p, syncedWrite fundId (Synced.fresh h) = .ok (.insertPosition p) ∧ p.fundId = fundId ∧
      p.ticker = h.ticker := by
  have once := mirrorable.rowsOf_new member
  obtain ⟨listedIn, isNew⟩ := List.mem_filter.mp member
  have stores := @exists_stored_settle snapshot.holdings (Synced.fresh h) h listedIn rfl
  have names : ∀ text ∈ (lastName snapshot.holdings h.ticker).or (Synced.fresh h).tickerName,
      StorableText 100 text := by
    have own : lastName snapshot.holdings h.ticker = nameOr h.name none := by
      rw [lastName, once]
      rfl
    intro text found
    rw [own, show (Synced.fresh h).tickerName = nameOr h.name none from rfl,
      Option.or_self] at found
    exact mirrorable.name h listedIn text (own ▸ found)
  rw [settle_fresh once] at stores
  obtain ⟨st, stored⟩ := stores.mpr ⟨storeName_of_holds names, mirrorable.quantity h listedIn,
    mirrorable.price h listedIn⟩
  have ticker := (mirrorable.ticker h listedIn (by simpa using isNew)).unchanged
  exact ⟨⟨fundId, h.ticker, st.tickerName, st.quantity, st.avgPrice⟩,
    bind_eq_ok.mpr ⟨st, stored, bind_eq_ok.mpr ⟨h.ticker, ticker, rfl⟩⟩, rfl, rfl⟩

theorem ticker_of_adds (mirrorable : Mirrorable db fundId snapshot.holdings) {h : HoldingItem}
    (member : h ∈ newHoldings db fundId snapshot.holdings) {p : Position}
    (adds : Adds fundId h p) : p.ticker = h.ticker := by
  obtain ⟨listedIn, isNew⟩ := List.mem_filter.mp member
  have ticker := adds.ticker
  rw [(mirrorable.ticker h listedIn (by simpa using isNew)).unchanged] at ticker
  exact (Except.ok.inj ticker).symm

/-- The tickers of the new rows differ. -/
theorem new_tickers_nodup (mirrorable : Mirrorable db fundId snapshot.holdings) :
    ((newHoldings db fundId snapshot.holdings).map HoldingItem.ticker).Nodup := by
  rw [List.nodup_iff_count_le_one]
  intro ticker
  by_cases new : ticker ∈ (newHoldings db fundId snapshot.holdings).map HoldingItem.ticker
  · obtain ⟨h, member, rfl⟩ := List.mem_map.mp new
    have once := mirrorable.rowsOf_new member
    rw [← length_rowsOf, ← List.length_singleton (a := h), ← once]
    exact (List.filter_sublist.filter _).length_le
  · rw [List.count_eq_zero_of_not_mem new]
    exact Nat.zero_le 1

/-- The whole synchronisation can be flushed. -/
theorem exists_synced (mirrorable : Mirrorable db fundId snapshot.holdings)
    (fits : PositionsFit db) (answer : broker.getBalance = .ok snapshot) :
    ∃ next, synced db fundId broker = .ok next := by
  obtain ⟨sets, setsOk⟩ := exists_mapM_eq_ok fun row (member : row ∈ positionsOf db fundId) =>
    (mirrorable.storable fits member).imp' _ fun st stored =>
      @syncedWrite_settle fundId _ _ _ stored
  obtain ⟨inserts, insertsOk⟩ := exists_mapM_eq_ok fun h
      (member : h ∈ newHoldings db fundId snapshot.holdings) =>
    (mirrorable.addable member).imp' _ fun p facts => facts.1
  obtain ⟨updates, related, rfl⟩ := sets_eq_ok setsOk
  obtain ⟨added, adds, rfl⟩ := inserts_eq_ok insertsOk
  obtain ⟨between, betweenOk⟩ := @applyWrites_unconstrained db (updates.map fun update =>
      .setPosition update.1 update.2.tickerName update.2.quantity update.2.avgPrice)
    fun write member => by
      obtain ⟨update, _, rfl⟩ := List.mem_map.mp member
      rfl
  have keys : added.map (fun p => (p.fundId, p.ticker)) =
      ((newHoldings db fundId snapshot.holdings).map HoldingItem.ticker).map
        fun ticker => (fundId, ticker) := by
    rw [List.map_map]
    refine forall₂_map_eq adds fun h member p adding => ?_
    exact Prod.ext adding.fundId_eq (mirrorable.ticker_of_adds member adding)
  have distinct : (added.map fun p => (p.fundId, p.ticker)).Nodup := by
    rw [keys]
    exact mirrorable.new_tickers_nodup.map (Prod.mk_right_injective fundId)
  have fresh : ∀ p ∈ added, ∀ old ∈ between.positions.contents,
      (old.fundId, old.ticker) ≠ (p.fundId, p.ticker) := by
    intro p member old oldMember same
    obtain ⟨h, hMember, adding⟩ := forall₂_exists_left adds member
    rw [contents_sets related betweenOk] at oldMember
    obtain ⟨row, rowMember, rfl⟩ := List.mem_map.mp oldMember
    have key := settledRow_key fundId snapshot.holdings row
    rw [key.1, key.2, adding.fundId_eq, mirrorable.ticker_of_adds hMember adding] at same
    have mine : row.2.fundId = fundId := congrArg Prod.fst same
    have taken := listed_iff.mpr ⟨row, List.mem_filter.mpr ⟨rowMember, by simpa using mine⟩,
      congrArg Prod.snd same⟩
    simpa [taken] using (List.mem_filter.mp hMember).2
  have inserts : ∀ (now : Db) p inserted, now.positions.insert? p = some inserted →
      ∃ after, applyWrite now (.insertPosition p) = .ok after ∧ after.positions = inserted :=
    fun now p inserted insertOk =>
      ⟨_, bind_eq_ok.mpr ⟨inserted, orRaise_eq_ok.mpr insertOk, rfl⟩, rfl⟩
  obtain ⟨next, nextOk⟩ := applyWrites_insertAll Db.positions inserts fresh distinct
  have written := @syncPositions_eq db fundId broker snapshot answer
  rw [setsOk, insertsOk] at written
  refine ⟨next, bind_eq_ok.mpr ⟨_, written, ?_⟩⟩
  rw [applyWrites_append]
  exact bind_eq_ok.mpr ⟨between, betweenOk, nextOk⟩

end Mirrorable

/-- Every position of the fund is as the snapshot has it. -/
theorem SyncedTo.settled {added : List Position}
    (done : SyncedTo db next fundId snapshot.holdings added)
    (mirrorable : Mirrorable db fundId snapshot.holdings) {p : Position}
    (member : p ∈ next.positions.contents) (mine : p.fundId = fundId) :
    p.Settled snapshot.holdings := by
  rw [done.contents] at member
  rcases List.mem_append.mp member with old | new
  · obtain ⟨row, rowMember, rfl⟩ := List.mem_map.mp old
    have ours : row.2.fundId = fundId :=
      (settledRow_key fundId snapshot.holdings row).1.symm.trans mine
    obtain ⟨st, stored⟩ :=
      done.storable row (List.mem_filter.mpr ⟨rowMember, by simpa using ours⟩)
    exact settledRow_settled ours stored
  · obtain ⟨h, hMember, adding⟩ := forall₂_exists_left done.adds new
    exact adding.settled (mirrorable.ticker_of_adds hMember adding) (mirrorable.rowsOf_new hMember)

/-- Every ticker of the snapshot has a position. -/
theorem SyncedTo.known {added : List Position}
    (done : SyncedTo db next fundId snapshot.holdings added)
    (mirrorable : Mirrorable db fundId snapshot.holdings) {h : HoldingItem}
    (member : h ∈ snapshot.holdings) :
    ∃ p ∈ next.positions.contents, p.fundId = fundId ∧ p.ticker = h.ticker := by
  rw [done.contents]
  by_cases found : listed (positionsOf db fundId) h.ticker = true
  · obtain ⟨row, selected, ticker⟩ := listed_iff.mp found
    obtain ⟨rowMember, ours⟩ := List.mem_filter.mp selected
    have key := settledRow_key fundId snapshot.holdings row
    exact ⟨_, List.mem_append_left _ (List.mem_map_of_mem rowMember),
      key.1.trans (by simpa using ours), key.2.trans ticker⟩
  · have new : h ∈ newHoldings db fundId snapshot.holdings :=
      List.mem_filter.mpr ⟨member, by simpa using found⟩
    obtain ⟨p, pMember, adding⟩ := forall₂_exists_left done.adds.flip new
    exact ⟨p, List.mem_append_right _ pMember, adding.fundId_eq,
      mirrorable.ticker_of_adds new adding⟩

theorem mem_positionsOf {row : ℕ × Position} :
    row ∈ positionsOf db fundId ↔ row ∈ db.positions.rows ∧ row.2.fundId = fundId := by
  rw [positionsOf, Table.select, List.mem_filter, decide_eq_true_eq]

theorem listed_of_contents {ticker : String}
    (found : ∃ p ∈ db.positions.contents, p.fundId = fundId ∧ p.ticker = ticker) :
    listed (positionsOf db fundId) ticker = true := by
  obtain ⟨p, member, mine, rfl⟩ := found
  obtain ⟨row, rowMember, rfl⟩ := List.mem_map.mp member
  exact listed_iff.mpr ⟨row, mem_positionsOf.mpr ⟨rowMember, mine⟩, rfl⟩

theorem Mirrorable.lastQuantity_eq (mirrorable : Mirrorable db fundId snapshot.holdings)
    (ticker : String) :
    lastQuantity snapshot.holdings ticker = totalQuantity snapshot.holdings ticker := by
  by_cases seen : ∃ h ∈ snapshot.holdings, h.ticker = ticker
  · obtain ⟨h, member, rfl⟩ := seen
    by_cases found : listed (positionsOf db fundId) h.ticker = true
    · exact mirrorable.whole h member found
    · have alone := rowsOf_of_once member (mirrorable.once h member (by simpa using found))
      rw [lastQuantity, totalQuantity, alone]
      simp
  · rw [lastQuantity, totalQuantity, rowsOf_of_unseen seen]
    rfl

theorem unique_tickers (db : Db) (fundId : ℕ) :
    ((positionsOf db fundId).map fun row => row.2.ticker).Nodup := by
  have keys : ((positionsOf db fundId).map fun row => (row.2.fundId, row.2.ticker)).Nodup :=
    db.positions.unique.sublist (List.filter_sublist.map _)
  refine List.Nodup.of_map (fun ticker => (fundId, ticker)) ?_
  rw [List.map_map]
  refine (List.map_congr_left fun row member => ?_).symm ▸ keys
  exact Prod.ext (mem_positionsOf.mp member).2.symm rfl

theorem Mirrorable.mirrors (mirrorable : Mirrorable db fundId snapshot.holdings)
    (answer : broker.getBalance = .ok snapshot) (fits : PositionsFit db) :
    ∃ next, synced db fundId broker = .ok next ∧ Mirrors db next fundId snapshot.holdings ∧
      synced next fundId broker = .ok next := by
  obtain ⟨next, success⟩ := mirrorable.exists_synced fits answer
  obtain ⟨added, done⟩ := synced_eq_ok answer success
  refine ⟨next, success, ⟨fun ticker => ?_, done.others, unique_tickers next fundId⟩, ?_⟩
  · rw [← mirrorable.lastQuantity_eq]
    by_cases found : ∃ p ∈ next.positions.contents, p.fundId = fundId ∧ p.ticker = ticker
    · obtain ⟨p, member, mine, rfl⟩ := found
      rw [← mine, positionQuantity_of_mem member]
      exact (done.settled mirrorable member mine).quantity_eq
    · have unseen : rowsOf snapshot.holdings ticker = [] :=
        rowsOf_of_unseen fun ⟨h, member, same⟩ => found (same ▸ done.known mirrorable member)
      rw [positionQuantity_of_absent fun p member mine same => found ⟨p, member, mine, same⟩,
        lastQuantity, unseen]
      rfl
  · refine synced_of_settled answer (fun row selected => ?_) fun h member =>
      listed_of_contents (done.known mirrorable member)
    obtain ⟨member, mine⟩ := mem_positionsOf.mp selected
    exact done.settled mirrorable (List.mem_map_of_mem member) mine

/-- The rows that a synchronisation has added have different tickers. -/
theorem SyncedTo.once {added : List Position}
    (done : SyncedTo db next fundId snapshot.holdings added) {h : HoldingItem}
    (member : h ∈ newHoldings db fundId snapshot.holdings) :
    (rowsOf snapshot.holdings h.ticker).length ≤ 1 := by
  have keys : (added.map fun p => (p.fundId, p.ticker)).Nodup := by
    have all := next.positions.contents_unique
    rw [done.contents, List.map_append] at all
    exact (List.nodup_append.mp all).2.1
  have tickers : ((newHoldings db fundId snapshot.holdings).map HoldingItem.ticker).Nodup := by
    refine List.Nodup.of_map (fun ticker => (fundId, (storeText 20 ticker).toOption.getD "")) ?_
    rw [List.map_map]
    refine (forall₂_map_eq done.adds fun h _ p adding => ?_) ▸ keys
    rw [Function.comp_apply, adding.ticker, adding.fundId_eq]
    rfl
  have own : rowsOf snapshot.holdings h.ticker =
      rowsOf (newHoldings db fundId snapshot.holdings) h.ticker := by
    rw [rowsOf, rowsOf, newHoldings, List.filter_filter]
    refine List.filter_congr fun other _ => ?_
    by_cases same : other.ticker = h.ticker
    · simpa [same] using (List.mem_filter.mp member).2
    · simp [same]
  rw [own, length_rowsOf]
  exact List.nodup_iff_count_le_one.mp tickers h.ticker

/-- Of every ticker the last values could be stored. -/
theorem SyncedTo.stored {added : List Position}
    (done : SyncedTo db next fundId snapshot.holdings added) {h : HoldingItem}
    (member : h ∈ snapshot.holdings) :
    ∃ fallback, (∃ kept, ((lastName snapshot.holdings h.ticker).or fallback).mapM (storeText 100) =
        .ok kept) ∧
      (-2 ^ 31 ≤ lastQuantity snapshot.holdings h.ticker ∧
        lastQuantity snapshot.holdings h.ticker < 2 ^ 31) ∧
      ∀ last ∈ (rowsOf snapshot.holdings h.ticker).getLast?,
        (Numeric.ofDecimal 18 4 last.avgPrice).isSome = true := by
  by_cases found : listed (positionsOf db fundId) h.ticker = true
  · obtain ⟨row, selected, ticker⟩ := listed_iff.mp found
    exact ⟨_, (exists_stored_settle member ticker.symm).mp (done.storable row selected)⟩
  · have new : h ∈ newHoldings db fundId snapshot.holdings :=
      List.mem_filter.mpr ⟨member, by simpa using found⟩
    obtain ⟨p, _, adding⟩ := forall₂_exists_left done.adds.flip new
    have once := rowsOf_of_once member (done.once new)
    exact ⟨_, (exists_stored_settle (s := Synced.fresh h) member rfl).mp
      ⟨_, (settle_fresh once).symm ▸ adding.stored⟩⟩

theorem fits_of_stored {s : Synced} {p : Position} (ticker : FitsText 20 p.ticker)
    (stored : s.stored = .ok ⟨p.tickerName, p.quantity, p.avgPrice⟩) : p.Fits := by
  obtain ⟨nameOk, quantityOk, _⟩ := stored_eq_ok.mp stored
  obtain ⟨within, quantity⟩ := storeInteger_eq_ok.mp quantityOk
  refine ⟨ticker, fun name found => ?_, (show p.quantity = s.quantity from quantity) ▸ within⟩
  rcases storeName_eq_ok.mp nameOk with ⟨_, unnamed⟩ | ⟨text, kept, _, named, storedOk⟩
  · cases unnamed.symm.trans found
  · cases named.symm.trans found
    exact storeText_fits storedOk

/-- What is on record fits its columns. -/
theorem SyncedTo.positionsFit {holdings : List HoldingItem} {added : List Position}
    (done : SyncedTo db next fundId holdings added) (fits : PositionsFit db) :
    PositionsFit next := by
  intro p member
  rw [done.contents] at member
  rcases List.mem_append.mp member with old | new
  · obtain ⟨row, rowMember, rfl⟩ := List.mem_map.mp old
    have before := fits row.2 (List.mem_map_of_mem rowMember)
    by_cases mine : row.2.fundId = fundId
    · obtain ⟨st, stored⟩ := done.storable row (mem_positionsOf.mpr ⟨rowMember, mine⟩)
      have set : settledRow fundId holdings row = row.2.set st := by
        rw [settledRow, if_pos mine, stored]
      rw [set]
      exact fits_of_stored before.ticker stored
    · rwa [settledRow, if_neg mine]
  · obtain ⟨h, _, adding⟩ := forall₂_exists_left done.adds new
    exact fits_of_stored (storeText_fits adding.ticker) adding.stored

theorem Mirrors.mirrorable (answer : broker.getBalance = .ok snapshot) (fits : PositionsFit db)
    (success : synced db fundId broker = .ok next)
    (mirrors : Mirrors db next fundId snapshot.holdings)
    (again : synced next fundId broker = .ok next) : Mirrorable db fundId snapshot.holdings := by
  obtain ⟨added, done⟩ := synced_eq_ok answer success
  have known := known_of_synced answer again
  refine ⟨fun h member isNew => ?_, fun h member found => ?_, fun h member isNew => ?_,
    fun h member name last => ?_, fun h member => ?_, fun h member => ?_⟩
  · exact done.once (List.mem_filter.mpr ⟨member, by simp [isNew]⟩)
  · obtain ⟨row, selected, ticker⟩ := listed_iff.mp found
    obtain ⟨rowMember, mine⟩ := mem_positionsOf.mp selected
    obtain ⟨st, stored⟩ := done.storable row selected
    have key := settledRow_key fundId snapshot.holdings row
    have kept : settledRow fundId snapshot.holdings row ∈ next.positions.contents := by
      rw [done.contents]
      exact List.mem_append_left _ (List.mem_map_of_mem rowMember)
    have quantity := positionQuantity_of_mem kept
    rw [key.1, key.2, mine, ticker, mirrors.quantities,
      (settledRow_settled mine stored).quantity_eq, key.2, ticker] at quantity
    exact quantity.symm
  · obtain ⟨row, selected, ticker⟩ := listed_iff.mp (known h member)
    have record : row.2 ∈ next.positions.contents :=
      List.mem_map_of_mem (mem_positionsOf.mp selected).1
    exact ticker ▸ (done.positionsFit fits _ record).ticker
  · obtain ⟨fallback, ⟨kept, nameOk⟩, _⟩ := done.stored member
    rw [show lastName snapshot.holdings h.ticker = some name from last, Option.some_or] at nameOk
    rcases storeName_eq_ok.mp nameOk with ⟨unnamed, _⟩ | ⟨text, stored, same, _, storedOk⟩
    · cases unnamed
    · cases same
      exact (storeText_eq_ok.mp storedOk).1
  · obtain ⟨_, _, within, _⟩ := done.stored member
    exact within
  · obtain ⟨_, _, _, price⟩ := done.stored member
    exact price

/-- A synchronisation mirrors the broker, and again changes nothing, exactly where a ticker
without a position comes once, the last row of one with a position has the whole quantity,
and the columns can hold what counts in the end. -/
theorem sync_mirrors_iff (fits : PositionsFit db) (answer : broker.getBalance = .ok snapshot) :
    (∃ next, synced db fundId broker = .ok next ∧ Mirrors db next fundId snapshot.holdings ∧
        synced next fundId broker = .ok next) ↔
      Mirrorable db fundId snapshot.holdings := by
  constructor
  · rintro ⟨next, success, mirrors, again⟩
    exact mirrors.mirrorable answer fits success again
  · intro mirrorable
    exact mirrorable.mirrors answer fits

end Mirror

section Runs

variable {env : Env} {db next : Db} {request : Request} {writes : List Write}

theorem Commits.positionsFit (committed : Commits env db request writes)
    (applied : applyWrites db writes = .ok next) (fits : PositionsFit db) : PositionsFit next := by
  have frame : .positions ∉ request.tables → PositionsFit next := by
    intro untouched
    have same : next.positions.toTable = db.positions.toTable :=
      committed.frame applied .positions untouched
    rwa [PositionsFit, same]
  cases committed with
  | createMember | createFund | createMarket | putAllocation | closeMarket | createDecision
  | approveDecision | rejectDecision | resolveMarket | settleMarket | cancelMarket =>
      exact frame (by simp [Request.tables])
  | syncFund written =>
      obtain ⟨snapshot, answer, _⟩ := bind_eq_ok.mp written
      obtain ⟨added, done⟩ := synced_eq_ok answer (bind_eq_ok.mpr ⟨_, written, applied⟩)
      exact done.positionsFit fits

/-- Every state of a run holds what its columns can hold. -/
theorem positionsFit_stateAfter (events : List Event) :
    PositionsFit (stateAfter Db.empty events) := by
  refine requests_invariant (fun _ _ _ _ _ => trivial)
    (fun _ _ _ _ _ _ _ committed applied before => committed.positionsFit applied before) ?_ events
    (fun _ _ => trusts_anything _) fun s _ => s.meets_anything
  intro p member
  cases member

end Runs

/-- A fund with ten shares of one ticker. -/
def tenHeld : List Event :=
  [.request desk (.createFund "fund" "1" "KIS"),
    .request { desk with broker := .steady 50000 0 [⟨"005930", none, 10, 50000, none⟩] }
      (.syncFund 1)]

def fiveShares : HoldingItem := ⟨"005930", some "n", 5, 60000, none⟩

def twoShares : HoldingItem := ⟨"000660", none, 2, 1000, none⟩

/-- The known ticker with five shares, and a new one. -/
theorem sync_mirrors_five :
    ∃ next, synced (stateAfter Db.empty tenHeld) 1 (.steady 50000 0 [fiveShares, twoShares]) =
        .ok next ∧
      Mirrors (stateAfter Db.empty tenHeld) next 1 [fiveShares, twoShares] ∧
      synced next 1 (.steady 50000 0 [fiveShares, twoShares]) = .ok next :=
  (@sync_mirrors_iff _ 1 (.steady 50000 0 [fiveShares, twoShares])
    { cashKrw := 0, holdings := [fiveShares, twoShares] } (positionsFit_stateAfter tenHeld)
    rfl).mpr
    ⟨by decide +kernel, by decide +kernel, by decide +kernel, by decide +kernel, by decide +kernel,
      by decide +kernel⟩

/-- The constraints of the table refuse the result. -/
def Refused (result : Except AppError Db) : Prop :=
  (match result with
    | .error e => e = .integrityError
    | .ok _ => False)

instance (result : Except AppError Db) : Decidable (Refused result) :=
  match result with
  | .error e => inferInstanceAs (Decidable (e = .integrityError))
  | .ok _ => .isFalse id

/-- A new ticker that comes twice breaks the unique constraint, and of a known one only the
last row counts. -/
theorem sync_not_mirrors_twice :
    Refused (synced (stateAfter Db.empty tenHeld) 1 (.steady 50000 0 [twoShares, twoShares])) ∧
      (synced (stateAfter Db.empty tenHeld) 1
        (.steady 50000 0 [fiveShares, fiveShares])).toOption.map
          (fun next => positionQuantity next 1 "005930") = some 5 ∧
      totalQuantity [fiveShares, fiveShares] "005930" = 10 := by
  decide +kernel

end FundPolymarket
