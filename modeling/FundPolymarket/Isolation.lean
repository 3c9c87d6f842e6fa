import FundPolymarket.Accounts

set_option autoImplicit false

/- What a tick does to one market, whatever it does to the others: a visit reads and
writes the rows of its own market, so both loops are sweeps over separate parts of
the database. -/
namespace FundPolymarket

/-- The rows that belong to a market. The ids of ledger entries and decisions are left
out; they depend on what else has been inserted. -/
@[ext] structure MarketView where
  market : Option Market
  bets : List (ℕ × Bet)
  entries : List LedgerEntry
  decisions : List TradeDecision

def Db.viewOf (marketId : ℕ) (db : Db) : MarketView where
  market := db.markets.get? marketId
  bets := db.betsOf marketId
  entries := db.ledger.contents.filter fun entry => entry.marketId = some marketId
  decisions := db.decisions.contents.filter fun decision => decision.marketId = marketId

/-- What the scheduled services read of other tables. -/
def Db.common (db : Db) :
    UniqueTable Member Member.email × UniqueTable Position fun p => (p.fundId, p.ticker) :=
  (db.members, db.positions)

namespace Write

/-- Statements on the rows of one market, whose bets have the given ids. -/
def Within (marketId : ℕ) (betIds : List ℕ) : Write → Prop
  | .updateMarket id _ => id = marketId
  | .setPayout id _ => id ∈ betIds
  | .insertLedger row => row.marketId = some marketId
  | .insertDecision row => row.marketId = marketId
  | _ => False

/-- What such a statement does to the view of the market. -/
def actOn (view : MarketView) : Write → MarketView
  | .updateMarket _ set => { view with market := view.market.map set }
  | .setPayout id payout =>
      { view with bets := view.bets.map fun row =>
          (row.1, if row.1 = id then { row.2 with payout := some payout } else row.2) }
  | .insertLedger row => { view with entries := view.entries ++ [row] }
  | .insertDecision row => { view with decisions := view.decisions ++ [row] }
  | _ => view

theorem Within.unconstrained {marketId : ℕ} {betIds : List ℕ} {write : Write}
    (within : write.Within marketId betIds) : write.unconstrained = true := by
  cases write <;> first | rfl | cases within

end Write

section Footprint

variable {marketId : ℕ} {db next : Db}

theorem Table.select_update {α : Type} (keep : α → Bool) (set : α → α)
    (same : ∀ value, keep (set value) = keep value) (table : Table α) (id : ℕ) :
    (table.update id set).select keep =
      (table.select keep).map fun row => (row.1, if row.1 = id then set row.2 else row.2) := by
  rw [Table.select, Table.update, List.filter_map, Table.select]
  congr 1
  apply List.filter_congr
  intro row _
  by_cases here : row.1 = id <;> simp [here, same]

/-- A selection does not see the update of a row that another one has selected. -/
theorem Table.select_update_of_disjoint {α : Type} {keep other : α → Bool} (set : α → α)
    (same : ∀ value, other (set value) = other value)
    (disjoint : ∀ value, keep value = true → other value = false) {table : Table α} {id : ℕ}
    (selected : id ∈ (table.select keep).map Prod.fst) :
    (table.update id set).select other = table.select other := by
  rw [Table.select_update other set same]
  obtain ⟨row, rowMember, rfl⟩ := List.mem_map.mp selected
  obtain ⟨listed, kept⟩ := List.mem_filter.mp rowMember
  conv_rhs => rw [← List.map_id (table.select other)]
  apply List.map_congr_left
  intro seen seenMember
  obtain ⟨seenListed, seenKept⟩ := List.mem_filter.mp seenMember
  have differs : seen.1 ≠ row.1 := by
    intro sameId
    rw [List.inj_on_of_nodup_map table.distinct seenListed listed sameId, disjoint _ kept]
      at seenKept
    cases seenKept
  simp [differs]

/-- A change that is confined to one market. -/
structure Confines (marketId : ℕ) (act : MarketView → MarketView) (db next : Db) : Prop where
  common_same : next.common = db.common
  view_eq : next.viewOf marketId = act (db.viewOf marketId)
  others_same : ∀ other, other ≠ marketId → next.viewOf other = db.viewOf other
  bets_same : (next.betsOf marketId).map Prod.fst = (db.betsOf marketId).map Prod.fst

theorem applyWrite_within {write : Write}
    (within : write.Within marketId ((db.betsOf marketId).map Prod.fst))
    (success : applyWrite db write = .ok next) :
    Confines marketId (fun view => write.actOn view) db next := by
  cases write with
  | updateMarket id set =>
      cases success
      cases within
      refine ⟨rfl, ?_, fun other differs => ?_, rfl⟩
      · simp [Db.viewOf, Write.actOn, Table.get?_update, Db.betsOf]
      · simp [Db.viewOf, Table.get?_update, differs, Db.betsOf]
  | setPayout id payout =>
      cases success
      let shown : Bet → Bet := fun bet => { bet with payout := some payout }
      have kept := Table.select_update (fun bet : Bet => bet.marketId = marketId) shown
        (fun _ => rfl) db.bets.toTable id
      refine ⟨rfl, MarketView.ext rfl kept rfl rfl, fun other differs => ?_, ?_⟩
      · have disjoint : ∀ bet : Bet, decide (bet.marketId = marketId) = true →
            decide (bet.marketId = other) = false := by
          intro bet mine
          rw [of_decide_eq_true mine]
          exact decide_eq_false differs.symm
        exact MarketView.ext rfl
          (Table.select_update_of_disjoint shown (fun _ => rfl) disjoint within) rfl rfl
      · refine (congrArg (List.map Prod.fst) kept).trans ?_
        rw [List.map_map]
        rfl
  | insertLedger row =>
      cases success
      have mine : row.marketId = some marketId := within
      refine ⟨rfl, ?_, fun other differs => ?_, rfl⟩
      · simp [Db.viewOf, Write.actOn, mine, Db.betsOf]
      · simp [Db.viewOf, mine, differs.symm, Db.betsOf]
  | insertDecision row =>
      cases success
      have mine : row.marketId = marketId := within
      refine ⟨rfl, ?_, fun other differs => ?_, rfl⟩
      · simp [Db.viewOf, Write.actOn, mine, Db.betsOf]
      · simp [Db.viewOf, mine, differs.symm, Db.betsOf]
  | _ => cases within

theorem applyWrites_within {writes : List Write}
    (within : ∀ write ∈ writes, write.Within marketId ((db.betsOf marketId).map Prod.fst))
    (success : applyWrites db writes = .ok next) :
    Confines marketId (fun view => writes.foldl Write.actOn view) db next := by
  induction writes generalizing db with
  | nil =>
      cases success
      exact ⟨rfl, rfl, fun _ _ => rfl, rfl⟩
  | cons write writes ih =>
      obtain ⟨middle, head, rest⟩ := applyWrites_cons_eq_ok.mp success
      have one := applyWrite_within (within write (by simp)) head
      have others := ih (fun other member => one.bets_same ▸ within other (by simp [member])) rest
      refine ⟨others.common_same.trans one.common_same, ?_, fun other differs => ?_,
        others.bets_same.trans one.bets_same⟩
      · rw [others.view_eq, one.view_eq, List.foldl_cons]
      · rw [others.others_same other differs, one.others_same other differs]

end Footprint

section Services

/-- A service call on a market, flushed to the open session. -/
def perform (service : ℕ → Db → Market → Except AppError (List Write)) (marketId : ℕ) (db : Db) :
    Except AppError Db := do
  let market ← getMarket db marketId
  service marketId db market >>= applyWrites db

/-- A service that reads its own market and the common tables, and writes the rows of
its own market. -/
structure LocalService (service : ℕ → Db → Market → Except AppError (List Write)) : Prop where
  within : ∀ {marketId db market writes}, db.markets.get? marketId = some market →
    service marketId db market = .ok writes →
    ∀ write ∈ writes, write.Within marketId ((db.betsOf marketId).map Prod.fst)
  determined : ∀ {marketId db twin market writes}, db.common = twin.common →
    db.viewOf marketId = twin.viewOf marketId → service marketId db market = .ok writes →
    service marketId twin market = .ok writes
  breaks_same : ∀ {marketId db twin market e}, db.common = twin.common →
    db.viewOf marketId = twin.viewOf marketId → service marketId db market = .error e →
    e.ofFlush = true → ∃ e', service marketId twin market = .error e' ∧ e'.ofFlush = true

theorem perform_eq_ok {service : ℕ → Db → Market → Except AppError (List Write)} {marketId : ℕ}
    {db next : Db} :
    perform service marketId db = .ok next ↔
      ∃ market writes, db.markets.get? marketId = some market ∧
        service marketId db market = .ok writes ∧ applyWrites db writes = .ok next := by
  simp only [perform, bind_eq_ok, getMarket_eq_ok]
  constructor
  · rintro ⟨market, found, writes, served, applied⟩
    exact ⟨market, writes, found, served, applied⟩
  · rintro ⟨market, writes, found, served, applied⟩
    exact ⟨market, found, writes, served, applied⟩

/-- A service breaks the loop in its own flush; its writes cannot be refused. -/
theorem LocalService.perform_breaks {service : ℕ → Db → Market → Except AppError (List Write)}
    (rules : LocalService service) {marketId : ℕ} {db : Db} :
    Breaks (perform service) AppError.ofFlush marketId db ↔
      ∃ market e, db.markets.get? marketId = some market ∧
        service marketId db market = .error e ∧ e.ofFlush = true := by
  unfold Breaks perform
  cases search : getMarket db marketId with
  | error e =>
      have absent : db.markets.get? marketId = none := by
        cases found : db.markets.get? marketId with
        | none => rfl
        | some market => rw [getMarket_eq_ok.mpr found] at search; cases search
      have missing : e.ofFlush = false := by
        rw [getMarket, absent] at search
        cases search
        rfl
      simp [bind, Except.bind, absent, missing]
  | ok market =>
      have found := getMarket_eq_ok.mp search
      cases served : service marketId db market with
      | error e => simp [bind, Except.bind, found, served]
      | ok writes =>
          obtain ⟨next, applied⟩ := applyWrites_unconstrained db fun write member =>
            (rules.within found served write member).unconstrained
          simp [bind, Except.bind, found, served, applied]

theorem LocalService.confined {service : ℕ → Db → Market → Except AppError (List Write)}
    (rules : LocalService service) :
    Confined (perform service) AppError.ofFlush Db.viewOf Db.common where
  common_same := by
    intro marketId db next success
    obtain ⟨market, writes, found, served, applied⟩ := perform_eq_ok.mp success
    exact (applyWrites_within (rules.within found served) applied).common_same
  others_same := by
    intro marketId other db next success differs
    obtain ⟨market, writes, found, served, applied⟩ := perform_eq_ok.mp success
    exact (applyWrites_within (rules.within found served) applied).others_same other differs
  determined := by
    intro marketId db twin next sameCommon sameView success
    obtain ⟨market, writes, found, served, applied⟩ := perform_eq_ok.mp success
    have twinFound : twin.markets.get? marketId = some market := by
      rw [← found]
      exact (congrArg MarketView.market sameView).symm
    have twinServed := rules.determined sameCommon sameView served
    have within := rules.within twinFound twinServed
    obtain ⟨result, twinApplied⟩ := applyWrites_unconstrained twin fun write member =>
      (within write member).unconstrained
    refine ⟨result, perform_eq_ok.mpr ⟨market, writes, twinFound, twinServed, twinApplied⟩, ?_⟩
    rw [(applyWrites_within within twinApplied).view_eq,
      (applyWrites_within (rules.within found served) applied).view_eq, sameView]
  breaks_same := by
    intro marketId db twin sameCommon sameView breaks
    rw [rules.perform_breaks] at breaks ⊢
    obtain ⟨market, e, found, failure, flushed⟩ := breaks
    obtain ⟨e', twinFailure, twinFlushed⟩ :=
      rules.breaks_same sameCommon sameView failure flushed
    have twinFound : twin.markets.get? marketId = some market := by
      rw [← found]
      exact (congrArg MarketView.market sameView).symm
    exact ⟨market, e', twinFound, twinFailure, twinFlushed⟩

variable (settings : Settings) (now : Time) (broker : TickCall → Broker)

theorem close_local :
    LocalService fun marketId _ market =>
      closeMarket marketId market (broker (.close marketId)) now where
  within := by
    intro marketId db market writes found success write member
    obtain ⟨_, rest⟩ := raiseIf_bind_eq_ok.mp success
    obtain ⟨_, _, rest⟩ := bind_eq_ok.mp rest
    obtain ⟨_, _, rest⟩ := bind_eq_ok.mp rest
    obtain ⟨_, _, same⟩ := bind_eq_ok.mp rest
    cases same
    rw [List.mem_singleton.mp member]
    rfl
  determined := fun _ _ success => success
  breaks_same := fun _ _ failure flushed => ⟨_, failure, flushed⟩

theorem resolve_local :
    LocalService fun marketId _ market =>
      resolveMarket marketId market (broker (.resolve marketId)) now where
  within := by
    intro marketId db market writes found success write member
    obtain ⟨_, rest⟩ := raiseIf_bind_eq_ok.mp success
    obtain ⟨_, _, rest⟩ := bind_eq_ok.mp rest
    obtain ⟨_, _, rest⟩ := bind_eq_ok.mp rest
    obtain ⟨_, _, rest⟩ := bind_eq_ok.mp rest
    obtain ⟨_, _, same⟩ := bind_eq_ok.mp rest
    cases same
    rw [List.mem_singleton.mp member]
    rfl
  determined := fun _ _ success => success
  breaks_same := fun _ _ failure flushed => ⟨_, failure, flushed⟩

theorem sizing_congr {db twin : Db} (same : db.common = twin.common) :
    sizing settings db = sizing settings twin ∧
      skipReasons settings db = skipReasons settings twin := by
  have members : db.members = twin.members := congrArg Prod.fst same
  have positions : db.positions = twin.positions := congrArg Prod.snd same
  have active : activeCount db = activeCount twin := by rw [activeCount, activeCount, members]
  have quantity : positionQuantity db = positionQuantity twin := by
    unfold positionQuantity
    rw [positions]
  have quorum : quorumReasons settings db = quorumReasons settings twin := by
    unfold quorumReasons
    rw [active]
  have reasons : consensusReasons settings db = consensusReasons settings twin := by
    unfold consensusReasons
    rw [quorum]
  have sizes : sizeOrder db = sizeOrder twin := by
    unfold sizeOrder
    rw [quantity]
  refine ⟨?_, ?_⟩
  · unfold sizing
    rw [reasons, sizes]
  · unfold skipReasons
    rw [reasons]

theorem no_decision_iff (db : Db) (marketId : ℕ) :
    db.decisions.rows.find? (fun row => row.2.marketId = marketId) = none ↔
      (db.viewOf marketId).decisions = [] := by
  simp only [Db.viewOf, Table.contents, List.find?_eq_none, List.filter_eq_nil_iff,
    List.forall_mem_map]

/-- Where a market has no decision yet, a decision is built from its own rows and the common
tables. -/
theorem buildDecision_congr {db twin : Db} {marketId : ℕ} (market : Market) (asked : Broker)
    (sameCommon : db.common = twin.common) (sameView : db.viewOf marketId = twin.viewOf marketId)
    (search : db.decisions.rows.find? (fun row => row.2.marketId = marketId) = none) :
    buildDecision settings db marketId market asked =
      buildDecision settings twin marketId market asked := by
  obtain ⟨sizes, reasons⟩ := sizing_congr settings sameCommon
  have stakes : loadStakes db marketId = loadStakes twin marketId :=
    congrArg (List.map fun row : ℕ × Bet => row.2.toStake) (congrArg MarketView.bets sameView)
  have twinSearch := (no_decision_iff twin marketId).mpr
    ((congrArg MarketView.decisions sameView).symm.trans ((no_decision_iff db marketId).mp search))
  simp only [buildDecision, search, twinSearch, getConsensus, stakes, sizes, reasons]

/-- A market that has a decision is refused before anything is flushed. -/
theorem buildDecision_no_flush {db : Db} {marketId : ℕ} {market : Market} {asked : Broker}
    {e : AppError} (failure : buildDecision settings db marketId market asked = .error e)
    (flushed : e.ofFlush = true) :
    db.decisions.rows.find? (fun row => row.2.marketId = marketId) = none := by
  by_contra exists_decision
  obtain ⟨row, search⟩ := Option.ne_none_iff_exists'.mp exists_decision
  rw [buildDecision, search, raiseIf] at failure
  split at failure
  · cases failure
    cases flushed
  · cases failure
    cases flushed

theorem build_local :
    LocalService fun marketId db market =>
      buildDecision settings db marketId market (broker (.build marketId)) where
  within := by
    intro marketId db market writes found success write member
    obtain ⟨_, _, decision, built, rfl⟩ := buildDecision_eq_ok success
    simp only [List.mem_cons, List.not_mem_nil, or_false] at member
    rcases member with rfl | rfl
    · exact built.marketId_eq
    · rfl
  determined := by
    intro marketId db twin market writes sameCommon sameView success
    obtain ⟨_, fresh, _⟩ := buildDecision_eq_ok success
    rw [← buildDecision_congr settings market _ sameCommon sameView (search_none fresh)]
    exact success
  breaks_same := by
    intro marketId db twin market e sameCommon sameView failure flushed
    have search := buildDecision_no_flush settings failure flushed
    rw [buildDecision_congr settings market _ sameCommon sameView search] at failure
    exact ⟨e, failure, flushed⟩

theorem hasEntry_view (db : Db) (memberId marketId : ℕ) (entryType : LedgerEntryType) :
    hasEntry db memberId marketId entryType =
      (db.viewOf marketId).entries.any fun entry =>
        entry.memberId = memberId ∧ entry.entryType = entryType := by
  rw [Bool.eq_iff_iff]
  simp only [hasEntry, Db.viewOf, List.any_eq_true, List.mem_filter, decide_eq_true_eq]
  constructor
  · rintro ⟨entry, member, owner, market, kind⟩
    exact ⟨entry, ⟨member, market⟩, owner, kind⟩
  · rintro ⟨entry, ⟨member, market⟩, owner, kind⟩
    exact ⟨entry, member, owner, market, kind⟩

/-- A settlement reads the rows of its own market only. -/
theorem settleMarket_congr {db twin : Db} {marketId : ℕ} (market : Market)
    (sameView : db.viewOf marketId = twin.viewOf marketId) :
    settleMarket db marketId settings market now =
      settleMarket twin marketId settings market now := by
  have bets : db.betsOf marketId = twin.betsOf marketId := congrArg MarketView.bets sameView
  have due : duePayouts db marketId = duePayouts twin marketId := by
    funext payouts
    simp only [duePayouts, hasEntry_view, sameView]
  have parts : rowPayout db marketId = rowPayout twin marketId := by
    funext payouts row
    simp only [rowPayout, stakeByMember, bets]
  have split : betPayout db marketId = betPayout twin marketId := by
    funext payouts row
    simp only [betPayout, parts]
  simp only [settleMarket, loadStakes, bets, due, parts, split]

theorem settle_local :
    LocalService fun marketId db market => settleMarket db marketId settings market now where
  within := by
    intro marketId db market writes found success write member
    have committed : Commits ⟨settings, now, .steady 0 0 []⟩ db (.settleMarket marketId) writes :=
      settleMarket_commits found success
    cases committed with
    | settleMarket _ _ _ _ recorded split =>
        simp only [List.mem_append, List.mem_map, List.mem_singleton] at member
        rcases member with (⟨entry, entryMember, rfl⟩ | ⟨shown, shownMember, rfl⟩) | rfl
        · obtain ⟨_, _, row⟩ := forall₂_exists_left (payouts_recorded recorded) entryMember
          exact row.marketId_eq
        · obtain ⟨bet, betMember, shownOk⟩ := forall₂_exists_left (mapM_forall₂ split) shownMember
          obtain ⟨_, _, rest⟩ := bind_eq_ok.mp shownOk
          obtain ⟨_, _, same⟩ := bind_eq_ok.mp rest
          cases same
          exact List.mem_map_of_mem betMember
        · rfl
  determined := by
    intro marketId db twin market writes _ sameView success
    rw [← settleMarket_congr settings now market sameView]
    exact success
  breaks_same := by
    intro marketId db twin market e _ sameView failure flushed
    rw [settleMarket_congr settings now market sameView] at failure
    exact ⟨e, failure, flushed⟩

end Services

section Visits

variable {settings : Settings} {now : Time} {broker : TickCall → Broker} {marketId : ℕ}
  {db next : Db}

/-- A visit of the first loop takes an open market to DECIDED and gives it a decision. -/
theorem closeAndDecide_advances
    (success : closeAndDecide settings now broker marketId db = .ok next) :
    (db.viewOf marketId).market.map Market.status = some .open ∧
      (next.viewOf marketId).market.map Market.status = some .decided ∧
      (next.viewOf marketId).decisions ≠ [] := by
  obtain ⟨closed, closeOk, buildOk⟩ := closeAndDecide_committed success
  obtain ⟨closing, closes, closedOk⟩ := closeOk.commits
  obtain ⟨building, builds, builtOk⟩ := buildOk.commits
  cases closes with
  | closeMarket found isOpen =>
      refine ⟨by simp [Db.viewOf, found, isOpen], ?_⟩
      cases builds with
      | @createDecision _ _ decision closedFound isClosed _ built =>
          have markets : next.markets = closed.markets.update marketId Market.decide :=
            applyWrites_table builtOk .markets
          have decisions : next.decisions = closed.decisions.insert decision :=
            applyWrites_table builtOk .decisions
          refine ⟨?_, ?_⟩
          · simp [Db.viewOf, markets, Table.get?_update, closedFound, Market.decide]
          · simp [Db.viewOf, decisions, built.marketId_eq]

/-- A visit of the second loop takes a market that is not resolved to SETTLED. -/
theorem resolveAndSettle_advances
    (success : resolveAndSettle settings now broker marketId db = .ok next) :
    (db.viewOf marketId).market.map Market.status ≠ some .settled ∧
      (next.viewOf marketId).market.map Market.status = some .settled := by
  obtain ⟨resolved, resolveOk, settleOk⟩ := resolveAndSettle_committed success
  obtain ⟨resolving, resolves, resolvedOk⟩ := resolveOk.commits
  obtain ⟨settling, settles, settledOk⟩ := settleOk.commits
  cases resolves with
  | resolveMarket found between =>
      refine ⟨?_, ?_⟩
      · rcases between with status | status | status <;> simp [Db.viewOf, found, status]
      · cases settles with
        | settleMarket resolvedFound _ _ _ _ _ =>
            simp [Db.viewOf, applyWrites_settlement settledOk, Table.get?_update, resolvedFound,
              Market.settle]

theorem closeAndDecide_local :
    Local (closeAndDecide settings now broker) AppError.ofFlush Db.viewOf Db.common where
  toConfined := by
    have visits : closeAndDecide settings now broker = fun marketId db =>
        perform (fun marketId _ market =>
            closeMarket marketId market (broker (.close marketId)) now) marketId db >>=
          perform (fun marketId db market =>
            buildDecision settings db marketId market (broker (.build marketId))) marketId := by
      funext marketId db
      simp only [closeAndDecide, perform, bind_assoc]
      rfl
    rw [visits]
    exact (close_local now broker).confined.andThen (build_local settings broker).confined
  progress := by
    intro marketId db next success same
    obtain ⟨isOpen, isDecided, _⟩ := closeAndDecide_advances success
    rw [same, isOpen] at isDecided
    cases isDecided

theorem resolveAndSettle_local :
    Local (resolveAndSettle settings now broker) AppError.ofFlush Db.viewOf Db.common where
  toConfined := by
    have visits : resolveAndSettle settings now broker = fun marketId db =>
        perform (fun marketId _ market =>
            resolveMarket marketId market (broker (.resolve marketId)) now) marketId db >>=
          perform (fun marketId db market => settleMarket db marketId settings market now)
            marketId := by
      funext marketId db
      simp only [resolveAndSettle, perform, bind_assoc]
      rfl
    rw [visits]
    exact (resolve_local now broker).confined.andThen (settle_local settings now).confined
  progress := by
    intro marketId db next success same
    obtain ⟨notSettled, isSettled⟩ := resolveAndSettle_advances success
    rw [same] at isSettled
    exact notSettled isSettled

end Visits

section Tick

theorem Isolated.perm {advance : ℕ → Db → Except AppError Db} {db final : Db} {ids visited : List ℕ}
    (order : visited.Perm ids) :
    Isolated advance Db.viewOf db ids final ↔ Isolated advance Db.viewOf db visited final := by
  simp only [Isolated, order.mem_iff]

theorem RowOrder.nodup (order : RowOrder) {ids : List ℕ} (nodup : ids.Nodup) :
    (order.arrange ids).Nodup := (order.perm ids).nodup_iff.mpr nodup

theorem Table.select_nodup {α : Type} (table : Table α) (keep : α → Bool) :
    ((table.select keep).map Prod.fst).Nodup :=
  table.distinct.sublist (List.filter_sublist.map _)

theorem Table.mem_select_ids {α : Type} {table : Table α} {keep : α → Bool} {id : ℕ} :
    id ∈ (table.select keep).map Prod.fst ↔ ∃ row, table.get? id = some row ∧ keep row = true := by
  simp only [Table.select, List.mem_map, List.mem_filter, ← Table.mem_rows_iff]
  constructor
  · rintro ⟨row, ⟨listed, kept⟩, rfl⟩
    exact ⟨row.2, listed, kept⟩
  · rintro ⟨row, listed, kept⟩
    exact ⟨(id, row), ⟨listed, kept⟩, rfl⟩

variable (settings : Settings) (now : Time) (broker : TickCall → Broker)
  (closing resolving : RowOrder) (db : Db)

/-- Of the markets that are visited one after the other, none that can be advanced comes
before one that cannot, nor after one whose flush fails. -/
def FailuresFirst (advance : ℕ → Db → Except AppError Db) (db : Db) (ids : List ℕ) : Prop :=
  ids.Pairwise fun earlier later =>
    (Succeeds advance earlier db → Succeeds advance later db) ∧
      (Breaks advance AppError.ofFlush earlier db → ¬ Succeeds advance later db)

/-- The flush of a market that is due to be closed fails, which takes the second loop away. -/
def FirstLoopBreaks : Prop :=
  ∃ id ∈ dueToClose now db, Breaks (closeAndDecide settings now broker) AppError.ofFlush id db

/-- In both loops every due market ends as if it had been the only one: advanced where
it can be advanced, and otherwise unchanged. -/
structure TickIsolated : Prop where
  closeLoop_isolated : Isolated (closeAndDecide settings now broker) Db.viewOf db
    (dueToClose now db) (closeLoop settings now broker closing db)
  decided : ∀ id ∈ dueToClose now db, Succeeds (closeAndDecide settings now broker) id db →
    ((closeLoop settings now broker closing db).viewOf id).market.map Market.status =
        some .decided ∧
      ((closeLoop settings now broker closing db).viewOf id).decisions ≠ []
  resolveLoop_isolated : Isolated (resolveAndSettle settings now broker) Db.viewOf
    (closeLoop settings now broker closing db)
    (dueToResolve now (closeLoop settings now broker closing db))
    (tick settings now broker closing resolving db)
  settled : ∀ id ∈ dueToResolve now (closeLoop settings now broker closing db),
    Succeeds (resolveAndSettle settings now broker) id (closeLoop settings now broker closing db) →
    ((tick settings now broker closing resolving db).viewOf id).market.map Market.status =
      some .settled
  unchanged : ∀ id ∈ dueToClose now db, ¬ Succeeds (closeAndDecide settings now broker) id db →
    (tick settings now broker closing resolving db).viewOf id = db.viewOf id

variable {settings now broker closing resolving db}

theorem closeLoop_isolated_iff :
    Isolated (closeAndDecide settings now broker) Db.viewOf db (dueToClose now db)
        (closeLoop settings now broker closing db) ↔
      FailuresFirst (closeAndDecide settings now broker) db
        (closing.arrange (dueToClose now db)) := by
  rw [Isolated.perm (closing.perm _)]
  exact closeAndDecide_local.isolated_iff (closing.nodup (Table.select_nodup _ _))

theorem resolveLoop_isolated_iff :
    Isolated (resolveAndSettle settings now broker) Db.viewOf db (dueToResolve now db)
        (resolveLoop settings now broker resolving db) ↔
      FailuresFirst (resolveAndSettle settings now broker) db
        (resolving.arrange (dueToResolve now db)) := by
  rw [Isolated.perm (resolving.perm _)]
  exact resolveAndSettle_local.isolated_iff (resolving.nodup (Table.select_nodup _ _))

theorem closeLoopBreaks_iff :
    closeLoopBreaks settings now broker closing db = true ↔
      FirstLoopBreaks settings now broker db := by
  have nodup : (closing.arrange (dueToClose now db)).Nodup :=
    closing.nodup (Table.select_nodup _ _)
  rw [closeLoopBreaks, closeAndDecide_local.sweepBreaks_iff nodup rfl fun _ _ => rfl]
  simp only [(closing.perm _).mem_iff, FirstLoopBreaks]

theorem tick_broken (breaks : FirstLoopBreaks settings now broker db) :
    tick settings now broker closing resolving db =
      closeLoop settings now broker closing db := by
  rw [tick, if_pos (closeLoopBreaks_iff.mpr breaks)]

theorem tick_unbroken (unbroken : ¬ FirstLoopBreaks settings now broker db) :
    tick settings now broker closing resolving db =
      resolveLoop settings now broker resolving (closeLoop settings now broker closing db) := by
  rw [tick, if_neg fun breaks => unbroken (closeLoopBreaks_iff.mp breaks)]

/-- After a failed flush of the first loop nothing is settled, so only what cannot be settled
ends as it should. -/
theorem secondLoop_isolated_iff :
    Isolated (resolveAndSettle settings now broker) Db.viewOf
        (closeLoop settings now broker closing db)
        (dueToResolve now (closeLoop settings now broker closing db))
        (tick settings now broker closing resolving db) ↔
      (FirstLoopBreaks settings now broker db →
          ∀ id ∈ dueToResolve now (closeLoop settings now broker closing db),
            ¬ Succeeds (resolveAndSettle settings now broker) id
              (closeLoop settings now broker closing db)) ∧
        (¬ FirstLoopBreaks settings now broker db →
          FailuresFirst (resolveAndSettle settings now broker)
            (closeLoop settings now broker closing db)
            (resolving.arrange
              (dueToResolve now (closeLoop settings now broker closing db)))) := by
  by_cases breaks : FirstLoopBreaks settings now broker db
  · rw [tick_broken breaks, resolveAndSettle_local.isolated_refl_iff]
    simp [breaks]
  · rw [tick_unbroken breaks, resolveLoop_isolated_iff]
    simp [breaks]

/-- A market that stays open is not visited by the second loop. -/
theorem resolveLoop_skips_open {id : ℕ}
    (isOpen : (db.viewOf id).market.map Market.status = some .open) :
    (resolveLoop settings now broker resolving db).viewOf id = db.viewOf id := by
  refine resolveAndSettle_local.sweep_frame ?_ rfl
  rw [(resolving.perm _).mem_iff, dueToResolve, Table.mem_select_ids]
  rintro ⟨row, found, due⟩
  obtain ⟨status, _⟩ := of_decide_eq_true due
  have sameStatus : row.status = .open := by simpa [Db.viewOf, found] using isOpen
  rw [sameStatus] at status
  rcases status with status | status | status <;> cases status

/-- Whether the second loop is made or not, a market that stays open is left alone. -/
theorem tick_skips_open {id : ℕ}
    (isOpen : ((closeLoop settings now broker closing db).viewOf id).market.map Market.status =
      some .open) :
    (tick settings now broker closing resolving db).viewOf id =
      (closeLoop settings now broker closing db).viewOf id := by
  by_cases breaks : FirstLoopBreaks settings now broker db
  · rw [tick_broken breaks]
  · rw [tick_unbroken breaks, resolveLoop_skips_open isOpen]

/-- A tick isolates its markets exactly when, in both loops, nothing that succeeds is
visited before a failure or after a failed flush, and a failed flush of the first loop keeps
no market from being settled. -/
theorem tick_isolates (settings : Settings) (now : Time) (broker : TickCall → Broker)
    (closing resolving : RowOrder) (db : Db) :
    TickIsolated settings now broker closing resolving db ↔
      FailuresFirst (closeAndDecide settings now broker) db
          (closing.arrange (dueToClose now db)) ∧
        (FirstLoopBreaks settings now broker db →
          ∀ id ∈ dueToResolve now (closeLoop settings now broker closing db),
            ¬ Succeeds (resolveAndSettle settings now broker) id
              (closeLoop settings now broker closing db)) ∧
        (¬ FirstLoopBreaks settings now broker db →
          FailuresFirst (resolveAndSettle settings now broker)
            (closeLoop settings now broker closing db)
            (resolving.arrange
              (dueToResolve now (closeLoop settings now broker closing db)))) := by
  have second : Isolated (resolveAndSettle settings now broker) Db.viewOf
      (closeLoop settings now broker closing db)
      (dueToResolve now (closeLoop settings now broker closing db))
      (tick settings now broker closing resolving db) ↔ _ := secondLoop_isolated_iff
  rw [← closeLoop_isolated_iff, ← second]
  constructor
  · exact fun isolated => ⟨isolated.closeLoop_isolated, isolated.resolveLoop_isolated⟩
  · rintro ⟨first, second⟩
    refine ⟨first, ?_, second, ?_, ?_⟩
    · rintro id due ⟨next, success⟩
      obtain ⟨_, advanced⟩ := closeAndDecide_advances success
      rw [(first id due).1 next success]
      exact advanced
    · rintro id due ⟨next, success⟩
      rw [(second id due).1 next success]
      exact (resolveAndSettle_advances success).2
    · intro id due fails
      have kept := (first id due).2 fails
      obtain ⟨row, found, isDue⟩ := Table.mem_select_ids.mp due
      have isOpen : ((closeLoop settings now broker closing db).viewOf id).market.map
          Market.status = some .open := by
        rw [kept]
        simp [Db.viewOf, found, (of_decide_eq_true isDue).1]
      rw [tick_skips_open isOpen, kept]

/-- Two markets whose time has come. -/
def twoDueMarkets : List Event :=
  [.request desk (.createMember { email := "a@example.com", name := "a" }),
    .request desk (.createFund "fund" "1" "KIS"),
    .request desk (.createMarket
      { fundId := 1, title := "first", ticker := "005930", closesAt := desk.now,
        resolveAt := desk.now + 1, notionalKrw := 100000 } 1),
    .request desk (.createMarket
      { fundId := 1, title := "second", ticker := "000660", closesAt := desk.now,
        resolveAt := desk.now + 1, notionalKrw := 100000 } 1)]

/-- A broker that has no quote for the second market. -/
def quotesFirstOnly : TickCall → Broker
  | .close 2 => { desk.broker with getQuote := fun _ => .error (.broker "시세 조회 실패") }
  | _ => desk.broker

/-- A broker whose name for the first market is longer than the column. -/
def longFirstName : TickCall → Broker
  | .close 1 => { desk.broker with
      getQuote := fun ticker =>
        .ok { ticker, price := 50000, name := some (String.ofList (List.replicate 101 'n')) } }
  | _ => desk.broker

/-- A due market that can be advanced alone and is still open after the first loop. -/
theorem not_isolated_of_open {id : ℕ} (due : id ∈ dueToClose now db)
    (succeeds : (closeAndDecide settings now broker id db).toOption.isSome = true)
    (stillOpen : ((closeLoop settings now broker closing db).viewOf id).market.map
      Market.status = some .open) :
    ¬ TickIsolated settings now broker closing resolving db := by
  intro isolated
  obtain ⟨next, success⟩ := Option.isSome_iff_exists.mp succeeds
  have decided := (isolated.decided id due ⟨next, toOption_eq_some.mp success⟩).1
  rw [stillOpen] at decided
  cases decided

/-- The first market is closed and decided, and then rolled back with the second; or the flush
of the first one fails, and the second is not visited any more. -/
theorem tick_not_isolated :
    ¬ TickIsolated {} desk.now quotesFirstOnly .insertion .insertion
        (stateAfter Db.empty twoDueMarkets) ∧
      ¬ TickIsolated {} desk.now longFirstName .insertion .insertion
        (stateAfter Db.empty twoDueMarkets) :=
  ⟨@not_isolated_of_open _ _ _ _ _ _ 1 (by decide +kernel) (by decide +kernel) (by decide +kernel),
    @not_isolated_of_open _ _ _ _ _ _ 2 (by decide +kernel) (by decide +kernel) (by decide +kernel)⟩

end Tick

end FundPolymarket
