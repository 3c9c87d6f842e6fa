import FundPolymarket.AuditTrail
import FundPolymarket.PayoutLaws

set_option autoImplicit false

/- The foreign keys of the tables. The model has no constraint for them; none would ever
be violated, because the rows they name are never deleted. -/
namespace FundPolymarket

open Interleaving (Act Along World)

/-- The rows that a row names, as `ForeignKey` columns do. -/
def foreignKeys : (name : TableName) → Row name → List (TableName × ℕ)
  | .members, _ | .funds, _ => []
  | .positions, row => [(.funds, row.fundId)]
  | .markets, row => [(.funds, row.fundId), (.members, row.createdBy)]
  | .bets, row => [(.markets, row.marketId), (.members, row.memberId)]
  | .ledger, row => (.members, row.memberId) :: row.marketId.toList.map (.markets, ·)
  | .decisions, row => (.markets, row.marketId) :: row.approvedBy.toList.map (.members, ·)
  | .orders, row => (.funds, row.fundId) ::
      (row.decisionId.toList.map (.decisions, ·) ++ row.marketId.toList.map (.markets, ·))

def Db.Has (db : Db) (key : TableName × ℕ) : Prop := ∃ row, (db.table key.1).get? key.2 = some row

/-- The rows of a table name only rows that are there. -/
def KeysIn (has : TableName × ℕ → Prop) (name : TableName) (rows : Table (Row name)) : Prop :=
  ∀ row ∈ rows.contents, ∀ key ∈ foreignKeys name row, has key

def ForeignKeysHold (db : Db) : Prop := ∀ name, KeysIn db.Has name (db.table name)

theorem foreignKeys_notBets {name : TableName} {row : Row name} {key : TableName × ℕ}
    (member : key ∈ foreignKeys name row) : key.1 ≠ .bets := by
  cases name <;>
    simp only [foreignKeys, List.mem_cons, List.mem_append, List.mem_map, Option.mem_toList,
      List.not_mem_nil, or_false] at member <;> aesop

namespace Write

/-- A statement whose row names only rows that are there, before it or anyway. -/
def Refers (has : TableName × ℕ → Prop) : Write → Prop
  | .updateMarket _ set => ∀ row, foreignKeys .markets (set row) = foreignKeys .markets row
  | .updateDecision _ set => ∀ row, ∀ key ∈ foreignKeys .decisions (set row),
      key ∈ foreignKeys .decisions row ∨ has key
  | .insertMarket row => ∀ key ∈ foreignKeys .markets row, has key
  | .insertBet row => ∀ key ∈ foreignKeys .bets row, has key
  | .insertLedger row => ∀ key ∈ foreignKeys .ledger row, has key
  | .insertDecision row => ∀ key ∈ foreignKeys .decisions row, has key
  | .insertOrder row => ∀ key ∈ foreignKeys .orders row, has key
  | .insertPosition row => ∀ key ∈ foreignKeys .positions row, has key
  | .insertMember _ | .insertFund _ | .deleteBet _ | .setPayout _ _ | .setPosition _ _ _ _ => True

theorem keysIn_insert {has : TableName × ℕ → Prop} {name : TableName} {rows : Table (Row name)}
    {value : Row name} (refers : ∀ key ∈ foreignKeys name value, has key)
    (held : KeysIn has name rows) : KeysIn has name (rows.insert value) := by
  intro row member key named
  rw [Table.contents_insert, List.mem_append, List.mem_singleton] at member
  rcases member with old | rfl
  · exact held row old key named
  · exact refers key named

theorem keysIn_update {has : TableName × ℕ → Prop} {name : TableName} {rows : Table (Row name)}
    {id : ℕ} {set : Row name → Row name}
    (refers : ∀ row, ∀ key ∈ foreignKeys name (set row), key ∈ foreignKeys name row ∨ has key)
    (held : KeysIn has name rows) : KeysIn has name (rows.update id set) := by
  intro row member key named
  obtain ⟨old, oldMember, same | same⟩ := Table.mem_contents_update member
  · exact held old oldMember key (same ▸ named)
  · subst same
    rcases refers old key named with before | fresh
    · exact held old oldMember key before
    · exact fresh

theorem keysIn_on {has : TableName × ℕ → Prop} {write : Write} (refers : write.Refers has)
    {name : TableName} {rows : Table (Row name)} (held : KeysIn has name rows) :
    KeysIn has name (write.on name rows) := by
  by_cases other : write.table = name
  · subst other
    cases write with
    | insertMember row | insertFund row => exact keysIn_insert (List.forall_mem_nil has) held
    | insertMarket row | insertBet row | insertLedger row | insertDecision row | insertOrder row
    | insertPosition row => exact keysIn_insert refers held
    | updateMarket id set =>
        exact keysIn_update (fun row key named => .inl (refers row ▸ named)) held
    | updateDecision id set => exact keysIn_update refers held
    | setPayout | setPosition => exact keysIn_update (fun row key named => .inl named) held
    | deleteBet id =>
        intro row member
        obtain ⟨entry, listed, rfl⟩ := List.mem_map.mp member
        exact held _ (List.mem_map_of_mem (List.mem_of_mem_filter listed))
  · rwa [on_of_ne other]

end Write

theorem applyWrites_keysIn {has : TableName × ℕ → Prop} {db next : Db} {writes : List Write}
    (refer : ∀ w ∈ writes, w.Refers has) (applied : applyWrites db writes = .ok next)
    {name : TableName} (held : KeysIn has name (db.table name)) :
    KeysIn has name (next.table name) :=
  applyWrites_invariant (fun w member _ => Write.keysIn_on (refer w member)) applied held

theorem TrailKept.has {early late : Db} (trail : TrailKept early late) {key : TableName × ℕ}
    (notBets : key.1 ≠ .bets) : early.Has key → late.Has key
  | ⟨row, found⟩ => trail.retained key.1 notBets key.2 row found

theorem KeysIn.mono {has more : TableName × ℕ → Prop} {name : TableName} {rows : Table (Row name)}
    (covers : ∀ key, key.1 ≠ .bets → has key → more key) (held : KeysIn has name rows) :
    KeysIn more name rows :=
  fun row member key named =>
    covers key (foreignKeys_notBets named) (held row member key named)

/-- The member that a request acts for. -/
def Request.actor : Request → Option ℕ
  | .createMarket _ memberId | .putAllocation _ memberId _ _ | .approveDecision _ memberId
  | .rejectDecision _ memberId _ => some memberId
  | _ => none

/-- The tables that no loop adds a row to and that other rows name. -/
def TableName.base : TableName → Bool
  | .members | .funds | .markets => true
  | _ => false

section Refers

variable {has : TableName × ℕ → Prop} {env : Env} {db : Db} {request : Request}
  {writes : List Write}

theorem Recorded.refers {memberId marketId : ℕ} {entryType : LedgerEntryType} {amount : ℚ}
    {entry : LedgerEntry} (recorded : Recorded memberId entryType amount (some marketId) entry)
    (member : has (.members, memberId)) (market : has (.markets, marketId)) :
    (Write.insertLedger entry).Refers has := by
  intro key named
  simp only [foreignKeys, recorded.memberId_eq, recorded.marketId_eq, Option.toList_some,
    List.map_cons, List.map_nil, List.mem_cons, List.not_mem_nil, or_false] at named
  rcases named with rfl | rfl
  · exact member
  · exact market

/-- Whoever has a bet on a market is a member. -/
theorem KeysIn.bettor (held : KeysIn has .bets db.bets.toTable) {marketId : ℕ} {row : ℕ × Bet}
    (member : row ∈ db.betsOf marketId) : has (.members, row.2.memberId) :=
  held row.2 (betsOf_mem member) _ (by simp [foreignKeys])

/-- Nobody has approved a decision that has just been built. -/
theorem buildDecision_keys {settings : Settings} {marketId : ℕ} {market : Market} {broker : Broker}
    (success : buildDecision settings db marketId market broker = .ok writes) :
    ∃ decision, writes = [.insertDecision decision, .updateMarket marketId Market.decide] ∧
      foreignKeys .decisions decision = [(.markets, marketId)] := by
  obtain ⟨_, rest⟩ := raiseIf_bind_eq_ok.mp success
  split at rest
  · cases rest
  -- the quote, the figures of the consensus, the quantity and the limit price
  obtain ⟨_, _, rest⟩ := bind_eq_ok.mp rest
  obtain ⟨_, _, rest⟩ := bind_eq_ok.mp rest
  obtain ⟨_, _, rest⟩ := bind_eq_ok.mp rest
  obtain ⟨_, _, rest⟩ := bind_eq_ok.mp rest
  obtain ⟨_, _, rest⟩ := bind_eq_ok.mp rest
  obtain ⟨_, _, same⟩ := bind_eq_ok.mp rest
  exact ⟨_, (Except.ok.inj same).symm, rfl⟩

theorem syncedWrite_refers {fundId : ℕ} {s : Synced} {write : Write}
    (success : syncedWrite fundId s = .ok write) (fund : has (.funds, fundId)) :
    write.Refers has := by
  obtain ⟨stored, _, rest⟩ := bind_eq_ok.mp success
  split at rest
  · cases rest
    trivial
  · obtain ⟨ticker, _, same⟩ := bind_eq_ok.mp rest
    cases same
    intro key named
    rw [List.mem_singleton.mp named]
    exact fund

/-- Approvals and rejections name the admin. -/
theorem TradeDecision.keys_signed {adminId : ℕ} {id : ℕ} {set : TradeDecision → TradeDecision}
    (market : ∀ row, (set row).marketId = row.marketId)
    (signed : ∀ row, (set row).approvedBy = some adminId) (admin : has (.members, adminId)) :
    (Write.updateDecision id set).Refers has := by
  intro row key named
  simp only [foreignKeys, market, signed, Option.toList_some, List.map_cons, List.map_nil,
    List.mem_cons, List.not_mem_nil, or_false] at named
  rcases named with rfl | rfl
  · exact .inl List.mem_cons_self
  · exact .inr admin

/-- What a request may rely on: the rows that it finds, the member it acts for, and the
member or the decision that it is about. -/
structure Grounded (has : TableName × ℕ → Prop) (db : Db) (request : Request) : Prop where
  covers : ∀ key, key.1.base = true → db.Has key → has key
  held : ∀ name, KeysIn has name (db.table name)
  actor : ∀ memberId ∈ request.actor, has (.members, memberId)
  registered : ∀ payload, request = .createMember payload → has (.members, db.members.nextId)
  decided : ∀ decisionId adminId, request = .approveDecision decisionId adminId →
    has (.decisions, decisionId)

theorem Grounded.market (grounded : Grounded has db request) {marketId : ℕ} {market : Market}
    (found : db.markets.get? marketId = some market) : has (.markets, marketId) :=
  grounded.covers _ rfl ⟨market, found⟩

theorem Commits.refers_ledger (committed : Commits env db request writes)
    (grounded : Grounded has db request) {entry : LedgerEntry}
    (member : entry ∈ insertedRows .ledger writes) : (Write.insertLedger entry).Refers has := by
  have writesLedger := committed.table_of_row member
  cases committed with
  | createFund | createMarket | closeMarket | createDecision | approveDecision | rejectDecision
  | resolveMarket | syncFund => simp [Request.tables] at writesLedger
  | @createMember payload grant granted =>
      cases List.mem_singleton.mp member
      have row := record_eq_ok granted
      intro key named
      simp only [foreignKeys, row.memberId_eq, row.marketId_eq, Option.toList_none, List.map_nil,
        List.mem_singleton] at named
      exact named ▸ grounded.registered payload rfl
  | putAllocation found _ refunded _ locked =>
      have actor := grounded.actor _ rfl
      rw [allocation_rows] at member
      rcases List.mem_append.mp member with refund | lock
      · exact (refund_recorded refunded entry refund).refers actor (grounded.market found)
      · cases List.mem_singleton.mp lock
        exact (record_eq_ok locked).refers actor (grounded.market found)
  | settleMarket found _ _ settled recorded _ =>
      rw [settlement_rows] at member
      obtain ⟨pair, due, row⟩ := forall₂_exists_left (payouts_recorded recorded) member
      obtain ⟨s, staked, owner, _⟩ := settleParimutuel_members settled
        (List.mem_map_of_mem (List.mem_filter.mp due).1)
      obtain ⟨bet, betMember, rfl⟩ := List.mem_map.mp staked
      exact row.refers (owner ▸ (grounded.held .bets).bettor betMember) (grounded.market found)
  | cancelMarket found _ _ recorded =>
      rw [cancellation_rows] at member
      obtain ⟨pair, due, row⟩ := forall₂_exists_left (refunds_recorded recorded) member
      have keyed := (Tally.mem_keys_ofList _ _).mp (List.mem_map_of_mem (List.mem_filter.mp due).1)
      rw [List.map_map] at keyed
      obtain ⟨bet, betMember, owner⟩ := List.mem_map.mp keyed
      exact row.refers (owner ▸ (grounded.held .bets).bettor betMember) (grounded.market found)

theorem Flushes.refers (flushes : Flushes env db request writes)
    (grounded : Grounded has db request) : ∀ w ∈ writes, w.Refers has := by
  have ledger := fun entry => @Commits.refers_ledger has env db request writes flushes.commits
    grounded entry
  intro w member
  cases flushes.commits with
  | @createMember payload grant granted =>
      simp only [List.mem_cons, List.not_mem_nil, or_false] at member
      rcases member with rfl | rfl
      · trivial
      · exact ledger _ (by simp [insertedRows, Write.inserted])
  | createFund =>
      cases List.mem_singleton.mp member
      trivial
  | @createMarket payload adminId market =>
      obtain ⟨_, same, created⟩ := createMarket_eq_ok (flushes.service rfl)
      obtain ⟨fund, found⟩ := created.fund
      cases same
      cases List.mem_singleton.mp member
      intro key named
      simp only [foreignKeys, List.mem_cons, List.not_mem_nil, or_false] at named
      rcases named with rfl | rfl
      · exact grounded.covers _ rfl ⟨fund, found⟩
      · exact created.creator ▸ grounded.actor _ rfl
  | putAllocation found _ refunded staked locked =>
      simp only [List.mem_append, List.mem_map, List.mem_singleton] at member
      rcases member with ((⟨entry, listed, rfl⟩ | ⟨_, _, rfl⟩) | ⟨bet, listed, rfl⟩) | rfl
      · exact ledger entry (by rw [allocation_rows]; exact List.mem_append_left _ listed)
      · trivial
      · obtain ⟨market, owner, _⟩ := newBets_mem (newBets_eq_ok staked) listed
        intro key named
        simp only [foreignKeys, market, owner, List.mem_cons, List.not_mem_nil, or_false] at named
        rcases named with rfl | rfl
        · exact grounded.market found
        · exact grounded.actor _ rfl
      · exact ledger _ (by rw [allocation_rows]; exact List.mem_append_right _ (by simp))
  | closeMarket | resolveMarket =>
      cases List.mem_singleton.mp member
      exact fun _ => rfl
  | @createDecision marketId market decision found =>
      obtain ⟨_, _, built⟩ := bind_eq_ok.mp (flushes.service rfl)
      obtain ⟨_, same, keys⟩ := buildDecision_keys built
      cases same
      simp only [List.mem_cons, List.not_mem_nil, or_false] at member
      rcases member with rfl | rfl
      · intro key named
        rw [keys, List.mem_singleton] at named
        exact named ▸ grounded.market found
      · exact fun _ => rfl
  | @approveDecision decisionId adminId decision prepared result brokerOrderNo executed numbered =>
      have prepares := prepareOrder_eq_ok executed.prepared_eq
      simp only [successWrites, List.mem_cons, List.not_mem_nil, or_false] at member
      rcases member with rfl | rfl | rfl
      · have fund := grounded.held .markets prepared.market
          (Table.get?_mem_contents prepares.found) (.funds, prepared.market.fundId)
          (by simp [foreignKeys])
        intro key named
        simp only [Order.submit, foreignKeys, (prepareOrder_order executed.prepared_eq).1,
          prepares.decisionId_eq, prepares.marketId_eq, Option.toList_some, List.map_cons,
          List.map_nil, List.cons_append, List.nil_append, List.mem_cons, List.not_mem_nil,
          or_false] at named
        rcases named with rfl | rfl | rfl
        · exact fund
        · exact grounded.decided _ _ rfl
        · exact grounded.market prepares.found
      · exact TradeDecision.keys_signed (fun _ => rfl) (fun _ => rfl) (grounded.actor _ rfl)
      · exact fun _ => rfl
  | rejectDecision =>
      cases List.mem_singleton.mp member
      exact TradeDecision.keys_signed (fun _ => rfl) (fun _ => rfl) (grounded.actor _ rfl)
  | settleMarket =>
      simp only [List.mem_append, List.mem_map, List.mem_singleton] at member
      rcases member with (⟨entry, listed, rfl⟩ | ⟨_, _, rfl⟩) | rfl
      · exact ledger entry (by rwa [settlement_rows])
      · trivial
      · exact fun _ => rfl
  | cancelMarket =>
      simp only [List.mem_append, List.mem_map, List.mem_singleton] at member
      rcases member with ⟨entry, listed, rfl⟩ | rfl
      · exact ledger entry (by rwa [cancellation_rows])
      · exact fun _ => rfl
  | syncFund =>
      obtain ⟨fund, found, synced⟩ := bind_eq_ok.mp (flushes.service rfl)
      obtain ⟨_, _, mapped⟩ := bind_eq_ok.mp synced
      obtain ⟨s, _, written⟩ := forall₂_exists_left (mapM_forall₂ mapped) member
      exact syncedWrite_refers written (grounded.covers _ rfl ⟨fund, orRaise_eq_ok.mp found⟩)

end Refers

section Rows

variable {env : Env} {db next : Db} {request : Request} {writes : List Write}

theorem Write.on_origin {write : Write} {name : TableName} {rows : Table (Row name)} {id : ℕ}
    {later : Row name} (none : write.inserted name = none)
    (found : (write.on name rows).get? id = some later) : ∃ row, rows.get? id = some row := by
  by_cases other : write.table = name
  · subst other
    cases write with
    | insertMember | insertFund | insertMarket | insertBet | insertLedger | insertDecision
    | insertOrder | insertPosition => cases none
    | updateMarket | updateDecision | setPayout | setPosition =>
        obtain ⟨row, foundRow, _⟩ := Table.of_get?_update found
        exact ⟨row, foundRow⟩
    | deleteBet => exact ⟨later, Table.of_get?_delete found⟩
  · rw [on_of_ne other] at found
    exact ⟨later, found⟩

/-- The loops add no members, funds or markets. -/
theorem Commits.base_rows (committed : Commits env db request writes)
    (scheduled : request.scheduled = true) {name : TableName} (base : name.base = true) :
    ∀ w ∈ writes, w.inserted name = none := by
  intro w member
  cases committed with
  | createMember | createFund | createMarket | putAllocation | approveDecision | rejectDecision
  | cancelMarket | syncFund => cases scheduled
  | closeMarket | resolveMarket =>
      cases List.mem_singleton.mp member
      rfl
  | createDecision =>
      simp only [List.mem_cons, List.not_mem_nil, or_false] at member
      rcases member with rfl | rfl
      · cases name <;> first | rfl | cases base
      · rfl
  | settleMarket =>
      simp only [List.mem_append, List.mem_map, List.mem_singleton] at member
      rcases member with (⟨_, _, rfl⟩ | ⟨_, _, rfl⟩) | rfl <;>
        cases name <;> first | rfl | cases base

theorem applyWrites_origin {name : TableName} (none : ∀ w ∈ writes, w.inserted name = none)
    (applied : applyWrites db writes = .ok next) {id : ℕ} (has : next.Has (name, id)) :
    db.Has (name, id) := by
  refine applyWrites_invariant (P := fun rows => (∃ row, rows.get? id = some row) →
    db.Has (name, id)) ?_ applied (fun same => same) has
  rintro w member rows earlier ⟨row, found⟩
  exact earlier (Write.on_origin (none w member) found)

theorem Commits.newMember {payload : MemberCreate}
    (committed : Commits env db (.createMember payload) writes)
    (applied : applyWrites db writes = .ok next) :
    next.members.get? db.members.nextId =
      some { email := payload.email, name := payload.name, role := payload.role } := by
  have members := applyWrites_table applied .members
  cases committed with
  | createMember =>
      rw [show next.members.get? db.members.nextId =
        (next.table .members).get? db.members.nextId from rfl, members]
      exact (Table.get?_insert _ _ _).trans (if_pos rfl)

theorem Commits.registered {payload : MemberCreate}
    (committed : Commits env db (.createMember payload) writes)
    (applied : applyWrites db writes = .ok next) : next.Has (.members, db.members.nextId) :=
  ⟨_, committed.newMember applied⟩

theorem Commits.approved_has {decisionId adminId : ℕ}
    (committed : Commits env db (.approveDecision decisionId adminId) writes) :
    db.Has (.decisions, decisionId) := by
  cases committed with
  | approveDecision executed => exact ⟨_, executed.found⟩

end Rows

section Run

variable {seen now next : Db} {task : Task}

/-- Whoever is logged in has a row that the request has read. -/
def Authenticated : Task → Db → Prop
  | .request _ asked, db => ∀ memberId ∈ asked.actor, db.Has (.members, memberId)
  | .closeLoop _ _ _ _, _ | .resolveLoop _ _ _ _, _ => True

instance (db : Db) (key : TableName × ℕ) : Decidable (db.Has key) :=
  decidable_of_iff _ Option.isSome_iff_exists

instance (task : Task) (db : Db) : Decidable (Authenticated task db) :=
  match task with
  | .request _ asked =>
      inferInstanceAs (Decidable (∀ memberId ∈ asked.actor, db.Has (.members, memberId)))
  | .closeLoop _ _ _ _ | .resolveLoop _ _ _ _ => .isTrue trivial

/-- The writes of a loop name rows that are there when it commits. -/
theorem Task.loop_refers {has : TableName × ℕ → Prop}
    (loop : ∀ env asked, task ≠ .request env asked)
    (covers : ∀ key, key.1.base = true → seen.Has key → has key)
    (held : ∀ name, KeysIn has name (seen.table name)) :
    ∀ w ∈ (task.handle seen now).flushed, w.Refers has := by
  refine Task.loop_induction (motive := fun state =>
    (∀ key, key.1.base = true → state.Has key → has key) ∧
      ∀ name, KeysIn has name (state.table name)) ?_ loop ⟨covers, held⟩
  rintro env db request writes scheduled ⟨covers, held⟩ flushes
  have grounded : Grounded has db request := by
    refine ⟨covers, held, ?_, ?_, ?_⟩
    · cases request <;> simp_all [Request.actor, Request.scheduled]
    · rintro _ rfl
      cases scheduled
    · rintro _ _ rfl
      cases scheduled
  have refer := flushes.refers grounded
  refine ⟨refer, fun next applied => ⟨fun key base has => ?_, fun name => ?_⟩⟩
  · exact covers key base
      (applyWrites_origin (flushes.commits.base_rows scheduled base) applied has)
  · exact applyWrites_keysIn refer applied (held name)

/-- So do the writes of a request. -/
theorem Task.request_refers {env : Env} {asked : Request}
    (authenticated : Authenticated (.request env asked) seen) (trail : TrailKept seen now)
    (seenHold : ForeignKeysHold seen) (nowHold : ForeignKeysHold now)
    (returned : ((Task.request env asked).handle seen now).result = .ok ())
    (applied : applyWrites now ((Task.request env asked).handle seen now).flushed = .ok next) :
    ∀ w ∈ ((Task.request env asked).handle seen now).flushed, w.Refers next.Has := by
  have later := Task.trailKept returned applied
  obtain ⟨db, which, flushes⟩ := Task.request_flushes returned applied
  have reaches : TrailKept db next ∧ ForeignKeysHold db := by
    rcases which with ⟨rfl, _⟩ | rfl
    · exact ⟨trail.trans later, seenHold⟩
    · exact ⟨later, nowHold⟩
  refine flushes.refers ⟨fun key base => reaches.1.has ?_, fun name => ?_, ?_, ?_, ?_⟩
  · rintro same
    rw [same] at base
    cases base
  · exact (reaches.2 name).mono fun key => reaches.1.has
  · exact fun memberId actor => (trail.trans later).has (by simp) (authenticated memberId actor)
  · rintro payload rfl
    rcases which with ⟨_, other⟩ | rfl
    · exact absurd rfl (other payload)
    · exact flushes.commits.registered applied
  · rintro decisionId adminId rfl
    exact reaches.1.has (by simp) flushes.commits.approved_has

/-- However authenticated requests and the loops of the scheduler overlap, no row ever names
one that is missing. -/
theorem foreign_keys_hold {db : Db} (init : ForeignKeysHold db) {acts : List (Act Task)}
    (starts : Along tasks (Starts Authenticated) (World.quiet db) acts) :
    ForeignKeysHold (Interleaving.run tasks (World.quiet db) acts).shared := by
  refine tasks_invariant ?_ init starts
  intro task seen now next authenticated trail seenHold nowHold returned applied name
  have later := Task.trailKept returned applied
  have refer : ∀ w ∈ (task.handle seen now).flushed, w.Refers next.Has := by
    by_cases loop : ∀ env asked, task ≠ .request env asked
    · refine Task.loop_refers loop (fun key base => (trail.trans later).has ?_)
        fun name => (seenHold name).mono fun key => (trail.trans later).has
      rintro same
      rw [same] at base
      cases base
    · push Not at loop
      obtain ⟨env, asked, rfl⟩ := loop
      exact Task.request_refers authenticated trail seenHold nowHold returned applied
  exact applyWrites_keysIn refer applied ((nowHold name).mono fun key => later.has)

theorem foreignKeysHold_empty : ForeignKeysHold Db.empty := by
  intro name row member
  cases name <;> cases member

/-- The first loop of a tick reads an open market; before it commits, another allocation of
the member does. -/
def closedMeanwhile : List (Act Task) :=
  Interleaving.serial 0 (serialTasks Db.empty openedMarket) ++
    [.start (.closeLoop {} (desk.now + 1) (fun _ => desk.broker) .insertion),
      .start (.request desk (.putAllocation 1 1 ⟨[(.hold, 60)], by decide⟩ none)),
      .send 5, .commit 5, .send 4, .commit 4]

theorem foreign_keys_hold_overlapping :
    ForeignKeysHold
        (Interleaving.run tasks (World.quiet Db.empty) closedMeanwhile).shared ∧
      ∃ decision ∈
          (Interleaving.run tasks (World.quiet Db.empty) closedMeanwhile).shared.decisions.contents,
        decision.marketId = 1 :=
  ⟨foreign_keys_hold foreignKeysHold_empty (by decide +kernel), by decide +kernel⟩

end Run

end FundPolymarket
