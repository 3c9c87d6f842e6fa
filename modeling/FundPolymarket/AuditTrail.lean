import FundPolymarket.Snapshot
import FundPolymarket.Tasks

set_option autoImplicit false

/- The audit trail: whatever overlaps, no commit rewrites what the rows of the past have
fixed, and only bets are ever deleted. -/
namespace FundPolymarket

open Decimal (Numeric)
open Interleaving (Act Along World)

/-- What the creation of a market fixes. -/
structure MarketTerms where
  fundId : ℕ
  createdBy : ℕ
  title : String
  description : Option String
  ticker : String
  closesAt : Time
  resolveAt : Time
  buyThresholdPct : Numeric 6 2
  sellThresholdPct : Numeric 6 2
  notionalKrw : Points

def Market.terms (market : Market) : MarketTerms :=
  ⟨market.fundId, market.createdBy, market.title, market.description, market.ticker,
    market.closesAt, market.resolveAt, market.buyThresholdPct, market.sellThresholdPct,
    market.notionalKrw⟩

abbrev Fixed : TableName → Type
  | .members => Member
  | .funds => Fund
  | .positions => ℕ × String
  | .markets => MarketTerms
  | .bets => Bet
  | .ledger => LedgerEntry
  | .decisions => Judgement
  | .orders => Order

/-- What a row keeps for as long as it exists: members, funds, orders and the ledger keep
everything. -/
def fixed : (name : TableName) → Row name → Fixed name
  | .members, row | .funds, row | .ledger, row | .orders, row => row
  | .positions, row => (row.fundId, row.ticker)
  | .markets, row => row.terms
  | .bets, row => row.core
  | .decisions, row => row.judgement

namespace Write

/-- An update that leaves alone what its row has fixed. -/
def Keeps : Write → Prop
  | .updateMarket _ set => ∀ row, (set row).terms = row.terms
  | .updateDecision _ set => ∀ row, (set row).judgement = row.judgement
  | _ => True

theorem on_continues {write : Write} (keeps : write.Keeps) (name : TableName)
    (rows : Table (Row name)) : rows.Continues (fixed name) (write.on name rows) := by
  by_cases other : write.table = name
  · subst other
    cases write with
    | insertMember | insertFund | insertMarket | insertBet | insertLedger | insertDecision
    | insertOrder | insertPosition => exact .insert rows _
    | updateMarket | updateDecision => exact .update keeps rows _
    | deleteBet => exact .delete rows _
    | setPayout _ payout =>
        exact .update (fun bet => (rfl : Bet.core { bet with payout := some payout } = _)) rows _
    | setPosition _ tickerName quantity avgPrice =>
        exact .update (fun p => (rfl : fixed .positions { p with tickerName, quantity, avgPrice } =
          _)) rows _
  · rw [on_of_ne other]
    exact .refl rows

theorem on_retains (write : Write) {name : TableName} (notBets : name ≠ .bets)
    (rows : Table (Row name)) : rows.Retains (write.on name rows) := by
  by_cases other : write.table = name
  · subst other
    cases write with
    | insertMember | insertFund | insertMarket | insertLedger | insertDecision | insertOrder
    | insertPosition => exact .insert rows _
    | updateMarket | updateDecision | setPosition => exact .update rows _ _
    | insertBet | deleteBet | setPayout => exact absurd rfl notBets
  · rw [on_of_ne other]
    exact fun _ row found => ⟨row, found⟩

end Write

/-- How a later state continues an earlier one. -/
structure TrailKept (early late : Db) : Prop where
  fixed : ∀ name, (early.table name).Continues (fixed name) (late.table name)
  retained : ∀ name, name ≠ .bets → (early.table name).Retains (late.table name)

namespace TrailKept

variable {early middle late : Db}

theorem refl (db : Db) : TrailKept db db :=
  ⟨fun _ => .refl _, fun _ _ _ row found => ⟨row, found⟩⟩

theorem trans (first : TrailKept early middle) (second : TrailKept middle late) :
    TrailKept early late :=
  ⟨fun name => (first.fixed name).trans (second.fixed name),
    fun name notBets => (first.retained name notBets).trans (second.retained name notBets)⟩

theorem write {write : Write} (keeps : write.Keeps) (applied : applyWrite early write = .ok late) :
    TrailKept early late := by
  refine ⟨fun name => ?_, fun name notBets => ?_⟩
  · rw [applyWrite_table applied]
    exact Write.on_continues keeps name _
  · rw [applyWrite_table applied]
    exact Write.on_retains write notBets _

theorem writes {writes : List Write} (keep : ∀ w ∈ writes, w.Keeps)
    (applied : applyWrites early writes = .ok late) : TrailKept early late := by
  induction writes generalizing early with
  | nil =>
      cases applied
      exact refl _
  | cons head tail ih =>
      obtain ⟨next, applyHead, applyTail⟩ := applyWrites_cons_eq_ok.mp applied
      exact (write (keep head List.mem_cons_self) applyHead).trans
        (ih (fun w member => keep w (List.mem_cons_of_mem _ member)) applyTail)

end TrailKept

/-- No request changes what a row has fixed. -/
theorem Commits.keep {env : Env} {db : Db} {request : Request} {writes : List Write}
    (committed : Commits env db request writes) : ∀ w ∈ writes, w.Keeps := by
  intro w member
  cases committed with
  | createMember | createFund | createMarket =>
      simp only [List.mem_cons, List.not_mem_nil, or_false] at member
      rcases member with rfl | rfl <;> trivial
  | closeMarket | createDecision | rejectDecision | resolveMarket =>
      simp only [List.mem_cons, List.not_mem_nil, or_false] at member
      rcases member with rfl | rfl <;> first | trivial | exact fun _ => rfl
  | putAllocation =>
      simp only [List.mem_append, List.mem_map, List.mem_singleton] at member
      rcases member with ((⟨_, _, rfl⟩ | ⟨_, _, rfl⟩) | ⟨_, _, rfl⟩) | rfl <;> trivial
  | approveDecision =>
      simp only [successWrites, List.mem_cons, List.not_mem_nil, or_false] at member
      rcases member with rfl | rfl | rfl <;> first | trivial | exact fun _ => rfl
  | settleMarket =>
      simp only [List.mem_append, List.mem_map, List.mem_singleton] at member
      rcases member with (⟨_, _, rfl⟩ | ⟨_, _, rfl⟩) | rfl <;> first | trivial | exact fun _ => rfl
  | cancelMarket =>
      simp only [List.mem_append, List.mem_map, List.mem_singleton] at member
      rcases member with ⟨_, _, rfl⟩ | rfl <;> first | trivial | exact fun _ => rfl
  | syncFund synced =>
      have table := syncPositions_table synced w member
      cases w <;> trivial

theorem Task.trailKept {task : Task} {seen now next : Db}
    (returned : (task.handle seen now).result = .ok ())
    (applied : applyWrites now (task.handle seen now).flushed = .ok next) : TrailKept now next := by
  refine .writes (Task.writes_induction (motive := fun _ => True) ?_ trivial trivial returned
    applied) applied
  exact fun _ _ _ _ _ _ flushes => ⟨flushes.commits.keep, fun _ _ => trivial⟩

/-- One event after the other keeps the trail too. -/
theorem trailKept_stateAfter (start : Db) (events : List Event) :
    TrailKept start (stateAfter start events) :=
  @requests_invariant (fun _ _ _ => True) (fun _ => True) _ _
    (fun _ _ _ _ _ => trivial)
    (fun _ _ _ _ _ _ _ committed applied held => held.trans (.writes committed.keep applied))
    (.refl start) events (fun _ _ => trusts_anything _) fun s _ => s.meets_anything

/-- A condition on a task and the state that it reads. -/
def Starts (allowed : Task → Db → Prop) (world : World Db Task OrderRequest) : Act Task → Prop
  | .start task => allowed task world.shared
  | .send _ | .commit _ => True

instance (allowed : Task → Db → Prop) [∀ task db, Decidable (allowed task db)]
    (world : World Db Task OrderRequest) (act : Act Task) : Decidable (Starts allowed world act) :=
  match act with
  | .start task => inferInstanceAs (Decidable (allowed task world.shared))
  | .send _ | .commit _ => .isTrue trivial

theorem starts_anything (world : World Db Task OrderRequest) (acts : List (Act Task)) :
    Along tasks (Starts fun _ _ => True) world acts := by
  induction acts generalizing world with
  | nil => trivial
  | cons act acts ih => exact ⟨by cases act <;> trivial, ih _⟩

/-- What every allowed task keeps that has read an earlier state holds however the tasks
overlap. -/
theorem tasks_invariant {allowed : Task → Db → Prop} {invariant : Db → Prop}
    (kept : ∀ task seen now next, allowed task seen → TrailKept seen now → invariant seen →
      invariant now → (task.handle seen now).result = .ok () →
      applyWrites now (task.handle seen now).flushed = .ok next → invariant next)
    {db : Db} (init : invariant db) {acts : List (Act Task)}
    (starts : Along tasks (Starts allowed) (World.quiet db) acts) :
    invariant (Interleaving.run tasks (World.quiet db) acts).shared := by
  refine (@Interleaving.run_invariant _ _ _ tasks (Starts allowed) (fun world =>
    invariant world.shared ∧ ∀ flight ∈ world.flights, allowed flight.request flight.seen ∧
      invariant flight.seen ∧ TrailKept flight.seen world.shared) ?_ (World.quiet db)
    ⟨init, by simp [World.quiet]⟩ acts starts).1
  rintro before act next starts moves ⟨held, reads⟩
  have flights := moves.forall_flights
    (P := fun task seen => allowed task seen ∧ invariant seen ∧ TrailKept seen before.shared) reads
    (by rintro task rfl; exact ⟨starts, held, .refl _⟩)
  cases moves with
  | idle | start | send => exact ⟨held, flights⟩
  | @commit index flight found stage =>
      obtain ⟨permitted, sound, trail⟩ := reads flight (List.mem_of_getElem? found)
      rcases Task.commit_cases flight.request flight.seen before.shared with
        same | ⟨returned, applied⟩
      · simp only [same]
        exact ⟨held, flights⟩
      · refine ⟨kept _ _ _ _ permitted trail sound held returned applied, fun other member => ?_⟩
        obtain ⟨othersPermitted, othersSound, othersTrail⟩ := flights other member
        exact ⟨othersPermitted, othersSound,
          othersTrail.trans (Task.trailKept returned applied)⟩

/-- However the requests and the loops of the scheduler overlap, the trail is kept. -/
theorem audit_trail_kept (world : World Db Task OrderRequest) (acts : List (Act Task)) :
    TrailKept world.shared (Interleaving.run tasks world acts).shared := by
  refine @Interleaving.run_invariant _ _ _ tasks (fun _ _ => True)
    (fun later => TrailKept world.shared later.shared) ?_ world (.refl _) acts
    (.of_forall world fun _ _ => trivial)
  intro before act next _ moves held
  cases moves with
  | idle | start | send => exact held
  | @commit index flight found stage =>
      change TrailKept world.shared (tasks.commit flight.request flight.seen before.shared)
      rcases Task.commit_cases flight.request flight.seen before.shared with
        same | ⟨returned, applied⟩
      · rwa [same]
      · exact held.trans (Task.trailKept returned applied)

end FundPolymarket
