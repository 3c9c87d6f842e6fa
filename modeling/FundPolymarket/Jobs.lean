import FundPolymarket.Interleaving
import FundPolymarket.Runs

set_option autoImplicit false

/- Requests and visits of the scheduler that overlap. Under read committed isolation
a request decides on what it has read, and its statements meet whatever has been
committed since. -/
namespace FundPolymarket

open Interleaving (Act Protocol World)

/-- A request, or a visit of the first loop of a tick. -/
inductive Job where
  | request (env : Env) (request : Request)
  | closeAndDecide (settings : Settings) (now : Time) (broker : TickCall → Broker) (marketId : ℕ)

/-- The statements of a visit: `build_decision` sees what `close_market` has flushed. -/
def closeAndDecideWrites (settings : Settings) (now : Time) (broker : TickCall → Broker)
    (marketId : ℕ) (db : Db) : Except AppError (List Write) := do
  let market ← getMarket db marketId
  let closing ← closeMarket marketId market (broker (.close marketId)) now
  let closed ← applyWrites db closing
  let market ← getMarket closed marketId
  let building ← buildDecision settings closed marketId market (broker (.build marketId))
  pure (closing ++ building)

theorem closeAndDecide_eq (settings : Settings) (now : Time) (broker : TickCall → Broker)
    (marketId : ℕ) (db : Db) :
    closeAndDecide settings now broker marketId db =
      closeAndDecideWrites settings now broker marketId db >>= applyWrites db := by
  unfold closeAndDecide closeAndDecideWrites
  simp only [bind_assoc, pure_bind, applyWrites_append]
  congr 1
  funext market
  congr 1
  funext closing
  cases applied : applyWrites db closing <;> rfl

/-- A request that returns, with what its session has flushed. -/
structure Flushes (env : Env) (db : Db) (request : Request) (writes : List Write) : Prop where
  returned : (handle env db request).result = .ok ()
  flushed : (handle env db request).flushed = writes

theorem Flushes.commits {env : Env} {db : Db} {request : Request} {writes : List Write}
    (flushes : Flushes env db request writes) : Commits env db request writes :=
  flushes.flushed ▸ handle_commits flushes.returned

theorem Flushes.of_handled {env : Env} {db : Db} {request : Request} {writes : List Write}
    (handled : handle env db request = .ofService (.ok writes)) :
    Flushes env db request writes := by
  refine ⟨?_, ?_⟩ <;> rw [handled] <;> rfl

theorem Flushes.service {env : Env} {db : Db} {request : Request} {writes : List Write}
    {service : Except AppError (List Write)} (flushes : Flushes env db request writes)
    (handled : handle env db request = .ofService service) : service = .ok writes := by
  obtain ⟨returned, flushed⟩ := flushes
  rw [handled] at returned flushed
  exact flushed ▸ Handled.ofService_ok returned

/-- A visit that goes through writes what a close writes, and then a decision. -/
theorem closeAndDecideWrites_flushes {settings : Settings} {now : Time}
    {broker : TickCall → Broker} {marketId : ℕ} {db : Db} {writes : List Write}
    (success : closeAndDecideWrites settings now broker marketId db = .ok writes) :
    ∃ closing closed building, writes = closing ++ building ∧
      Flushes ⟨settings, now, broker (.close marketId)⟩ db (.closeMarket marketId) closing ∧
      applyWrites db closing = .ok closed ∧
      Flushes ⟨settings, now, broker (.build marketId)⟩ closed (.createDecision marketId)
        building := by
  obtain ⟨market, found, rest⟩ := bind_eq_ok.mp success
  obtain ⟨closing, closingOk, rest⟩ := bind_eq_ok.mp rest
  obtain ⟨closed, applied, rest⟩ := bind_eq_ok.mp rest
  obtain ⟨reread, refound, rest⟩ := bind_eq_ok.mp rest
  obtain ⟨building, buildingOk, same⟩ := bind_eq_ok.mp rest
  refine ⟨closing, closed, building, (Except.ok.inj same).symm, .of_handled ?_, applied,
    .of_handled ?_⟩
  · exact congrArg Handled.ofService (bind_eq_ok.mpr ⟨market, found, closingOk⟩)
  · exact congrArg Handled.ofService (bind_eq_ok.mpr ⟨reread, refound, buildingOk⟩)

theorem closeAndDecideWrites_commits {settings : Settings} {now : Time}
    {broker : TickCall → Broker} {marketId : ℕ} {db : Db} {writes : List Write}
    (success : closeAndDecideWrites settings now broker marketId db = .ok writes) :
    ∃ closing closed building, writes = closing ++ building ∧
      Commits ⟨settings, now, broker (.close marketId)⟩ db (.closeMarket marketId) closing ∧
      applyWrites db closing = .ok closed ∧
      Commits ⟨settings, now, broker (.build marketId)⟩ closed (.createDecision marketId)
        building := by
  obtain ⟨closing, closed, building, same, closes, applied, builds⟩ :=
    closeAndDecideWrites_flushes success
  exact ⟨closing, closed, building, same, closes.commits, applied, builds.commits⟩

def Job.handle (db : Db) : Job → Handled
  | .request env asked => FundPolymarket.handle env db asked
  | .closeAndDecide settings now broker marketId =>
      .ofService (closeAndDecideWrites settings now broker marketId db)

/-- A job decides on the state it has seen; its writes meet the current one. -/
def jobs : Protocol Db Job OrderRequest where
  sends job seen := (job.handle seen).sent
  commit job seen now := (endRequest now (job.handle seen)).db

/-- A request leaves the state as it is, or applies the writes of a handler that returned. -/
theorem endRequest_cases (now : Db) (handled : Handled) :
    (endRequest now handled).db = now ∨
      handled.result = .ok () ∧
        applyWrites now handled.flushed = .ok (endRequest now handled).db := by
  unfold endRequest Session.flush
  simp only [Session.begin]
  cases flush : applyWrites now handled.flushed with
  | error exc => exact .inl rfl
  | ok working =>
      simp only [Functor.map, Except.map]
      cases ended : handled.result with
      | error exc => exact .inl rfl
      | ok done => exact .inr ⟨rfl, rfl⟩

theorem commit_cases (job : Job) (seen now : Db) :
    jobs.commit job seen now = now ∨
      (job.handle seen).result = .ok () ∧
        applyWrites now (job.handle seen).flushed = .ok (jobs.commit job seen now) :=
  endRequest_cases now (job.handle seen)

/-- Sequential requests are interleavings in which nothing overlaps. -/
theorem serial_stateAfter (db : Db) (requests : List (Env × Request)) :
    (Interleaving.run jobs (World.quiet db)
      (Interleaving.serial 0 (requests.map fun asked => Job.request asked.1 asked.2))).shared =
      stateAfter db (requests.map fun asked => .request asked.1 asked.2) := by
  refine (Interleaving.run_serial jobs (World.quiet db) _).trans ?_
  rw [stateAfter, List.foldl_map, List.foldl_map]
  rfl

/-- The second job reads before the first one has committed. -/
def overlapping (first second : Job) : List (Act Job) :=
  [.start first, .start second, .send 0, .send 1, .commit 0, .commit 1]

end FundPolymarket
