import FundPolymarket.Jobs

set_option autoImplicit false

/- Everything that can commit: the requests and the two loops of a tick, overlapping
each other. Unlike a visit on its own, a loop commits once, at its end. -/
namespace FundPolymarket

open Interleaving (Act Protocol World)

/-- A request, or one of the two loops of a tick. -/
inductive Task where
  | request (env : Env) (request : Request)
  | closeLoop (settings : Settings) (now : Time) (broker : TickCall → Broker) (order : RowOrder)
  | resolveLoop (settings : Settings) (now : Time) (broker : TickCall → Broker) (order : RowOrder)

/-- `create_member` looks for the address in what it has read; the key of the new row is
the next one of the table that the insert meets. -/
def createMemberAt (env : Env) (seen now : Db) (payload : MemberCreate) :
    Except AppError (List Write) := do
  checkMember seen.members.contents payload
  let grant ← record now.members.nextId .initialGrant env.settings.initialPoints none
    (some "초기 포인트 지급")
  pure [.insertMember { email := payload.email, name := payload.name, role := payload.role },
    .insertLedger grant]

/-- The statements of a visit of the second loop. -/
def resolveAndSettleWrites (settings : Settings) (now : Time) (broker : TickCall → Broker)
    (marketId : ℕ) (db : Db) : Except AppError (List Write) := do
  let market ← getMarket db marketId
  let resolving ← resolveMarket marketId market (broker (.resolve marketId)) now
  let resolved ← applyWrites db resolving
  let market ← getMarket resolved marketId
  let settling ← settleMarket resolved marketId settings market now
  pure (resolving ++ settling)

theorem resolveAndSettle_eq (settings : Settings) (now : Time) (broker : TickCall → Broker)
    (marketId : ℕ) (db : Db) :
    resolveAndSettle settings now broker marketId db =
      resolveAndSettleWrites settings now broker marketId db >>= applyWrites db := by
  unfold resolveAndSettle resolveAndSettleWrites
  simp only [bind_assoc, pure_bind, applyWrites_append]
  congr 1
  funext market
  congr 1
  funext resolving
  cases applied : applyWrites db resolving <;> rfl

/-- A visit that goes through writes what a resolution writes, and then a settlement. -/
theorem resolveAndSettleWrites_flushes {settings : Settings} {now : Time}
    {broker : TickCall → Broker} {marketId : ℕ} {db : Db} {writes : List Write}
    (success : resolveAndSettleWrites settings now broker marketId db = .ok writes) :
    ∃ resolving resolved settling, writes = resolving ++ settling ∧
      Flushes ⟨settings, now, broker (.resolve marketId)⟩ db (.resolveMarket marketId)
        resolving ∧
      applyWrites db resolving = .ok resolved ∧
      Flushes ⟨settings, now, broker (.resolve marketId)⟩ resolved (.settleMarket marketId)
        settling := by
  obtain ⟨market, found, rest⟩ := bind_eq_ok.mp success
  obtain ⟨resolving, resolvingOk, rest⟩ := bind_eq_ok.mp rest
  obtain ⟨resolved, applied, rest⟩ := bind_eq_ok.mp rest
  obtain ⟨reread, refound, rest⟩ := bind_eq_ok.mp rest
  obtain ⟨settling, settlingOk, same⟩ := bind_eq_ok.mp rest
  refine ⟨resolving, resolved, settling, (Except.ok.inj same).symm, .of_handled ?_, applied,
    .of_handled ?_⟩
  · exact congrArg Handled.ofService (bind_eq_ok.mpr ⟨market, found, resolvingOk⟩)
  · exact congrArg Handled.ofService (bind_eq_ok.mpr ⟨reread, refound, settlingOk⟩)

section Loops

variable (settings : Settings) (now : Time) (broker : TickCall → Broker) (order : RowOrder)
  (db : Db)

/-- What the first loop commits. -/
def closeLoopWrites : List Write :=
  sweepWrites (closeAndDecideWrites settings now broker) applyWrites AppError.ofFlush db
    (order.arrange (dueToClose now db)) db []

/-- What the second loop commits. -/
def resolveLoopWrites : List Write :=
  sweepWrites (resolveAndSettleWrites settings now broker) applyWrites AppError.ofFlush db
    (order.arrange (dueToResolve now db)) db []

theorem applyWrites_closeLoopWrites :
    applyWrites db (closeLoopWrites settings now broker order db) =
      .ok (closeLoop settings now broker order db) := by
  have advance : closeAndDecide settings now broker =
      fun marketId state => closeAndDecideWrites settings now broker marketId state >>=
        applyWrites state := by
    funext marketId state
    exact closeAndDecide_eq settings now broker marketId state
  rw [closeLoop, advance]
  exact apply_sweepWrites (fun _ => rfl) applyWrites_append rfl

theorem applyWrites_resolveLoopWrites :
    applyWrites db (resolveLoopWrites settings now broker order db) =
      .ok (resolveLoop settings now broker order db) := by
  have advance : resolveAndSettle settings now broker =
      fun marketId state => resolveAndSettleWrites settings now broker marketId state >>=
        applyWrites state := by
    funext marketId state
    exact resolveAndSettle_eq settings now broker marketId state
  rw [resolveLoop, advance]
  exact apply_sweepWrites (fun _ => rfl) applyWrites_append rfl

end Loops

/-- What a task that has read one state does where its writes meet another one. -/
def Task.handle (seen now : Db) : Task → Handled
  | .request env (.createMember payload) => .ofService (createMemberAt env seen now payload)
  | .request env asked => FundPolymarket.handle env seen asked
  | .closeLoop settings time broker order =>
      .ofService (.ok (closeLoopWrites settings time broker order seen))
  | .resolveLoop settings time broker order =>
      .ofService (.ok (resolveLoopWrites settings time broker order seen))

/-- A task sends its orders before it commits. -/
def tasks : Protocol Db Task OrderRequest where
  sends task seen := (task.handle seen seen).sent
  commit task seen now := (endRequest now (task.handle seen now)).db

/-- Where nothing comes between, a request is the one of a sequential run. -/
theorem Task.handle_request (env : Env) (asked : Request) (db : Db) :
    (Task.request env asked).handle db db = FundPolymarket.handle env db asked := by
  cases asked <;> rfl

theorem Task.commit_cases (task : Task) (seen now : Db) :
    tasks.commit task seen now = now ∨
      (task.handle seen now).result = .ok () ∧
        applyWrites now (task.handle seen now).flushed = .ok (tasks.commit task seen now) :=
  endRequest_cases now (task.handle seen now)

/-- What else is checked of a new member does not depend on the others. -/
theorem checkMember_of_fresh {seen now : List Member} {payload : MemberCreate} {done : Unit}
    (checked : checkMember seen payload = .ok done)
    (fresh : ¬ ∃ member ∈ now, member.email = payload.email) :
    checkMember now payload = .ok () := by
  obtain ⟨_, name, rest⟩ := bind_eq_ok.mp checked
  obtain ⟨_, texts⟩ := raiseIf_bind_eq_ok.mp rest
  exact bind_eq_ok.mpr ⟨(), name, raiseIf_bind_eq_ok.mpr ⟨fresh, texts⟩⟩

/-- A registration that the unique constraint lets through is one on the state that it
meets. -/
theorem createMemberAt_eq {env : Env} {seen now next : Db} {payload : MemberCreate}
    {writes : List Write} (success : createMemberAt env seen now payload = .ok writes)
    (applied : applyWrites now writes = .ok next) : createMember env now payload = .ok writes := by
  obtain ⟨_, checked, rest⟩ := bind_eq_ok.mp success
  refine bind_eq_ok.mpr ⟨(), checkMember_of_fresh checked ?_, rest⟩
  obtain ⟨grant, _, same⟩ := bind_eq_ok.mp rest
  cases same
  obtain ⟨_, inserted, _⟩ := applyWrites_cons_eq_ok.mp applied
  obtain ⟨members, fresh, _⟩ := bind_eq_ok.mp inserted
  rintro ⟨member, listed, taken⟩
  obtain ⟨row, rowMember, rfl⟩ := List.mem_map.mp listed
  rw [orRaise_eq_ok, UniqueTable.insert?, dif_pos ⟨row, rowMember, taken⟩] at fresh
  cases fresh

/-- A request flushes what it decides on the state that it has read or, for a new member, on
the one that it meets. -/
theorem Task.request_flushes {env : Env} {asked : Request} {seen now next : Db}
    (returned : ((Task.request env asked).handle seen now).result = .ok ())
    (applied : applyWrites now ((Task.request env asked).handle seen now).flushed = .ok next) :
    ∃ db, (db = seen ∧ (∀ payload, asked ≠ .createMember payload) ∨ db = now) ∧
      Flushes env db asked ((Task.request env asked).handle seen now).flushed := by
  cases asked with
  | createMember payload =>
      have created := createMemberAt_eq (Handled.ofService_ok returned) applied
      exact ⟨now, .inr rfl, .of_handled (congrArg Handled.ofService created)⟩
  | _ => exact ⟨seen, .inl ⟨rfl, by simp⟩, returned, rfl⟩

/-- The requests that a task makes. -/
def Task.Makes : Task → Request → Prop
  | .request _ asked, made => made = asked
  | .closeLoop _ _ _ _, made | .resolveLoop _ _ _ _, made => made.scheduled = true

/-- What every commit keeps and what its writes satisfy, along a loop. -/
theorem Task.loop_induction {motive : Db → Prop} {P : Write → Prop} {task : Task} {seen now : Db}
    (each : ∀ env db request writes, request.scheduled = true → motive db →
      Flushes env db request writes →
      (∀ w ∈ writes, P w) ∧ ∀ next, applyWrites db writes = .ok next → motive next)
    (loop : ∀ env asked, task ≠ .request env asked) (read : motive seen) :
    ∀ w ∈ (task.handle seen now).flushed, P w := by
  have both : ∀ {firstEnv secondEnv first second db middle} {earlier later : List Write},
      first.scheduled = true → second.scheduled = true → motive db →
      Flushes firstEnv db first earlier → applyWrites db earlier = .ok middle →
      Flushes secondEnv middle second later →
      (∀ w ∈ earlier ++ later, P w) ∧
        ∀ next, applyWrites db (earlier ++ later) = .ok next → motive next := by
    intro firstEnv secondEnv first second db middle earlier later isFirst isSecond held one applied
      two
    obtain ⟨ofEarlier, kept⟩ := each firstEnv db first earlier isFirst held one
    obtain ⟨ofLater, keptLater⟩ :=
      each secondEnv middle second later isSecond (kept middle applied) two
    refine ⟨fun w member => (List.mem_append.mp member).elim (ofEarlier w) (ofLater w), ?_⟩
    intro next whole
    rw [applyWrites_append, applied] at whole
    exact keptLater next whole
  cases task with
  | request env asked => exact absurd rfl (loop env asked)
  | closeLoop settings time broker order =>
      refine sweepWrites_forall read read (by simp) fun marketId state writes held visited => ?_
      obtain ⟨closing, closed, building, rfl, one, applied, two⟩ :=
        closeAndDecideWrites_flushes visited
      exact both rfl rfl held one applied two
  | resolveLoop settings time broker order =>
      refine sweepWrites_forall read read (by simp) fun marketId state writes held visited => ?_
      obtain ⟨resolving, resolved, settling, rfl, one, applied, two⟩ :=
        resolveAndSettleWrites_flushes visited
      exact both rfl rfl held one applied two

/-- The same for every task. -/
theorem Task.writes_induction {motive : Db → Prop} {P : Write → Prop} {task : Task}
    {seen now next : Db}
    (each : ∀ env db request writes, task.Makes request → motive db →
      Flushes env db request writes →
      (∀ w ∈ writes, P w) ∧ ∀ next, applyWrites db writes = .ok next → motive next)
    (read : motive seen) (met : motive now) (returned : (task.handle seen now).result = .ok ())
    (applied : applyWrites now (task.handle seen now).flushed = .ok next) :
    ∀ w ∈ (task.handle seen now).flushed, P w := by
  cases task with
  | request env asked =>
      obtain ⟨db, which, flushes⟩ := Task.request_flushes returned applied
      refine (each env db asked _ rfl ?_ flushes).1
      rcases which with ⟨rfl, _⟩ | rfl
      · exact read
      · exact met
  | closeLoop settings time broker order =>
      exact Task.loop_induction (motive := motive) each (by simp) read
  | resolveLoop settings time broker order =>
      exact Task.loop_induction (motive := motive) each (by simp) read

/-- The tasks of an event: a first loop that breaks off is the last. -/
def Event.tasks (db : Db) : Event → List Task
  | .request env asked => [.request env asked]
  | .tick settings now broker closing resolving =>
      .closeLoop settings now broker closing ::
        if closeLoopBreaks settings now broker closing db then []
        else [.resolveLoop settings now broker resolving]

/-- The tasks of a run, one event after the other. -/
def serialTasks (db : Db) : List Event → List Task
  | [] => []
  | event :: events => event.tasks db ++ serialTasks (event.serve db).db events

theorem endRequest_ofService {db next : Db} {writes : List Write}
    (applied : applyWrites db writes = .ok next) :
    (endRequest db (.ofService (.ok writes))).db = next := by
  unfold endRequest Session.flush
  simp only [Handled.ofService, Session.begin, applied]
  rfl

/-- The tasks of an event, one after the other, do what the event does. -/
theorem foldl_tasks (db : Db) (event : Event) :
    (event.tasks db).foldl (fun state task => tasks.commit task state state) db =
      (event.serve db).db := by
  cases event with
  | request env asked =>
      exact congrArg (fun handled => (endRequest db handled).db)
        (Task.handle_request env asked db)
  | tick settings now broker closing resolving =>
      have closes : tasks.commit (.closeLoop settings now broker closing) db db =
          closeLoop settings now broker closing db :=
        endRequest_ofService (applyWrites_closeLoopWrites settings now broker closing db)
      have resolves : ∀ middle, tasks.commit (.resolveLoop settings now broker resolving)
          middle middle = resolveLoop settings now broker resolving middle := fun middle =>
        endRequest_ofService (applyWrites_resolveLoopWrites settings now broker resolving middle)
      have served : (Event.serve (.tick settings now broker closing resolving) db).db =
          tick settings now broker closing resolving db := rfl
      rw [served, tick, Event.tasks, List.foldl_cons, closes]
      split
      · rfl
      · rw [List.foldl_cons, List.foldl_nil, resolves]

/-- One event after the other is an interleaving in which nothing overlaps. -/
theorem serial_tasks (db : Db) (events : List Event) :
    (Interleaving.run tasks (World.quiet db)
      (Interleaving.serial 0 (serialTasks db events))).shared = stateAfter db events := by
  refine (Interleaving.run_serial tasks (World.quiet db) _).trans ?_
  rw [World.quiet]
  induction events generalizing db with
  | nil => rfl
  | cons event events ih =>
      rw [serialTasks, List.foldl_append, foldl_tasks]
      exact ih (event.serve db).db

end FundPolymarket
