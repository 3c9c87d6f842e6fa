import FundPolymarket.KisTokens
import FundPolymarket.LiveLock

set_option autoImplicit false

/- KIS limits how often it issues a token. A program that nobody disturbs asks for one once a
lifetime, restarts included. -/
namespace FundPolymarket.Kis

open Python (Json Unicode)

/-- The requests to the token endpoint. -/
def asksToken (request : HttpRequest) : Option Unit :=
  if request.path = pathToken then some () else none

/-- The readings of a clock follow each other, after the ones before. -/
def Clock.Ordered (since : ℤ) (clock : Clock) : Prop :=
  List.IsChain (· ≤ ·)
    [Python.minTime, since, clock.now, clock.loaded, clock.issued, clock.fallback]

theorem Clock.Ordered.le_fallback {since time : ℤ} {clock : Clock} (ordered : clock.Ordered since)
    (past : time ≤ since) : time ≤ clock.fallback := by
  simp only [Clock.Ordered, List.isChain_cons_cons, List.isChain_singleton, and_true] at ordered
  omega

theorem Clock.Ordered.loaded_le_fallback {since time : ℤ} {clock : Clock}
    (ordered : clock.Ordered since) (past : time ≤ clock.loaded) : time ≤ clock.fallback := by
  simp only [Clock.Ordered, List.isChain_cons_cons, List.isChain_singleton, and_true] at ordered
  omega

/-- Restarts and calls one after another; the cache file can be written, and nobody else writes
it. -/
def Undisturbed : ℤ → List ProgramEvent → Prop
  | _, [] => True
  | since, .reset :: events => Undisturbed since events
  | since, .operate s _ :: events =>
      s.store = .written ∧ s.clock.Ordered since ∧ Undisturbed s.clock.fallback events
  | _, .configure _ :: _ | _, .otherProgram _ :: _ => False

/-- A token that expires then is about to, or it is in the file, and the memory has no other. -/
def Covered (env : KisEnv) (since expiresAt : ℤ) (client : KisClient) (file : CacheFile) : Prop :=
  expiresAt - tokenSkew ≤ since ∨
    ∃ token, token.truthy = true ∧ file = .entry (.str env.text) token expiresAt ∧
      (client.token.truthy = true → client.tokenExpiresAt = some expiresAt)

section Access

variable {client : KisClient} {file : CacheFile} {s : Surroundings} {env : KisEnv}
  {since expiresAt : ℤ}

theorem Covered.later (covered : Covered env since expiresAt client file)
    (ordered : s.clock.Ordered since) : Covered env s.clock.fallback expiresAt client file :=
  covered.imp_left ordered.le_fallback

/-- The endpoint is not asked before a token that covers the program is about to expire. -/
theorem Covered.le_loaded (covered : Covered env since expiresAt client file)
    (within : expiresAt ≤ Python.maxTime) (inEnv : client.env = env)
    (cached : client.hasCache = true) (ordered : s.clock.Ordered since)
    (stale : ¬ client.HasFresh s.clock.now)
    (none : ∀ token, ¬ client.FileGives s.clock file token) :
    expiresAt - tokenSkew ≤ s.clock.loaded := by
  simp only [Clock.Ordered, List.isChain_cons_cons, List.isChain_singleton, and_true] at ordered
  rcases covered with past | ⟨token, truthy, rfl, memory⟩
  · omega
  · obtain ⟨start, since, loaded, _⟩ := ordered
    refine le_of_not_gt fun late => ?_
    have later : s.clock.now < expiresAt - tokenSkew := lt_of_le_of_lt loaded late
    by_cases held : client.token.truthy = true
    · exact stale ⟨held, expiresAt, memory held, later⟩
    · have inCalendar : Python.InCalendar (expiresAt - tokenSkew) := by
        refine ⟨le_trans start (le_trans since (le_of_lt later)), ?_⟩
        unfold tokenSkew
        omega
      exact none token ⟨truthy, expiresAt, ⟨cached, by rw [inEnv], inCalendar, late⟩, later⟩

variable [Unicode]

/-- The endpoint is asked only where neither the memory nor the file has a token. -/
theorem accessToken_sent (client : KisClient) (file : CacheFile) :
    (Wire.accessToken s (client, file)).sent = [] ∨
      client.MemorySafe ∧ ¬ client.HasFresh s.clock.now ∧ ¬ client.Denied file ∧
        ∀ token, ¬ client.FileGives s.clock file token := by
  unfold Wire.accessToken
  simp only [Logged.get_bind, Logged.lift_bind]
  cases first : client.tokenIsFresh s.clock.now with
  | error e => exact .inl rfl
  | ok fresh =>
      obtain ⟨safe, isFresh⟩ := KisClient.tokenIsFresh_eq_ok.mp first
      cases fresh with
      | true => exact .inl rfl
      | false =>
          have stale : ¬ client.HasFresh s.clock.now := fun held => by simp [held] at isFresh
          cases load : client.loadCachedToken s.clock file with
          | error e => exact .inl rfl
          | ok loaded =>
              simp only [raises, Except.mapError, Bool.false_eq_true, if_false, Logged.lift_bind,
                Logged.set_bind]
              have allowed : ¬ client.Denied file := fun denied => by
                simp [KisClient.loadCachedToken, denied.1, denied.2] at load
              cases second : loaded.tokenIsFresh s.clock.now with
              | error e => exact .inl rfl
              | ok usable =>
                  cases usable with
                  | true => exact .inl rfl
                  | false =>
                      refine .inr ⟨safe, stale, allowed, fun token gives => ?_⟩
                      obtain ⟨expiresAt, loads⟩ := gives.loads
                      have same := (KisClient.loadCachedToken_of_loads loads).symm.trans load
                      cases same
                      have held := (KisClient.loaded_hasFresh load allowed stale).mpr gives
                      simpa using (KisClient.tokenIsFresh_eq_ok.mp second).2.mpr held

theorem parseTokenExpiry_le {clock : Clock} {body : Json}
    (parsed : parseTokenExpiry clock body = .ok expiresAt) : expiresAt ≤ Python.maxTime := by
  have sum_le : ∀ {t difference later : ℤ}, Python.plus t difference = .ok later →
      later ≤ Python.maxTime := by
    intro t difference later sum
    obtain ⟨inCalendar, rfl⟩ := Python.plus_eq_ok.mp sum
    exact inCalendar.2
  unfold parseTokenExpiry at parsed
  obtain ⟨expiresIn, _, rest⟩ := bind_eq_ok.mp parsed
  obtain ⟨fromSeconds, seconds, rest⟩ := bind_eq_ok.mp rest
  cases fromSeconds with
  | some early =>
      cases rest
      unfold expiryFromSeconds at seconds
      split at seconds
      · cases seconds
      · split at seconds
        · obtain ⟨later, sum, same⟩ := map_eq_ok.mp seconds
          cases same
          exact sum_le sum
        · cases seconds
        · cases seconds
        · cases seconds
  | none =>
      obtain ⟨raw, _, rest⟩ := bind_eq_ok.mp rest
      obtain ⟨fromText, read, rest⟩ := bind_eq_ok.mp rest
      cases fromText with
      | none => exact sum_le rest
      | some early =>
          cases rest
          unfold expiryFromText at read
          split at read
          · split at read
            · obtain ⟨later, sum, same⟩ := map_eq_ok.mp read
              cases same
              exact sum_le sum
            · cases read
          · cases read

theorem issueToken_given {clock : Clock} {token : Json}
    (given : KisClient.issueToken clock s.token = .ok (token, expiresAt)) :
    token.truthy = true ∧ expiresAt ≤ Python.maxTime := by
  obtain ⟨body, _, rest⟩ := bind_eq_ok.mp given
  obtain ⟨read, _, rest⟩ := bind_eq_ok.mp rest
  obtain ⟨truthy, rest⟩ := raiseIf_bind_eq_ok.mp rest
  obtain ⟨expiry, parsed, same⟩ := bind_eq_ok.mp rest
  cases same
  exact ⟨Bool.eq_true_of_not_eq_false truthy, parseTokenExpiry_le (mapError_eq_ok.mp parsed)⟩

/-- An access to the token keeps a token covered, and covers the one that it is given. -/
theorem Covered.access (covered : Covered env since expiresAt client file)
    (within : expiresAt ≤ Python.maxTime) (inEnv : client.env = env)
    (cached : client.hasCache = true) (ordered : s.clock.Ordered since) :
    Covered env s.clock.fallback expiresAt (Wire.accessToken s (client, file)).state.1
      (Wire.accessToken s (client, file)).state.2 := by
  rw [(accessToken_read client file).1]
  have access := client.access s.clock file s.token s.store
  have kept := covered.later ordered
  generalize client.accessToken s.clock file s.token s.store = read at access ⊢
  cases access with
  | overflow | memory | denied => exact kept
  | file safe stale allowed loads gives =>
      rcases kept with past | ⟨token, truthy, own, _⟩
      · exact .inl past
      · have entry := own.symm.trans loads.2.1
        rw [inEnv] at entry
        cases entry
        exact .inr ⟨_, truthy, own, fun _ => rfl⟩
  | refused safe stale allowed load none raised =>
      exact .inl (ordered.loaded_le_fallback
        (covered.le_loaded within inEnv cached ordered stale none))
  | issued safe stale allowed load none given =>
      exact .inl (ordered.loaded_le_fallback
        (covered.le_loaded within inEnv cached ordered stale none))

/-- A grant covers the program. -/
theorem covered_of_grant (inEnv : client.env = env) (cached : client.hasCache = true)
    (written : s.store = .written) (asked : (Wire.accessToken s (client, file)).sent ≠ [])
    {token : Json} (given : KisClient.issueToken s.clock s.token = .ok (token, expiresAt)) :
    Covered env s.clock.fallback expiresAt (Wire.accessToken s (client, file)).state.1
      (Wire.accessToken s (client, file)).state.2 := by
  rw [(accessToken_read client file).1]
  obtain ⟨safe, stale, allowed, none⟩ := (accessToken_sent client file).resolve_left asked
  have access := client.access s.clock file s.token s.store
  generalize client.accessToken s.clock file s.token s.store = read at access ⊢
  cases access with
  | overflow outside => exact absurd safe outside
  | memory _ fresh => exact absurd fresh stale
  | denied _ _ denied => exact absurd denied allowed
  | file _ _ _ _ gives => exact absurd gives (none _)
  | refused _ _ _ _ _ raised =>
      rw [given] at raised
      cases raised
  | issued _ _ _ load _ got =>
      rw [given] at got
      cases got
      obtain ⟨_, _, same⟩ := loadCachedToken_same load
      subst same
      refine .inr ⟨token, (issueToken_given given).1, ?_, fun _ => rfl⟩
      simp only [KisClient.storeCachedToken, cached, written, if_true, inEnv]

end Access

section Calls

variable {s : Surroundings} {path trId : String} {fields : List (String × String)}
  {answer : Answer} {broker : KisBroker}

theorem hashkey_still (body : List (String × String)) :
    (Wire.hashkey s body).Still asksToken := by
  refine Logged.Still.catching (Logged.Still.get.bind ?_) _
  rintro ⟨client, file⟩
  exact (Logged.Still.lift _).bind fun _ => (Logged.Still.send rfl _).bind fun _ => .lift _

variable [Unicode]

/-- What a call asks of the token endpoint, and what it does to the client, it does by its
access to the token. -/
theorem get_follows (params : List (String × String)) (other : path ≠ pathToken) :
    (Wire.get s path trId params answer).Follows asksToken (Wire.accessToken s) := by
  refine Logged.Follows.bind (.catching (Logged.Follows.self.bind fun token => ?_) _) fun body =>
    (Logged.Still.lift _).bind fun _ => .pure _
  refine Logged.Still.get.bind ?_
  rintro ⟨client, file⟩
  refine (Logged.Still.lift _).bind fun _ => Logged.Still.send ?_ _
  exact if_neg other

theorem post_follows (other : path ≠ pathToken) :
    (Wire.post s path trId fields answer).Follows asksToken (Wire.accessToken s) := by
  refine .of_bind (hashkey_still fields) fun hash => Logged.Follows.self.bind fun token => ?_
  refine Logged.Still.bind (.catching (Logged.Still.get.bind ?_) _) fun payload =>
    (Logged.Still.lift _).bind fun _ => .pure _
  rintro ⟨client, file⟩
  refine (Logged.Still.lift _).bind fun _ => Logged.Still.send ?_ _
  exact if_neg other

theorem operate_follows (operation : Operation) :
    (broker.operate s operation).Follows asksToken (Wire.accessToken s) := by
  cases operation with
  | getQuote ticker =>
      exact .bind (.bind (get_follows _ (by decide)) fun _ => .lift _) fun _ => .pure _
  | getBalance =>
      exact .bind (.bind (get_follows _ (by decide)) fun _ => .lift _) fun _ => .pure _
  | placeOrder request =>
      refine .bind (.of_bind (.lift _) fun terms => ?_) fun _ => .pure _
      exact .bind (post_follows (by decide)) fun _ => .lift _

end Calls

section Run

variable {trIds : TrIds} {program : Program} {since expiresAt : ℤ}

/-- The program has a cache file, and a broker of its settings or none. -/
structure Program.Settled (program : Program) : Prop where
  path : program.settings.kisTokenCachePath ≠ ""
  kept : ∀ broker, program.broker = some (.kis broker) →
    broker.client.env = program.settings.effectiveEnv ∧ broker.client.hasCache = true

def Program.Covered (program : Program) (since expiresAt : ℤ) : Prop :=
  expiresAt - tokenSkew ≤ since ∨
    ∃ token, token.truthy = true ∧
      program.file = .entry (.str program.settings.effectiveEnv.text) token expiresAt ∧
      ∀ broker, program.broker = some (.kis broker) → broker.client.token.truthy = true →
        broker.client.tokenExpiresAt = some expiresAt

theorem client_init {appKey appSecret env : String} {hasCache : Bool} {client : KisClient}
    (made : KisClient.init appKey appSecret env hasCache = .ok client) :
    client.hasCache = hasCache ∧ client.token = .null := by
  obtain ⟨known, _, rest⟩ := bind_eq_ok.mp made
  obtain ⟨_, same⟩ := raiseIf_bind_eq_ok.mp rest
  cases same
  exact ⟨rfl, rfl⟩

/-- A new broker has the cache file of the settings, and no token. -/
theorem createBroker_client {settings : BrokerSettings} {broker : KisBroker}
    (made : createBroker trIds settings = .ok (.kis broker)) :
    broker.client.hasCache = decide (settings.kisTokenCachePath ≠ "") ∧
      broker.client.token = .null := by
  unfold createBroker at made
  split at made
  · cases made
  · obtain ⟨client, initialised, rest⟩ := bind_eq_ok.mp made
    obtain ⟨adapter, adapted, same⟩ := bind_eq_ok.mp rest
    cases same
    obtain ⟨_, same⟩ := raiseIf_bind_eq_ok.mp adapted
    cases same
    exact client_init initialised

theorem Program.Settled.getBroker (settled : program.Settled) {broker : KisBroker}
    (got : program.getBroker trIds = .ok (.kis broker)) :
    broker.client.env = program.settings.effectiveEnv ∧ broker.client.hasCache = true := by
  unfold Program.getBroker at got
  split at got
  · rename_i kept
    cases got
    exact settled.kept broker kept
  · refine ⟨(createBroker_env got).2, ?_⟩
    rw [(createBroker_client got).1, decide_eq_true settled.path]

theorem Program.Covered.getBroker (covered : program.Covered since expiresAt)
    {broker : KisBroker} (got : program.getBroker trIds = .ok (.kis broker)) :
    Kis.Covered program.settings.effectiveEnv since expiresAt broker.client program.file := by
  refine covered.imp_right ?_
  rintro ⟨token, truthy, entry, memory⟩
  refine ⟨token, truthy, entry, fun held => ?_⟩
  unfold Program.getBroker at got
  split at got
  · rename_i kept
    cases got
    exact memory broker kept held
  · rw [(createBroker_client got).2] at held
    cases held

/-- Where the program has no broker of KIS, a call sends nothing, and leaves the file. -/
theorem step_other [Unicode] (s : Surroundings) (operation : Operation)
    (none : ∀ broker, program.getBroker trIds ≠ .ok (.kis broker)) :
    (program.step trIds (.operate s operation)).requests = [] ∧
      ∃ broker, (program.step trIds (.operate s operation)).program =
        { program with broker := broker } ∧ ∀ kis, broker ≠ some (.kis kis) := by
  have own : ∀ kis, program.broker ≠ some (.kis kis) :=
    fun kis kept => none kis (by rw [Program.getBroker, kept])
  simp only [Program.step]
  cases current : program.getBroker trIds with
  | error e => exact ⟨rfl, program.broker, rfl, own⟩
  | ok built =>
      cases built with
      | mock mock => exact ⟨rfl, _, rfl, fun kis same => by cases same⟩
      | kis broker => exact absurd current (none broker)

variable [Unicode]

/-- A call that asks the token endpoint leaves what its access to the token leaves; another one
may have made no access. -/
theorem step_access (s : Surroundings) (operation : Operation) {broker : KisBroker}
    (got : program.getBroker trIds = .ok (.kis broker)) :
    ∃ client file, (program.step trIds (.operate s operation)).program =
        { program with broker := some (.kis { broker with client := client }), file := file } ∧
      ((client, file) = (Wire.accessToken s (broker.client, program.file)).state ∨
        (client, file) = (broker.client, program.file) ∧
          (program.step trIds (.operate s operation)).requests.filterMap asksToken = []) ∧
      ((program.step trIds (.operate s operation)).requests.filterMap asksToken ≠ [] →
        (Wire.accessToken s (broker.client, program.file)).sent ≠ []) := by
  have same : program.step trIds (.operate s operation) =
      let outcome := broker.operate { s with file := program.file } operation
        (broker.client, program.file)
      ⟨outcome.sent,
        { program with
          broker := some (.kis { broker with client := outcome.state.1 })
          file := outcome.state.2 },
        outcome.result.isOk⟩ := by
    simp only [Program.step, got]
  have follows : (broker.operate { s with file := program.file } operation).Follows asksToken
    (Wire.accessToken s) := operate_follows operation
  rw [same]
  refine ⟨_, _, rfl, ?_⟩
  rcases follows (broker.client, program.file) with ⟨state, sent⟩ | ⟨state, sent⟩
  · exact ⟨.inr ⟨state, sent⟩, fun asks => absurd sent asks⟩
  · refine ⟨.inl state, fun asks none => asks ?_⟩
    dsimp only
    rw [sent, none]
    rfl

theorem Program.Settled.operate (settled : program.Settled) (s : Surroundings)
    (operation : Operation) : (program.step trIds (.operate s operation)).program.Settled := by
  by_cases kis : ∃ broker, program.getBroker trIds = .ok (.kis broker)
  · obtain ⟨broker, got⟩ := kis
    obtain ⟨inEnv, cached⟩ := settled.getBroker got
    obtain ⟨client, file, post, state, _⟩ := step_access s operation got
    rw [post]
    refine ⟨settled.path, fun other kept => ?_⟩
    cases kept
    rcases state with accessed | ⟨same, _⟩
    · obtain ⟨token, expiry, same⟩ := accessToken_same (s := s) broker.client program.file
      rw [← accessed] at same
      cases same
      exact ⟨inEnv, cached⟩
    · cases same
      exact ⟨inEnv, cached⟩
  · push Not at kis
    obtain ⟨_, broker, post, none⟩ := step_other s operation kis
    rw [post]
    exact ⟨settled.path, fun other kept => absurd kept (none other)⟩

variable {s : Surroundings} {operation : Operation}

theorem Program.Covered.operate (covered : program.Covered since expiresAt)
    (settled : program.Settled) (within : expiresAt ≤ Python.maxTime)
    (ordered : s.clock.Ordered since) :
    (program.step trIds (.operate s operation)).program.Covered s.clock.fallback expiresAt := by
  by_cases kis : ∃ broker, program.getBroker trIds = .ok (.kis broker)
  · obtain ⟨broker, got⟩ := kis
    obtain ⟨inEnv, cached⟩ := settled.getBroker got
    obtain ⟨client, file, post, state, _⟩ := step_access s operation got
    have before := covered.getBroker got
    have after : Kis.Covered program.settings.effectiveEnv s.clock.fallback expiresAt client
        file := by
      rcases state with accessed | ⟨same, _⟩
      · have access := before.access within inEnv cached ordered
        rw [← accessed] at access
        exact access
      · cases same
        exact before.later ordered
    rw [post]
    refine after.imp_right ?_
    rintro ⟨token, truthy, entry, memory⟩
    refine ⟨token, truthy, entry, fun other kept => ?_⟩
    cases kept
    exact memory
  · push Not at kis
    obtain ⟨_, broker, post, none⟩ := step_other s operation kis
    rw [post]
    rcases covered with past | ⟨token, truthy, entry, _⟩
    · exact .inl (ordered.le_fallback past)
    · exact .inr ⟨token, truthy, entry, fun other kept => absurd kept (none other)⟩

/-- The moment is a call that asks the token endpoint, after it has read the clock then. -/
def Moment.AsksAt (trIds : TrIds) (moment : Moment) (time : ℤ) : Prop :=
  ∃ s operation, moment.event = .operate s operation ∧ s.clock.loaded = time ∧
    (moment.turn trIds).requests.filterMap asksToken ≠ []

/-- The moment is a call that asks, and is given a token that expires then. -/
def Moment.IsGranted (trIds : TrIds) (moment : Moment) (expiresAt : ℤ) : Prop :=
  ∃ s operation token, moment.event = .operate s operation ∧
    KisClient.issueToken s.clock s.token = .ok (token, expiresAt) ∧
    (moment.turn trIds).requests.filterMap asksToken ≠ []

theorem Program.Covered.le_asked (covered : program.Covered since expiresAt)
    (settled : program.Settled) (within : expiresAt ≤ Python.maxTime)
    (ordered : s.clock.Ordered since)
    (asks : (program.step trIds (.operate s operation)).requests.filterMap asksToken ≠ []) :
    expiresAt - tokenSkew ≤ s.clock.loaded := by
  by_cases kis : ∃ broker, program.getBroker trIds = .ok (.kis broker)
  · obtain ⟨broker, got⟩ := kis
    obtain ⟨inEnv, cached⟩ := settled.getBroker got
    obtain ⟨_, _, _, _, accesses⟩ := step_access s operation got
    obtain ⟨_, stale, _, none⟩ := (accessToken_sent _ _).resolve_left (accesses asks)
    exact (covered.getBroker got).le_loaded within inEnv cached ordered stale none
  · push Not at kis
    rw [(step_other s operation kis).1] at asks
    exact absurd rfl asks

theorem covered_of_granted (settled : program.Settled) (written : s.store = .written)
    (asks : (program.step trIds (.operate s operation)).requests.filterMap asksToken ≠ [])
    {token : Json} (given : KisClient.issueToken s.clock s.token = .ok (token, expiresAt)) :
    (program.step trIds (.operate s operation)).program.Covered s.clock.fallback expiresAt := by
  by_cases kis : ∃ broker, program.getBroker trIds = .ok (.kis broker)
  · obtain ⟨broker, got⟩ := kis
    obtain ⟨inEnv, cached⟩ := settled.getBroker got
    obtain ⟨client, file, post, state, accesses⟩ := step_access s operation got
    have accessed := state.resolve_right fun idle => asks idle.2
    have after := covered_of_grant inEnv cached written (accesses asks) given
    rw [← accessed] at after
    rw [post]
    refine after.imp_right ?_
    rintro ⟨token, truthy, entry, memory⟩
    refine ⟨token, truthy, entry, fun other kept => ?_⟩
    cases kept
    exact memory
  · push Not at kis
    rw [(step_other s operation kis).1] at asks
    exact absurd rfl asks

/-- Until a token that covers the program is about to expire, no call asks for another. -/
theorem Program.Covered.le_later (within : expiresAt ≤ Python.maxTime)
    {events : List ProgramEvent} :
    ∀ {program since}, Program.Covered program since expiresAt → program.Settled →
      Undisturbed since events → ∀ moment ∈ moments trIds program events,
        ∀ time, moment.AsksAt trIds time → expiresAt - tokenSkew ≤ time := by
  induction events with
  | nil =>
      intro program since _ _ _ moment member
      cases member
  | cons event events ih =>
      intro program since covered settled undisturbed moment member time asks
      rcases List.mem_cons.mp member with rfl | later
      · obtain ⟨s, operation, rfl, rfl, sent⟩ := asks
        exact covered.le_asked settled within undisturbed.2.1 sent
      · cases event with
        | configure | otherProgram => exact undisturbed.elim
        | reset =>
            have restarted : Program.Covered { program with broker := none } since expiresAt :=
              covered.imp_right fun ⟨token, truthy, entry, _⟩ =>
                ⟨token, truthy, entry, fun broker kept => by cases kept⟩
            exact ih restarted ⟨settled.path, fun broker kept => by cases kept⟩ undisturbed
              moment later time asks
        | operate s operation =>
            obtain ⟨_, ordered, rest⟩ := undisturbed
            exact ih (covered.operate settled within ordered) (settled.operate s operation) rest
              moment later time asks

/-- A program with a cache file that nobody disturbs asks for no token until the ones that it
was given are about to expire, however often it is restarted. -/
theorem tokens_asked_once_a_lifetime (path : program.settings.kisTokenCachePath ≠ "")
    (fresh : program.broker = none) {events : List ProgramEvent}
    (undisturbed : Undisturbed since events) :
    (moments trIds program events).Pairwise fun early late =>
      ∀ expiresAt time, early.IsGranted trIds expiresAt → late.AsksAt trIds time →
        expiresAt - tokenSkew ≤ time := by
  have settled : program.Settled := ⟨path, fun broker kept => by rw [fresh] at kept; cases kept⟩
  clear path fresh
  induction events generalizing program since with
  | nil => exact .nil
  | cons event events ih =>
      cases event with
      | configure | otherProgram => exact undisturbed.elim
      | reset =>
          refine .cons ?_ (ih undisturbed ⟨settled.path, fun broker kept => by cases kept⟩)
          rintro late _ expiresAt time ⟨s, operation, token, same, _⟩
          cases same
      | operate s operation =>
          obtain ⟨written, ordered, rest⟩ := undisturbed
          have next := @Program.Settled.operate trIds program _ settled s operation
          refine .cons ?_ (ih rest next)
          rintro late member expiresAt time ⟨s, operation, token, same, given, asks⟩ asksLater
          cases same
          exact (covered_of_granted settled written asks given).le_later (issueToken_given given).2
            next rest late member time asksLater

end Run

/-- The day on which the endpoint answers, some time later. -/
def openDayAfter (micros : ℤ) : Surroundings :=
  let now := openDay.clock.now + micros
  { openDay with clock := ⟨now, now, now, now⟩ }

/-- A call, a restart, a call within the day, and one when the token is about to expire. -/
def restartedDays : List ProgramEvent :=
  [.operate (openDayAfter 0) .getBalance, .reset, .operate (openDayAfter 3600000000) .getBalance,
    .operate (openDayAfter (86400000000 - tokenSkew)) (.getQuote "005930")]

theorem tokens_asked_once_a_lifetime_restarted :
    ((@moments .asciiOnly {} ⟨lockedSettings, none, .missing⟩ restartedDays).map fun moment =>
        ((@Moment.turn .asciiOnly {} moment).requests.filterMap asksToken).length) = [1, 0, 0, 1] ∧
      (@moments .asciiOnly {} ⟨lockedSettings, none, .missing⟩ restartedDays).Pairwise
        fun early late => ∀ expiresAt time, @Moment.IsGranted .asciiOnly {} early expiresAt →
          @Moment.AsksAt .asciiOnly {} late time → expiresAt - tokenSkew ≤ time := by
  refine ⟨by decide +kernel, ?_⟩
  refine @tokens_asked_once_a_lifetime {} ⟨lockedSettings, none, .missing⟩ 0 .asciiOnly (by decide)
    rfl restartedDays ?_
  simp [restartedDays, Undisturbed, openDayAfter, openDay, Clock.Ordered, Python.minTime, tokenSkew]

end FundPolymarket.Kis
