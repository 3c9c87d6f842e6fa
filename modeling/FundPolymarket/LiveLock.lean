import FundPolymarket.Factory

set_option autoImplicit false

/- Where the requests of a program go: to the live host only on settings that have both
switches on, and each order at most once. -/
namespace FundPolymarket.Kis

open Python (Json Unicode)

def KisEnv.baseUrl : KisEnv → String
  | .live => baseUrlLive
  | .paper => baseUrlPaper

/-- The transaction ids of live accounts. -/
def LiveTrId (trId : String) : Prop :=
  trId.toList.head? = some 'T' ∨ trId.toList.head? = some 'J' ∨ trId.toList.head? = some 'C'

/-- The header `tr_id`. -/
def HttpRequest.trId? (request : HttpRequest) : Option Json := Json.lookup request.headers "tr_id"

/-- A request for the environment. -/
structure HttpRequest.GoesTo (env : KisEnv) (request : HttpRequest) : Prop where
  host : request.baseUrl = env.baseUrl
  paper : env = .paper → ∀ trId, request.trId? = some (.str trId) → ¬ LiveTrId trId

/-- The environment that the settings stand for. -/
def BrokerSettings.effectiveEnv (settings : BrokerSettings) : KisEnv :=
  if settings.liveTradingEnabled then .live else .paper

section Host

variable {env : KisEnv} {client : KisClient} {broker : KisBroker}

theorem KisClient.baseUrl_env (client : KisClient) : client.baseUrl = client.env.baseUrl := by
  unfold KisClient.baseUrl
  cases client.env <;> rfl

theorem toPaperTrId_not_live (trId : String) : ¬ LiveTrId (toPaperTrId trId) := by
  unfold toPaperTrId LiveTrId
  split
  · simp
  · simp
  · simp
  · rename_i notT notJ notC
    cases chars : trId.toList with
    | nil => simp
    | cons c rest =>
        rw [chars] at notT notJ notC
        simp only [List.head?_cons, Option.some.injEq, not_or]
        refine ⟨?_, ?_, ?_⟩
        · rintro rfl
          exact notT rest rfl
        · rintro rfl
          exact notJ rest rfl
        · rintro rfl
          exact notC rest rfl

theorem resolveTrId_not_live (trId : String) (paper : env = .paper) :
    ¬ LiveTrId (resolveTrId trId env) := by
  rw [resolveTrId, if_neg (by simp [paper])]
  exact toPaperTrId_not_live trId

/-- The client of a call is one of the environment. -/
def InEnv (env : KisEnv) (state : KisClient × CacheFile) : Prop := state.1.env = env

/-- A request without a transaction id. -/
theorem goesTo_plain {path : String} {method : Method} {headers : List (String × Json)}
    {fields : List (String × String)} (inEnv : client.env = env)
    (none : Json.lookup headers "tr_id" = none) :
    HttpRequest.GoesTo env ⟨client.baseUrl, method, path, headers, fields⟩ where
  host := by rw [← inEnv]; exact client.baseUrl_env
  paper := by
    intro _ trId shown
    have absent : Json.lookup headers "tr_id" = some (.str trId) := shown
    rw [none] at absent
    cases absent

variable {s : Surroundings}

theorem hashkey_goes (body : List (String × String)) :
    (Wire.hashkey s body).Meets (InEnv env) (HttpRequest.GoesTo env) fun _ => True := by
  refine Logged.Meets.catching (P := fun _ => True) (Logged.Meets.get.bind ?_) _
  rintro ⟨client, file⟩ inEnv
  refine (Logged.Meets.lift_any _).bind fun _ _ => ?_
  refine (Logged.Meets.send (goesTo_plain inEnv rfl) _).bind fun _ _ => ?_
  exact .lift_any _

variable [Unicode]

theorem goesTo_headers {path trId : String} {method : Method} {fields : List (String × String)}
    {token : Json} {extra : List Json} (inEnv : client.env = env)
    (fits : env = .paper → ¬ LiveTrId trId) :
    HttpRequest.GoesTo env ⟨client.baseUrl, method, path,
      headerNames.zip (client.headers trId token extra), fields⟩ where
  host := by rw [← inEnv]; exact client.baseUrl_env
  paper := by
    intro paper other shown
    cases shown
    exact fits paper

theorem accessToken_goes :
    (Wire.accessToken s).Meets (InEnv env) (HttpRequest.GoesTo env) fun _ => True := by
  refine Logged.Meets.get.bind ?_
  rintro ⟨client, file⟩ inEnv
  refine (Logged.Meets.lift_any _).bind fun fresh _ => ?_
  split
  · exact .pure trivial
  · refine (Logged.Meets.lift (P := fun loaded => loaded.env = env) ?_).bind ?_
    · intro loaded load
      obtain ⟨_, _, same⟩ := loadCachedToken_same (mapError_eq_ok.mp load)
      rw [same]
      exact inEnv
    · intro loaded loadedEnv
      refine Logged.Meets.bind (Logged.Meets.set ?_) fun _ _ => ?_
      · exact loadedEnv
      refine (Logged.Meets.lift_any _).bind fun usable _ => ?_
      split
      · exact .pure trivial
      · refine (Logged.Meets.send (goesTo_plain inEnv rfl) _).bind fun given _ => ?_
        refine Logged.Meets.bind (Logged.Meets.set ?_) fun _ _ => .pure trivial
        exact loadedEnv

theorem get_goes {path trId : String} (params : List (String × String)) (answer : Answer)
    (fits : env = .paper → ¬ LiveTrId trId) :
    (Wire.get s path trId params answer).Meets (InEnv env) (HttpRequest.GoesTo env)
      fun _ => True := by
  refine (Logged.Meets.catching (P := fun _ => True) (accessToken_goes.bind fun token _ => ?_)
    _).bind fun body _ => ?_
  · refine Logged.Meets.get.bind ?_
    rintro ⟨client, file⟩ inEnv
    refine (Logged.Meets.lift_any _).bind fun _ _ => ?_
    exact .send (goesTo_headers inEnv fits) _
  · exact (Logged.Meets.lift_any _).bind fun _ _ =>
      .pure trivial

theorem post_goes {path trId : String} (fields : List (String × String)) (answer : Answer)
    (fits : env = .paper → ¬ LiveTrId trId) :
    (Wire.post s path trId fields answer).Meets (InEnv env) (HttpRequest.GoesTo env)
      fun _ => True := by
  refine (hashkey_goes fields).bind fun hash _ => accessToken_goes.bind fun token _ => ?_
  refine (Logged.Meets.catching (P := fun _ => True) (Logged.Meets.get.bind ?_) _).bind
    fun payload _ => ?_
  · rintro ⟨client, file⟩ inEnv
    refine (Logged.Meets.lift_any _).bind fun _ _ => ?_
    exact .send (goesTo_headers inEnv fits) _
  · exact (Logged.Meets.lift_any _).bind fun _ _ =>
      .pure trivial

theorem operate_goes (inEnv : broker.client.env = env) (operation : Operation) :
    (broker.operate s operation).Meets (InEnv env) (HttpRequest.GoesTo env) fun _ => True := by
  cases operation with
  | getQuote ticker =>
      refine Logged.Meets.bind (P := fun _ => True) ?_ fun _ _ => .pure trivial
      refine (get_goes _ _ fun _ => ?_).bind fun _ _ => .lift_any _
      simp [LiveTrId, trInquirePrice]
  | placeOrder request =>
      refine Logged.Meets.bind (P := fun _ => True) ?_ fun _ _ => .pure trivial
      refine (Logged.Meets.lift_any _).bind fun terms _ => ?_
      refine (post_goes _ _ fun paper => ?_).bind fun _ _ => .lift_any _
      exact resolveTrId_not_live _ (inEnv.trans paper)
  | getBalance =>
      refine Logged.Meets.bind (P := fun _ => True) ?_ fun _ _ => .pure trivial
      refine (get_goes _ _ fun paper => ?_).bind fun _ _ => .lift_any _
      exact resolveTrId_not_live _ (inEnv.trans paper)

end Host

section Factory

variable {trIds : TrIds} {settings : BrokerSettings} {broker : KisBroker}

theorem client_init_env {appKey appSecret env : String} {hasCache : Bool} {client : KisClient}
    (made : KisClient.init appKey appSecret env hasCache = .ok client) :
    KisEnv.ofText env = .ok client.env := by
  obtain ⟨known, found, rest⟩ := bind_eq_ok.mp made
  obtain ⟨_, same⟩ := raiseIf_bind_eq_ok.mp rest
  cases same
  exact found

theorem ofText_text (env : KisEnv) : KisEnv.ofText env.text = .ok env := by
  cases env <;> rfl

/-- The factory makes a broker of the environment that the settings stand for. -/
theorem createBroker_env (made : createBroker trIds settings = .ok (.kis broker)) :
    settings.brokerBackend = .kis ∧ broker.client.env = settings.effectiveEnv := by
  unfold createBroker at made
  split at made
  · cases made
  · rename_i backend
    obtain ⟨client, initialised, rest⟩ := bind_eq_ok.mp made
    obtain ⟨adapter, adapted, same⟩ := bind_eq_ok.mp rest
    cases same
    obtain ⟨_, same⟩ := raiseIf_bind_eq_ok.mp adapted
    cases same
    have env := client_init_env initialised
    rw [ofText_text] at env
    refine ⟨backend, (Except.ok.inj env).symm.trans ?_⟩
    unfold BrokerSettings.effectiveEnv BrokerSettings.liveTradingEnabled
    cases settings.kisEnv <;> cases settings.allowLiveTrading <;> rfl

end Factory

section Run

/-- Some moment of the run had settings for the KIS broker that stand for the environment. -/
def SetFor (run : List Moment) (env : KisEnv) : Prop :=
  ∃ moment ∈ run, moment.pre.settings.brokerBackend = .kis ∧
    moment.pre.settings.effectiveEnv = env

/-- The broker that is kept was made for settings of the run. -/
def MadeFor (run : List Moment) (program : Program) : Prop :=
  ∀ broker, program.broker = some (.kis broker) → SetFor run broker.client.env

variable {trIds : TrIds} {program : Program} {events : List ProgramEvent}

theorem SetFor.mono {early : List Moment} {env : KisEnv} (set : SetFor early env)
    (late : List Moment) : SetFor (early ++ late) env := by
  obtain ⟨moment, member, settings⟩ := set
  exact ⟨moment, List.mem_append_left late member, settings⟩

theorem MadeFor.getBroker {run : List Moment} {moment : Moment} (made : MadeFor run moment.pre)
    {broker : KisBroker} (got : moment.pre.getBroker trIds = .ok (.kis broker)) :
    SetFor (run ++ [moment]) broker.client.env := by
  unfold Program.getBroker at got
  split at got
  · rename_i kept
    cases got
    exact (made broker kept).mono [moment]
  · obtain ⟨backend, env⟩ := createBroker_env got
    exact ⟨moment, by simp, backend, env.symm⟩

variable [Unicode]

theorem MadeFor.turn {run : List Moment} {moment : Moment} (made : MadeFor run moment.pre) :
    (∀ request ∈ (moment.turn trIds).requests, ∃ env, SetFor (run ++ [moment]) env ∧
        request.GoesTo env) ∧
      MadeFor (run ++ [moment]) (moment.turn trIds).program := by
  have kept : ∀ broker, moment.pre.broker = some (.kis broker) →
      SetFor (run ++ [moment]) broker.client.env :=
    fun broker own => (made broker own).mono [moment]
  have got := fun broker => @made.getBroker trIds run moment broker
  obtain ⟨event, pre⟩ := moment
  cases event with
  | configure settings => exact ⟨fun _ member => (by cases member), kept⟩
  | reset => exact ⟨fun _ member => (by cases member), fun broker own => by cases own⟩
  | otherProgram file => exact ⟨fun _ member => (by cases member), kept⟩
  | operate s operation =>
      rw [Moment.turn, Program.step]
      dsimp only
      split
      · exact ⟨fun _ member => (by cases member), kept⟩
      · exact ⟨fun _ member => (by cases member), fun broker own => by cases own⟩
      · rename_i broker current
        obtain ⟨goes, inEnv, _⟩ := operate_goes rfl operation (broker.client, pre.file) rfl
        have set := got broker current
        refine ⟨fun request sent => ⟨_, set, goes request sent⟩, ?_⟩
        intro other own
        cases own
        exact inEnv.symm ▸ set

/-- In a program that has made no broker yet, with all that may happen to its settings and to
the broker that it keeps, every request goes to the environment that some settings up to then
have stood for: to the live host only after both switches have been on, and to the paper host
with no transaction id of a live account. -/
theorem requests_follow_switches {before after : List Moment} {moment : Moment}
    (fresh : program.broker = none)
    (split : moments trIds program events = before ++ moment :: after) :
    ∀ request ∈ (moment.turn trIds).requests,
      ∃ env, SetFor (before ++ [moment]) env ∧ request.GoesTo env := by
  have follows : ∀ (events : List ProgramEvent) (program : Program) (known before : List Moment),
      MadeFor known program → moments trIds program events = before ++ moment :: after →
      ∀ request ∈ (moment.turn trIds).requests,
        ∃ env, SetFor (known ++ before ++ [moment]) env ∧ request.GoesTo env := by
    intro events
    induction events with
    | nil =>
        intro program known before _ split
        cases before <;> cases split
    | cons event events ih =>
        intro program known before made split
        cases before with
        | nil =>
            cases split
            rw [List.append_nil]
            exact made.turn.1
        | cons first before =>
            obtain ⟨head, tail⟩ := List.cons.inj split
            subst head
            have later := ih _ (known ++ [⟨event, program⟩]) before
              (@MadeFor.turn _ _ known ⟨event, program⟩ made).2 tail
            simpa using later
  have none : MadeFor [] program := fun broker kept => by
    rw [fresh] at kept
    cases kept
  exact follows events program [] before none split

end Run

/-- A purchase on settings with one of the switches. -/
def lockedPurchase : Moment :=
  ⟨.operate openDay (.placeOrder
    { ticker := "005930", side := .buy, quantity := 1, orderType := .limit, price := some 70000 }),
    ⟨lockedSettings, none, .missing⟩⟩

theorem requests_follow_switches_locked :
    (@Moment.turn .asciiOnly {} lockedPurchase).requests.length = 3 ∧
      ∀ request ∈ (@Moment.turn .asciiOnly {} lockedPurchase).requests,
        ∃ env, SetFor [lockedPurchase] env ∧ request.GoesTo env := by
  refine ⟨by decide +kernel, ?_⟩
  exact @requests_follow_switches {} lockedPurchase.pre [lockedPurchase.event] .asciiOnly [] []
    lockedPurchase rfl rfl

section Orders

/-- An order on the wire. -/
structure Posted where
  trId : Option Json
  fields : List (String × String)

def posted (request : HttpRequest) : Option Posted :=
  if request.path = pathOrderCash then some ⟨request.trId?, request.fields⟩ else none

def KisBroker.posting (broker : KisBroker) (request : OrderRequest) (terms : String × String) :
    Posted :=
  ⟨some (.str (broker.orderTrId request.side)), broker.orderFields request terms.1 terms.2⟩

/-- The order that a call of the adapter asks for: one that it has no objection to. -/
def KisBroker.asks (broker : KisBroker) : Operation → Option Posted
  | .placeOrder request => (KisBroker.orderTerms request).toOption.map (broker.posting request)
  | .getQuote _ | .getBalance => none

variable (trIds : TrIds)

def Moment.asked (moment : Moment) : Option Posted :=
  match moment.event, moment.pre.getBroker trIds with
  | .operate _ operation, .ok (.kis broker) => broker.asks operation
  | _, _ => none

variable [Unicode]

def wireOrders (run : List Moment) : List Posted :=
  run.flatMap fun moment => (moment.turn trIds).requests.filterMap posted

/-- The orders of the calls that returned. -/
def returnedOrders (run : List Moment) : List Posted :=
  (run.filter fun moment => (moment.turn trIds).returned).filterMap (Moment.asked trIds)

end Orders

section Posts

variable {s : Surroundings} {path trId : String} {fields : List (String × String)} {answer : Answer}

theorem hashkey_silent (body : List (String × String)) :
    (Wire.hashkey s body).Silent posted := by
  refine Logged.Silent.catching (Logged.Silent.get.bind ?_) _
  rintro ⟨client, file⟩
  exact (Logged.Silent.lift _).bind fun _ => (Logged.Silent.send rfl _).bind fun _ => .lift _

variable [Unicode] {trIds : TrIds}

theorem accessToken_silent : (Wire.accessToken s).Silent posted := by
  refine Logged.Silent.get.bind ?_
  rintro ⟨client, file⟩
  refine (Logged.Silent.lift _).bind fun fresh => ?_
  split
  · exact .pure _
  · refine (Logged.Silent.lift _).bind fun loaded => (Logged.Silent.set _).bind fun _ =>
      (Logged.Silent.lift _).bind fun usable => ?_
    split
    · exact .pure _
    · exact (Logged.Silent.send rfl _).bind fun _ => (Logged.Silent.set _).bind fun _ => .pure _

theorem get_silent (params : List (String × String)) (other : path ≠ pathOrderCash) :
    (Wire.get s path trId params answer).Silent posted := by
  refine Logged.Silent.bind (.catching (accessToken_silent.bind fun token => ?_) _) fun body =>
    (Logged.Silent.lift _).bind fun _ => .pure _
  refine Logged.Silent.get.bind ?_
  rintro ⟨client, file⟩
  refine (Logged.Silent.lift _).bind fun _ => Logged.Silent.send ?_ _
  exact if_neg other

/-- A post puts one order on the wire, or raises before. -/
theorem post_once :
    (Wire.post s pathOrderCash trId fields answer).Once posted ⟨some (.str trId), fields⟩ := by
  refine .of_bind (hashkey_silent fields) fun hash => .of_bind accessToken_silent fun token => ?_
  refine Logged.Once.bind (.catching ?_ fun e => ?_) fun payload =>
    (Logged.Silent.lift _).bind fun _ => .pure _
  · refine .of_bind .get ?_
    rintro ⟨client, file⟩
    refine .of_bind (.lift _) fun _ => Logged.Once.send ?_ _
    exact if_pos rfl
  · cases e with
    | http | broker | python => exact ⟨_, rfl⟩

variable {broker : KisBroker} {request : OrderRequest} {terms : String × String}

theorem placeOrder_once (accepted : KisBroker.orderTerms request = .ok terms) :
    (Wire.placeOrder broker s request).Once posted (broker.posting request terms) := by
  intro state
  rw [Wire.placeOrder, Logged.lift_bind, accepted]
  have once : (Wire.post s pathOrderCash (broker.orderTrId request.side)
      (broker.orderFields request terms.1 terms.2)
      (s.order (broker.orderFields request terms.1 terms.2))).Once posted
        (broker.posting request terms) := post_once
  exact (once.bind fun _ => .lift _) state

/-- A call of the adapter puts on the wire what it asks for, or nothing, and then it raises. -/
theorem operate_posts (operation : Operation) (state : KisClient × CacheFile) :
    ((broker.operate s operation) state).sent.filterMap posted =
        (broker.asks operation).toList ∨
      ((broker.operate s operation) state).sent.filterMap posted = [] ∧
        ∃ e, ((broker.operate s operation) state).result = .error e := by
  cases operation with
  | getQuote ticker =>
      have silent : (broker.operate s (.getQuote ticker)).Silent posted :=
        .bind (.bind (get_silent _ (by decide)) fun _ => .lift _) fun _ => .pure _
      exact .inl (silent state)
  | getBalance =>
      have silent : (broker.operate s .getBalance).Silent posted :=
        .bind (.bind (get_silent _ (by decide)) fun _ => .lift _) fun _ => .pure _
      exact .inl (silent state)
  | placeOrder request =>
      rw [KisBroker.asks]
      cases accepted : KisBroker.orderTerms request with
      | error e =>
          have raised : (Wire.placeOrder broker s request) state = ⟨[], state, .error e⟩ := by
            rw [Wire.placeOrder, Logged.lift_bind, accepted]
          exact .inl (by rw [KisBroker.operate, Logged.bind_of_error (by rw [raised]), raised]; rfl)
      | ok terms =>
          have once : (broker.operate s (.placeOrder request)).Once posted
              (broker.posting request terms) :=
            (placeOrder_once accepted).bind fun _ => .pure _
          exact once state

theorem Moment.posts (moment : Moment) :
    (moment.turn trIds).requests.filterMap posted = (moment.asked trIds).toList ∨
      (moment.turn trIds).requests.filterMap posted = [] ∧
        (moment.turn trIds).returned = false := by
  obtain ⟨event, pre⟩ := moment
  cases event with
  | configure | reset | otherProgram => exact .inl rfl
  | operate s operation =>
      simp only [Moment.turn, Moment.asked, Program.step]
      cases current : pre.getBroker trIds with
      | error e => exact .inl rfl
      | ok built =>
          cases built with
          | mock mock => exact .inl rfl
          | kis broker =>
              dsimp only
              rcases operate_posts operation (broker.client, pre.file) with
                sent | ⟨nothing, e, raised⟩
              · exact .inl sent
              · exact .inr ⟨nothing, by rw [raised]; rfl⟩

theorem sublist_of_posts {run : List Moment} :
    (wireOrders trIds run).Sublist (run.filterMap (Moment.asked trIds)) ∧
      (returnedOrders trIds run).Sublist (wireOrders trIds run) := by
  induction run with
  | nil => exact ⟨.slnil, .slnil⟩
  | cons moment run ih =>
      obtain ⟨wire, returned⟩ := ih
      have cons : ∀ rest : List Moment, (moment :: rest).filterMap (Moment.asked trIds) =
          (moment.asked trIds).toList ++ rest.filterMap (Moment.asked trIds) := by
        intro rest
        cases asked : moment.asked trIds with
        | none => exact List.filterMap_cons_none asked
        | some item => exact List.filterMap_cons_some asked
      rw [wireOrders, List.flatMap_cons, ← wireOrders, cons]
      rcases @Moment.posts _ trIds moment with sent | ⟨nothing, raised⟩
      · rw [sent]
        refine ⟨wire.append_left _, ?_⟩
        unfold returnedOrders
        rw [List.filter_cons]
        split
        · rw [cons]
          exact returned.append_left _
        · exact returned.trans (List.sublist_append_right _ _)
      · rw [nothing, List.nil_append]
        refine ⟨wire.trans (List.sublist_append_right _ _), ?_⟩
        unfold returnedOrders
        rw [List.filter_cons_of_neg (by rw [raised]; exact Bool.false_ne_true)]
        exact returned

/-- The orders on the wire are, in their order, orders that were asked for, each at most once,
and those of the calls that returned are all among them. -/
theorem orders_posted_once (trIds : TrIds) (program : Program) (events : List ProgramEvent) :
    (wireOrders trIds (moments trIds program events)).Sublist
        ((moments trIds program events).filterMap (Moment.asked trIds)) ∧
      (returnedOrders trIds (moments trIds program events)).Sublist
        (wireOrders trIds (moments trIds program events)) :=
  sublist_of_posts

end Posts

end FundPolymarket.Kis
