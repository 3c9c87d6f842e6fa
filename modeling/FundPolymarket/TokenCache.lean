import FundPolymarket.KisTokens

set_option autoImplicit false

/- Clients that share one token cache file: to whom the tokens that they return were issued. -/
namespace FundPolymarket.Kis

open Python (Json Unicode)

section Along

variable {σ ε : Type} {step : σ → ε → σ} {P C : σ → ε → Prop}

/-- The property holds at every event of a run. -/
def Along (step : σ → ε → σ) (P : σ → ε → Prop) : σ → List ε → Prop
  | _, [] => True
  | state, event :: rest => P state event ∧ Along step P (step state event) rest

/-- An invariant that every event keeps, as long as the condition holds, carries a property
along the run. -/
theorem Along.of_invariant {I : σ → Prop}
    (keeps : ∀ state event, I state → C state event → P state event ∧ I (step state event)) :
    ∀ {state : σ} {events : List ε}, I state → Along step C state events →
      Along step P state events := by
  intro state events start meets
  induction events generalizing state with
  | nil => trivial
  | cons event rest ih =>
      obtain ⟨holds, next⟩ := keeps state event start meets.1
      exact ⟨holds, ih next meets.2⟩

theorem Along.of_forall {Q : ε → Prop} {state : σ} {events : List ε}
    (each : ∀ event ∈ events, Q event) : Along step (fun _ => Q) state events := by
  induction events generalizing state with
  | nil => trivial
  | cons event rest ih =>
      exact ⟨each event (by simp), ih fun other member => each other (by simp [member])⟩

end Along

/-- What a token is issued for. -/
structure Credentials where
  appKey : String
  env : KisEnv
  deriving DecidableEq, Repr

def KisClient.credentials (client : KisClient) : Credentials := ⟨client.appKey, client.env⟩

/-- The clients in the order of their construction, and the file. The history says what the
endpoint has granted to whom, and who wrote the entry of the file. -/
structure Fleet where
  clients : List KisClient
  file : CacheFile
  granted : List (Json × Credentials)
  writer : Option Credentials

inductive FleetEvent where
  | construct (appKey appSecret env : String)
  | read (client : ℕ) (clock : Clock) (answer : Answer) (store : StoreOutcome)

/-- What is at the path before the first construction. An earlier client may have left an
entry there. -/
inductive Leftover where
  | missing
  | denied
  | broken
  | entry (writer : Credentials) (token : Json) (expiresAt : Time)

def Leftover.writer : Leftover → Option Credentials
  | .entry writer _ _ => some writer
  | _ => none

namespace Fleet

def opening : Leftover → Fleet
  | .missing => ⟨[], .missing, [], none⟩
  | .denied => ⟨[], .denied, [], none⟩
  | .broken => ⟨[], .broken, [], none⟩
  | .entry writer token expiresAt =>
      ⟨[], .entry (.str writer.env.text) token expiresAt, [(token, writer)], some writer⟩

/-- A grant is recorded, and with it the writer where the entry reaches the file. -/
def record (fleet : Fleet) (client : KisClient) (store : StoreOutcome) (granted : Option Json) :
    List (Json × Credentials) × Option Credentials :=
  match granted with
  | none => (fleet.granted, fleet.writer)
  | some token =>
      ((token, client.credentials) :: fleet.granted,
        if client.hasCache ∧ store = .written then some client.credentials else fleet.writer)

def step [Unicode] (fleet : Fleet) : FleetEvent → Fleet
  | .construct appKey appSecret env =>
      match KisClient.init appKey appSecret env true with
      | .ok client => { fleet with clients := fleet.clients ++ [client] }
      | .error _ => fleet
  | .read index clock answer store =>
      match fleet.clients[index]? with
      | none => fleet
      | some client =>
          let read := client.accessToken clock fleet.file answer store
          let history := fleet.record client store read.granted
          ⟨fleet.clients.set index read.client, read.file, history.1, history.2⟩

/-- The token that a read returns was granted to the credentials of the client. -/
def ReadsOwn [Unicode] (fleet : Fleet) : FleetEvent → Prop
  | .construct .. => True
  | .read index clock answer store => ∀ client, fleet.clients[index]? = some client →
      ∀ token, (client.accessToken clock fleet.file answer store).result = .ok token →
        (token, client.credentials) ∈ (fleet.step (.read index clock answer store)).granted

/-- A client that has no fresh token in memory loads an entry only if a client with its own
app key wrote it. -/
def LoadsOwn (fleet : Fleet) : FleetEvent → Prop
  | .construct .. => True
  | .read index clock _ _ => ∀ client, fleet.clients[index]? = some client →
      ¬ client.HasFresh clock.now → ∀ token expiresAt,
        client.Loads clock fleet.file token expiresAt →
          ∀ writer ∈ fleet.writer, writer.appKey = client.appKey

/-- Every token in a memory was granted to its client, and the entry of the file to its
writer, whose environment it names. -/
structure Legitimate (fleet : Fleet) : Prop where
  memory : ∀ client ∈ fleet.clients, client.token.truthy = true →
    (client.token, client.credentials) ∈ fleet.granted
  entry : ∀ env token expiresAt, fleet.file = .entry env token expiresAt →
    ∃ writer, fleet.writer = some writer ∧ env = .str writer.env.text ∧
      (token, writer) ∈ fleet.granted

variable {fleet : Fleet} {client : KisClient} {clock : Clock} {store : StoreOutcome}

theorem text_injective : Function.Injective KisEnv.text := by
  intro first second same
  cases first <;> cases second <;> first | rfl | (revert same; decide)

/-- An entry that is loaded under the condition was granted to the client that loads it. -/
theorem Legitimate.loaded (legitimate : fleet.Legitimate) {token : Json} {expiresAt : Time}
    (loads : client.Loads clock fleet.file token expiresAt)
    (own : ∀ writer ∈ fleet.writer, writer.appKey = client.appKey) :
    (token, client.credentials) ∈ fleet.granted := by
  obtain ⟨writer, wrote, env, granted⟩ := legitimate.entry _ _ _ loads.2.1
  have sameEnv : writer.env = client.env := (text_injective (Json.str.inj env)).symm
  have same : writer = client.credentials := by
    have key := own writer wrote
    cases writer
    exact congrArg₂ Credentials.mk key sameEnv
  exact same ▸ granted

/-- What a load leaves in the memory of the client was granted to it. -/
theorem Legitimate.load (legitimate : fleet.Legitimate) (member : client ∈ fleet.clients)
    {loaded : KisClient} (load : client.loadCachedToken clock fleet.file = .ok loaded)
    (allowed : ¬ client.Denied fleet.file)
    (own : ∀ token expiresAt, client.Loads clock fleet.file token expiresAt →
      ∀ writer ∈ fleet.writer, writer.appKey = client.appKey) :
    (loaded.credentials = client.credentials ∧ loaded.env = client.env ∧
        loaded.hasCache = client.hasCache) ∧
      (loaded.token.truthy = true → (loaded.token, client.credentials) ∈ fleet.granted) := by
  by_cases loads : ∃ token expiresAt, client.Loads clock fleet.file token expiresAt
  · obtain ⟨token, expiresAt, loads⟩ := loads
    have same := (KisClient.loadCachedToken_of_loads loads).symm.trans load
    cases same
    exact ⟨⟨rfl, rfl, rfl⟩, fun _ => legitimate.loaded loads (own token expiresAt loads)⟩
  · push Not at loads
    have same := (KisClient.loadCachedToken_of_not_loads loads allowed).symm.trans load
    cases same
    exact ⟨⟨rfl, rfl, rfl⟩, legitimate.memory client member⟩

/-- What an access leaves, next to what it records. -/
structure Keeps (fleet : Fleet) (client : KisClient) (store : StoreOutcome)
    (read : KisClient.TokenRead) : Prop where
  result : ∀ token, read.result = .ok token →
    (token, client.credentials) ∈ (fleet.record client store read.granted).1
  credentials : read.client.credentials = client.credentials
  memory : read.client.token.truthy = true →
    (read.client.token, client.credentials) ∈ (fleet.record client store read.granted).1
  entry : ∀ env token expiresAt, read.file = .entry env token expiresAt →
    ∃ writer, (fleet.record client store read.granted).2 = some writer ∧
      env = .str writer.env.text ∧
      (token, writer) ∈ (fleet.record client store read.granted).1

theorem Legitimate.access [Unicode] {answer : Answer} (legitimate : fleet.Legitimate)
    (member : client ∈ fleet.clients)
    (own : ¬ client.HasFresh clock.now → ∀ token expiresAt,
      client.Loads clock fleet.file token expiresAt →
        ∀ writer ∈ fleet.writer, writer.appKey = client.appKey)
    {read : KisClient.TokenRead} (access : client.Access clock fleet.file answer store read) :
    Keeps fleet client store read := by
  have memory := legitimate.memory client member
  cases access with
  | overflow => exact ⟨fun _ ended => (by cases ended), rfl, memory, legitimate.entry⟩
  | denied => exact ⟨fun _ ended => (by cases ended), rfl, memory, legitimate.entry⟩
  | memory safe fresh =>
      refine ⟨fun token same => ?_, rfl, memory, legitimate.entry⟩
      cases same
      exact memory fresh.1
  | file safe stale allowed loads gives =>
      have granted := legitimate.loaded loads (own stale _ _ loads)
      refine ⟨fun token same => ?_, rfl, fun _ => granted, legitimate.entry⟩
      cases same
      exact granted
  | refused safe stale allowed load none raised =>
      obtain ⟨same, granted⟩ := legitimate.load member load allowed (own stale)
      exact ⟨fun _ ended => (by cases ended), same.1, granted, legitimate.entry⟩
  | @issued safe stale allowed loaded load none token expiresAt given =>
      obtain ⟨⟨sameCredentials, sameEnv, sameCache⟩, _⟩ :=
        legitimate.load member load allowed (own stale)
      refine ⟨fun token same => ?_, sameCredentials, fun _ => List.mem_cons_self, ?_⟩
      · cases same
        exact List.mem_cons_self
      · intro env written expiry file
        change loaded.storeCachedToken token expiresAt fleet.file store = _ at file
        unfold KisClient.storeCachedToken at file
        rw [sameCache, sameEnv] at file
        simp only [record]
        by_cases cached : client.hasCache = true
        · rw [if_pos cached] at file
          cases store with
          | written =>
              cases file
              exact ⟨_, if_pos ⟨cached, rfl⟩, rfl, List.mem_cons_self⟩
          | kept =>
              obtain ⟨writer, wrote, named, granted⟩ := legitimate.entry _ _ _ file
              exact ⟨writer, by simp [wrote], named, List.mem_cons_of_mem _ granted⟩
          | lost => cases file
        · rw [if_neg cached] at file
          obtain ⟨writer, wrote, named, granted⟩ := legitimate.entry _ _ _ file
          exact ⟨writer, by simp [wrote, cached], named, List.mem_cons_of_mem _ granted⟩

theorem mem_record {token : Option Json} {grant : Json × Credentials}
    (member : grant ∈ fleet.granted) : grant ∈ (fleet.record client store token).1 := by
  cases token with
  | none => exact member
  | some _ => exact List.mem_cons_of_mem _ member

theorem writer_record {token : Option Json} {writer : Credentials}
    (wrote : writer ∈ (fleet.record client store token).2) :
    writer ∈ fleet.writer ∨ writer = client.credentials := by
  cases token with
  | none => exact .inl wrote
  | some _ =>
      by_cases stored : client.hasCache = true ∧ store = .written
      · rw [record, if_pos stored] at wrote
        exact .inr (Option.some.inj wrote).symm
      · rw [record, if_neg stored] at wrote
        exact .inl wrote

theorem init_token {appKey appSecret env : String} {cached : Bool}
    (made : KisClient.init appKey appSecret env cached = .ok client) : client.token = .null := by
  obtain ⟨parsed, _, rest⟩ := bind_eq_ok.mp made
  obtain ⟨_, same⟩ := raiseIf_bind_eq_ok.mp rest
  cases same
  rfl

theorem opening_legitimate (left : Leftover) : (opening left).Legitimate := by
  cases left with
  | missing | denied | broken =>
      exact ⟨fun _ member => (by cases member), fun _ _ _ file => (by cases file)⟩
  | entry writer token expiresAt =>
      refine ⟨fun _ member => (by cases member), fun _ _ _ file => ?_⟩
      cases file
      exact ⟨writer, rfl, rfl, List.mem_cons_self⟩

section Runs

variable [Unicode]

/-- One event: what is returned is the client's own, and the history stays right. -/
theorem Legitimate.step (legitimate : fleet.Legitimate) {event : FleetEvent}
    (own : fleet.LoadsOwn event) : fleet.ReadsOwn event ∧ (fleet.step event).Legitimate := by
  cases event with
  | construct appKey appSecret env =>
      refine ⟨trivial, ?_⟩
      rw [Fleet.step]
      cases made : KisClient.init appKey appSecret env true with
      | error e => exact legitimate
      | ok client =>
          refine ⟨fun other member given => ?_, legitimate.entry⟩
          rcases List.mem_append.mp member with old | new
          · exact legitimate.memory other old given
          · rw [List.mem_singleton.mp new, init_token made] at given
            cases given
  | read index clock answer store =>
      cases found : fleet.clients[index]? with
      | none =>
          have same : fleet.step (.read index clock answer store) = fleet := by
            rw [Fleet.step, found]
          rw [same]
          refine ⟨fun client listed => ?_, legitimate⟩
          rw [found] at listed
          cases listed
      | some client =>
          have member := List.mem_of_getElem? found
          have keeps := legitimate.access member (own client found)
            (client.access clock fleet.file answer store)
          rw [ReadsOwn, Fleet.step, found]
          refine ⟨fun other listed => ?_, fun other listed given => ?_, keeps.entry⟩
          · cases listed
            exact keeps.result
          · rcases List.mem_or_eq_of_mem_set listed with old | rfl
            · exact mem_record (legitimate.memory other old given)
            · rw [keeps.credentials]
              exact keeps.memory given

/-- Where the access returns the token of the file, and no token was granted twice, the
condition is exact. -/
theorem Legitimate.readsOwn_iff (legitimate : fleet.Legitimate)
    (distinct : ∀ token first second, (token, first) ∈ fleet.granted →
      (token, second) ∈ fleet.granted → first = second)
    {index : ℕ} {answer : Answer} {token : Json} (found : fleet.clients[index]? = some client)
    (safe : client.MemorySafe) (stale : ¬ client.HasFresh clock.now)
    (gives : client.FileGives clock fleet.file token) :
    fleet.ReadsOwn (.read index clock answer store) ↔
      ∀ writer ∈ fleet.writer, writer.appKey = client.appKey := by
  have access := client.access clock fleet.file answer store
  rw [ReadsOwn, Fleet.step, found]
  simp only [Option.some.injEq, forall_eq']
  revert access
  generalize client.accessToken clock fleet.file answer store = read
  intro access
  cases access with
  | overflow outside => exact absurd safe outside
  | memory _ fresh => exact absurd fresh stale
  | denied _ _ denied =>
      obtain ⟨_, loads⟩ := gives.loads
      cases loads.2.1.symm.trans denied.2
  | refused _ _ _ _ none => exact absurd gives (none token)
  | issued _ _ _ _ none => exact absurd gives (none token)
  | @file _ _ _ loaded expiresAt loads _ =>
      constructor
      · intro own writer wrote
        have granted := own loaded rfl
        obtain ⟨other, same, _, also⟩ := legitimate.entry _ _ _ loads.2.1
        cases wrote.symm.trans same
        exact congrArg Credentials.appKey (distinct loaded _ _ also granted)
      · intro own result same
        cases same
        exact legitimate.loaded loads own

/-- As long as no client loads an entry that another app key wrote, every token that a client
returns was granted to its own app key and environment. -/
theorem tokens_are_own (left : Leftover) (events : List FleetEvent)
    (own : Along step LoadsOwn (opening left) events) :
    Along step ReadsOwn (opening left) events :=
  Along.of_invariant (I := Legitimate) (fun _ _ legitimate own => legitimate.step own)
    (opening_legitimate left) own

end Runs

section OneKey

def constructed : FleetEvent → Option Credentials
  | .construct appKey appSecret env =>
      (KisClient.init appKey appSecret env true).toOption.map KisClient.credentials
  | .read .. => none

/-- The credentials that meet at the file: those of the clients, and of the one that has left
an entry. -/
def meeting (left : Leftover) (events : List FleetEvent) : List Credentials :=
  left.writer.toList ++ events.filterMap constructed

def OneKey (credentials : List Credentials) : Prop :=
  ∀ first ∈ credentials, ∀ second ∈ credentials,
    first.env = second.env → first.appKey = second.appKey

instance (credentials : List Credentials) : Decidable (OneKey credentials) :=
  inferInstanceAs (Decidable (∀ first ∈ credentials, ∀ second ∈ credentials, _ → _))

/-- Only these credentials meet. -/
structure Within (credentials : List Credentials) (fleet : Fleet) : Prop where
  clients : ∀ client ∈ fleet.clients, client.credentials ∈ credentials
  writer : ∀ writer ∈ fleet.writer, writer ∈ credentials

/-- With one app key for each environment, every entry that is loaded is the client's own. -/
theorem loadsOwn_of_oneKey {credentials : List Credentials} (oneKey : OneKey credentials)
    (legitimate : fleet.Legitimate) (within : Within credentials fleet) (event : FleetEvent) :
    fleet.LoadsOwn event := by
  cases event with
  | construct => trivial
  | read index clock answer store =>
      intro client found _ token expiresAt loads writer wrote
      obtain ⟨other, same, named, _⟩ := legitimate.entry _ _ _ loads.2.1
      cases wrote.symm.trans same
      have sameEnv : writer.env = client.env := (text_injective (Json.str.inj named)).symm
      exact oneKey writer (within.writer writer wrote) client.credentials
        (within.clients client (List.mem_of_getElem? found)) sameEnv

variable [Unicode]

theorem Within.step {credentials : List Credentials} (within : Within credentials fleet)
    (legitimate : fleet.Legitimate) {event : FleetEvent} (own : fleet.LoadsOwn event)
    (listed : ∀ made ∈ constructed event, made ∈ credentials) :
    Within credentials (fleet.step event) := by
  cases event with
  | construct appKey appSecret env =>
      rw [Fleet.step]
      cases made : KisClient.init appKey appSecret env true with
      | error e => exact within
      | ok client =>
          refine ⟨fun other member => ?_, within.writer⟩
          rcases List.mem_append.mp member with old | new
          · exact within.clients other old
          · rw [List.mem_singleton.mp new]
            exact listed _ (by rw [constructed, made]; rfl)
  | read index clock answer store =>
      rw [Fleet.step]
      cases found : fleet.clients[index]? with
      | none => exact within
      | some client =>
          have member := List.mem_of_getElem? found
          have keeps := legitimate.access member (own client found)
            (client.access clock fleet.file answer store)
          refine ⟨fun other listed => ?_, fun writer wrote => ?_⟩
          · rcases List.mem_or_eq_of_mem_set listed with old | rfl
            · exact within.clients other old
            · exact keeps.credentials ▸ within.clients client member
          · rcases writer_record wrote with old | rfl
            · exact within.writer writer old
            · exact within.clients client member

/-- A run in which no two app keys of one environment meet meets the condition. -/
theorem along_of_oneKey (left : Leftover) (events : List FleetEvent)
    (oneKey : OneKey (meeting left events)) : Along step LoadsOwn (opening left) events := by
  refine Along.of_invariant
    (C := fun _ event => ∀ made ∈ constructed event, made ∈ meeting left events)
    (I := fun fleet => fleet.Legitimate ∧ Within (meeting left events) fleet)
    (fun fleet event ⟨legitimate, within⟩ listed => ?_) ⟨opening_legitimate left, ?_⟩
    (Along.of_forall fun event member made built => ?_)
  · have own := loadsOwn_of_oneKey oneKey legitimate within event
    exact ⟨own, (legitimate.step own).2, within.step legitimate own listed⟩
  · cases left with
    | missing | denied | broken =>
        exact ⟨fun _ member => (by cases member), fun _ wrote => (by cases wrote)⟩
    | entry writer token expiresAt =>
        refine ⟨fun _ member => (by cases member), fun _ wrote => ?_⟩
        cases wrote
        exact List.mem_append_left _ List.mem_cons_self
  · exact List.mem_append_right _ (List.mem_filterMap.mpr ⟨event, member, built⟩)

end OneKey

def noon : Clock := ⟨1704155400000000, 1704155400000000, 1704155400000000, 1704155400000000⟩

def grants (token : String) : Answer :=
  .response 200 "" (some (.dict [("access_token", .str token), ("expires_in", .int 86400)]))

/-- Two clients that read one after the other. -/
def twoClients (first second : String) : List FleetEvent :=
  [.construct first "s" "paper", .construct second "s" "paper",
    .read 0 noon (grants "a") .written, .read 1 noon (grants "b") .written]

/-- The second client takes the token of the first from the file: they have one app key. -/
theorem tokens_are_own_restarted :
    @Along _ _ (@step .asciiOnly) (@ReadsOwn .asciiOnly) (opening .missing) (twoClients "k" "k") :=
  @tokens_are_own .asciiOnly .missing (twoClients "k" "k")
    (@along_of_oneKey .asciiOnly .missing (twoClients "k" "k") (by decide))

/-- With two app keys it takes that token, too. -/
theorem tokens_are_not_own :
    ¬ @Along _ _ (@step .asciiOnly) (@ReadsOwn .asciiOnly) (opening .missing)
      (twoClients "k" "l") := by
  rintro ⟨_, _, _, second, _⟩
  have own := second _ rfl (.str "a") rfl
  have same := congrArg (fun grant => grant.2.appKey) (List.mem_singleton.mp own)
  exact absurd same (by decide)

end Fleet

end FundPolymarket.Kis
