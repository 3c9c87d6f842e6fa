import FundPolymarket.KisBroker
import FundPolymarket.KisTokens

set_option autoImplicit false

/- Which answers let an exception other than BrokerError out of the calls of the adapter. -/
namespace FundPolymarket.Kis

open Python (ExtendedDecimal InCalendar Json Unicode)
open Python.Json (field)

def Failure.IsBroker : Failure → Prop
  | .broker _ => True
  | _ => False

def Failure.IsPython : Failure → Prop
  | .python _ => True
  | _ => False

/-- A class of exceptions with BrokerError in it, and none of Python. -/
structure Admits (p : Failure → Prop) : Prop where
  broker : ∀ message, p (.broker message)
  python : ∀ e, ¬ p (.python e)

theorem admits_isBroker : Admits Failure.IsBroker := ⟨fun _ => trivial, fun _ => id⟩

theorem admits_not_isPython : Admits fun e => ¬ e.IsPython := ⟨fun _ => id, fun _ no => no trivial⟩

section Rules

variable {α β : Type} {x : Except Failure α} {p : Failure → Prop}

@[simp] theorem raises_eq_ok {x : Except Python.Exception α} {value : α} :
    raises x = .ok value ↔ x = .ok value := by
  cases x <;> simp [raises, Except.mapError]

theorem onlyRaises_raises (admits : Admits p) {x : Except Python.Exception α} :
    OnlyRaises p (raises x) ↔ ∃ value, x = .ok value := by
  cases x <;> simp [raises, Except.mapError, admits.python]

/-- A step that can only raise an exception of Python has to succeed. -/
theorem onlyRaises_raises_bind (admits : Admits p) {x : Except Python.Exception α}
    {f : α → Except Failure β} :
    OnlyRaises p (raises x >>= f) ↔ ∃ value, x = .ok value ∧ OnlyRaises p (f value) := by
  rw [onlyRaises_bind, onlyRaises_raises admits]
  constructor
  · rintro ⟨⟨value, done⟩, rest⟩
    exact ⟨value, done, rest value (raises_eq_ok.mpr done)⟩
  · rintro ⟨value, done, rest⟩
    refine ⟨⟨value, done⟩, fun other same => ?_⟩
    rw [raises_eq_ok, done] at same
    cases same
    exact rest

@[simp] theorem onHttpError_eq_ok {message : String → String} {value : α} :
    onHttpError message x = .ok value ↔ x = .ok value := by
  unfold onHttpError
  split <;> simp_all

/-- The clause turns the errors of httpx into BrokerErrors. -/
theorem onlyRaises_onHttpError (admits : Admits p) {message : String → String} :
    OnlyRaises p (onHttpError message x) ↔ OnlyRaises (fun e => ¬ e.IsPython) x := by
  cases x with
  | ok value => simp [onHttpError]
  | error e =>
      cases e <;> simp [onHttpError, Failure.IsPython, admits.broker, admits.python]

/-- What is raised is a BrokerError, and what is returned has the property. -/
def Ends (q : α → Prop) (x : Except Failure α) : Prop :=
  OnlyRaises Failure.IsBroker x ∧ ∀ value, x = .ok value → q value

@[simp] theorem ends_ok {q : α → Prop} {value : α} : Ends q (.ok value) ↔ q value := by
  constructor
  · exact fun ends => ends.2 value rfl
  · intro holds
    refine ⟨onlyRaises_ok value, fun other same => ?_⟩
    cases same
    exact holds

@[simp] theorem ends_error {q : α → Prop} {e : Failure} : Ends q (.error e) ↔ e.IsBroker := by
  simp [Ends]

theorem ends_true : Ends (fun _ => True) x ↔ OnlyRaises Failure.IsBroker x := by
  simp [Ends]

theorem ends_bind {f : α → Except Failure β} {q : β → Prop} :
    Ends q (x >>= f) ↔ Ends (fun value => Ends q (f value)) x := by
  cases x with
  | error e => simp [bind, Except.bind]
  | ok value => simp [bind, Except.bind]

theorem ends_raises {x : Except Python.Exception α} {q : α → Prop} :
    Ends q (raises x) ↔ ∃ value, x = .ok value ∧ q value := by
  cases x <;> simp [raises, Except.mapError, Failure.IsBroker]

theorem ends_raises_bind {x : Except Python.Exception α} {f : α → Except Failure β}
    {q : β → Prop} :
    Ends q (raises x >>= f) ↔ ∃ value, x = .ok value ∧ Ends q (f value) := by
  rw [ends_bind, ends_raises]

theorem ends_raiseIf_bind {c : Prop} [Decidable c] {message : String}
    {f : Unit → Except Failure β} {q : β → Prop} :
    Ends q (raiseIf c (.broker message) >>= f) ↔ (¬ c → Ends q (f ())) := by
  unfold raiseIf
  split
  · simp_all [bind, Except.bind, Failure.IsBroker]
  · simp_all [bind, Except.bind]

end Rules

section Answers

namespace Answer

variable {answer : Answer} {value : Json}

/-- A response with success status and a JSON body. -/
def Gives (answer : Answer) (value : Json) : Prop :=
  ∃ status reason, answer = .response status reason (some value) ∧ Succeeds status

/-- No response of the endpoint with success status has a body that is no JSON. -/
def Readable (answer : Answer) : Prop :=
  ∀ status reason, answer = .response status reason none → ¬ Succeeds status

/-- What is given is JSON, and as it should be. -/
def Meets (answer : Answer) (P : Json → Prop) : Prop :=
  answer.Readable ∧ ∀ value, answer.Gives value → P value

theorem Gives.unique {other : Json} (gives : answer.Gives value) (also : answer.Gives other) :
    value = other := by
  obtain ⟨_, _, response, _⟩ := gives
  obtain ⟨_, _, same, _⟩ := also
  cases response.symm.trans same
  rfl

theorem json_eq_ok : answer.json = .ok value ↔ answer.Gives value := by
  unfold json Gives
  cases answer with
  | httpError message => simp
  | response status reason body =>
      by_cases succeeds : Succeeds status
      · cases body <;> simp [succeeds, orRaise]
      · simp [succeeds]

theorem notPython_json : OnlyRaises (fun e => ¬ e.IsPython) answer.json ↔ answer.Readable := by
  unfold json Readable
  cases answer with
  | httpError message => simp [Failure.IsPython]
  | response status reason body =>
      by_cases succeeds : Succeeds status
      · cases body <;> simp [succeeds, Failure.IsPython]
      · simp [succeeds, Failure.IsPython]

theorem json_ne_keyError : answer.json ≠ .error (.python .keyError) := by
  unfold json
  cases answer with
  | httpError message => simp
  | response status reason body =>
      by_cases succeeds : Succeeds status
      · cases body <;> simp [succeeds, orRaise]
      · simp [succeeds]

end Answer

/-- A header that httpx can encode. -/
def Encodable (value : Json) : Prop := ∃ text, value = .str text ∧ Python.isAscii text = true

theorem headerValue_eq_ok {value : Json} {done : Unit} :
    headerValue value = .ok done ↔ Encodable value := by
  cases value <;> simp [headerValue, Encodable]

theorem encodeHeaders_eq_ok {values : List Json} {done : Unit} :
    encodeHeaders values = .ok done ↔ ∀ value ∈ values, Encodable value := by
  induction values with
  | nil => simp [encodeHeaders, pure, Except.pure]
  | cons value values ih =>
      rw [List.forall_mem_cons, ← ih, encodeHeaders, List.forM_cons, bind_eq_ok]
      simp [headerValue_eq_ok, encodeHeaders]

/-- What a header can raise. -/
def Failure.IsEncoding (e : Failure) : Prop :=
  e = .python .valueError ∨ e = .python .typeError

theorem headerValue_raises {value : Json} {e : Failure} (raised : headerValue value = .error e) :
    e.IsEncoding := by
  unfold headerValue at raised
  split at raised
  · unfold raiseIf at raised
    split at raised
    · cases raised
      exact .inl rfl
    · cases raised
  · cases raised
    exact .inr rfl

theorem encodeHeaders_raises {values : List Json} {e : Failure}
    (raised : encodeHeaders values = .error e) : e.IsEncoding := by
  induction values with
  | nil => cases raised
  | cons value values ih =>
      rw [encodeHeaders, List.forM_cons] at raised
      cases first : headerValue value with
      | error other =>
          rw [first] at raised
          cases raised
          exact headerValue_raises first
      | ok done =>
          rw [first] at raised
          exact ih raised

theorem Failure.IsEncoding.isPython {e : Failure} (encoding : e.IsEncoding) : e.IsPython := by
  rcases encoding with rfl | rfl <;> trivial

end Answers

section Expiry

variable [Unicode]

/-- The dates that an answer of the token endpoint leads to are in the calendar: that of
`expires_in` where it is an integer, else that of the text, else the next day. -/
structure ExpirySafe (clock : Clock) (fields : List (String × Json)) : Prop where
  bounded : (field fields "expires_in").toInt ≠ .error .overflowError
  seconds : ∀ n, (field fields "expires_in").toInt = .ok n →
    InCalendar (clock.issued + n * Python.microsPerSecond)
  text : (∀ n, (field fields "expires_in").toInt ≠ .ok n) →
    (field fields "access_token_token_expired").truthy = true →
    ∀ kst, Python.strptime (field fields "access_token_token_expired").text = some kst →
      InCalendar (kst - kstOffset)
  fallback : (∀ n, (field fields "expires_in").toInt ≠ .ok n) →
    ((field fields "access_token_token_expired").truthy = true →
      Python.strptime (field fields "access_token_token_expired").text = none) →
    InCalendar (clock.fallback + microsPerDay)

variable {clock : Clock} {fields : List (String × Json)} {n : ℤ} {e : Python.Exception}

/-- `int(None)` raises a TypeError, so a value that does not is no null. -/
theorem isNone_of_toInt {value : Json} (other : value.toInt ≠ .error .typeError) :
    value.isNone = false := by
  cases value with
  | null => exact absurd rfl other
  | _ => rfl

/-- An integer in `expires_in` decides. -/
theorem parseTokenExpiry_of_seconds (read : (field fields "expires_in").toInt = .ok n) :
    parseTokenExpiry clock (.dict fields) =
      Python.plus clock.issued (n * Python.microsPerSecond) := by
  rw [parseTokenExpiry, Python.Json.get_dict, ok_bind, expiryFromSeconds, read,
    isNone_of_toInt (by simp [read])]
  simp only [Bool.false_eq_true, if_false]
  cases Python.plus clock.issued (n * Python.microsPerSecond) <;> rfl

theorem parseTokenExpiry_of_overflow
    (raised : (field fields "expires_in").toInt = .error .overflowError) :
    parseTokenExpiry clock (.dict fields) = .error .overflowError := by
  rw [parseTokenExpiry, Python.Json.get_dict, ok_bind, expiryFromSeconds, raised,
    isNone_of_toInt (by simp [raised])]
  rfl

/-- Any other exception of `int` is caught. -/
theorem expiryFromSeconds_caught {value : Json} {now : Time} (raised : value.toInt = .error e)
    (mild : e ≠ .overflowError) : expiryFromSeconds now value = .ok none := by
  unfold expiryFromSeconds
  split
  · rfl
  · rcases Python.Json.toInt_error raised with rfl | rfl | rfl
    · simp [raised]
    · simp [raised]
    · exact absurd rfl mild

/-- Then a date in the text decides. -/
theorem parseTokenExpiry_of_text {kst : Time}
    (raised : (field fields "expires_in").toInt = .error e) (mild : e ≠ .overflowError)
    (given : (field fields "access_token_token_expired").truthy = true)
    (dated : Python.strptime (field fields "access_token_token_expired").text = some kst) :
    parseTokenExpiry clock (.dict fields) = Python.plus kst (-kstOffset) := by
  rw [parseTokenExpiry, Python.Json.get_dict, Python.Json.get_dict, ok_bind,
    expiryFromSeconds_caught raised mild, ok_bind]
  simp only [ok_bind, expiryFromText, given, dated, if_true]
  cases Python.plus kst (-kstOffset) <;> rfl

/-- And without one, the day after. -/
theorem parseTokenExpiry_of_neither
    (raised : (field fields "expires_in").toInt = .error e) (mild : e ≠ .overflowError)
    (undated : (field fields "access_token_token_expired").truthy = true →
      Python.strptime (field fields "access_token_token_expired").text = none) :
    parseTokenExpiry clock (.dict fields) = Python.plus clock.fallback microsPerDay := by
  have absent : expiryFromText (field fields "access_token_token_expired") = .ok none := by
    unfold expiryFromText
    split
    · rw [undated ‹_›]
    · rfl
  rw [parseTokenExpiry, Python.Json.get_dict, Python.Json.get_dict, ok_bind,
    expiryFromSeconds_caught raised mild, ok_bind]
  simp only [ok_bind, absent]

theorem exists_parseTokenExpiry :
    (∃ expiresAt, parseTokenExpiry clock (.dict fields) = .ok expiresAt) ↔
      ExpirySafe clock fields := by
  cases read : (field fields "expires_in").toInt with
  | ok n =>
      rw [parseTokenExpiry_of_seconds read, Python.exists_plus_eq_ok]
      constructor
      · intro within
        refine ⟨by simp [read], fun m same => ?_, fun none => absurd read (none n),
          fun none => absurd read (none n)⟩
        cases read.symm.trans same
        exact within
      · exact fun safe => safe.seconds n read
  | error e =>
      have noSeconds : ∀ n, (field fields "expires_in").toInt ≠ .ok n := by simp [read]
      by_cases overflow : e = .overflowError
      · subst overflow
        rw [parseTokenExpiry_of_overflow read]
        constructor
        · rintro ⟨_, same⟩
          cases same
        · exact fun safe => absurd read safe.bounded
      · have bounded : (field fields "expires_in").toInt ≠ .error .overflowError := by
          simpa [read] using overflow
        by_cases undated : (field fields "access_token_token_expired").truthy = true →
            Python.strptime (field fields "access_token_token_expired").text = none
        · rw [parseTokenExpiry_of_neither read overflow undated, Python.exists_plus_eq_ok]
          constructor
          · intro within
            refine ⟨bounded, fun n same => absurd same (noSeconds n), fun _ given kst dated => ?_,
              fun _ _ => within⟩
            rw [undated given] at dated
            cases dated
          · exact fun safe => safe.fallback noSeconds undated
        · obtain ⟨given, some⟩ := Classical.not_imp.mp undated
          obtain ⟨kst, dated⟩ := Option.ne_none_iff_exists'.mp some
          rw [parseTokenExpiry_of_text read overflow given dated, Python.exists_plus_eq_ok]
          constructor
          · intro within
            refine ⟨bounded, fun n same => absurd same (noSeconds n), fun _ _ other same => ?_,
              fun _ none => absurd none undated⟩
            cases dated.symm.trans same
            exact within
          · exact fun safe => safe.text noSeconds given kst dated

end Expiry

section Token

variable [Unicode] {client : KisClient} {clock : Clock} {file : CacheFile} {answer : Answer}
  {store : StoreOutcome} {token : Json} {p : Failure → Prop}

/-- A body of the token endpoint that is refused or understood. -/
def TokenBody (clock : Clock) (value : Json) : Prop :=
  ∃ fields, value = .dict fields ∧
    ((field fields "access_token").truthy = true → ExpirySafe clock fields)

theorem onlyRaises_issueToken (admits : Admits p) :
    OnlyRaises p (KisClient.issueToken clock answer) ↔ answer.Meets (TokenBody clock) := by
  rw [KisClient.issueToken, onlyRaises_bind, onlyRaises_onHttpError admits, Answer.notPython_json,
    Answer.Meets]
  refine and_congr_right fun _ => forall_congr' fun value => ?_
  rw [onHttpError_eq_ok, Answer.json_eq_ok]
  refine imp_congr_right fun _ => ?_
  cases value with
  | dict fields =>
      rw [Python.Json.get_dict, onlyRaises_raises_bind admits]
      simp only [TokenBody, Json.dict.injEq, exists_eq_left', Except.ok.injEq, onlyRaises_bind,
        onlyRaises_raiseIf, raiseIf_eq_ok, onlyRaises_raises admits, exists_parseTokenExpiry]
      simp [admits.broker, pure, Except.pure]
  | _ => simp [TokenBody, onlyRaises_raises_bind admits, Json.get]

theorem issueToken_eq_ok {expiresAt : Time} :
    KisClient.issueToken clock answer = .ok (token, expiresAt) ↔
      ∃ fields, answer.Gives (.dict fields) ∧ token = field fields "access_token" ∧
        token.truthy = true ∧ parseTokenExpiry clock (.dict fields) = .ok expiresAt := by
  constructor
  · intro issued
    obtain ⟨body, given, rest⟩ := bind_eq_ok.mp issued
    obtain ⟨found, foundOk, rest⟩ := bind_eq_ok.mp rest
    obtain ⟨truthy, rest⟩ := raiseIf_bind_eq_ok.mp rest
    obtain ⟨expiry, parsed, same⟩ := bind_eq_ok.mp rest
    cases same
    rw [onHttpError_eq_ok, Answer.json_eq_ok] at given
    rw [raises_eq_ok] at foundOk parsed
    obtain ⟨fields, rfl, rfl⟩ := Python.Json.get_eq_ok.mp foundOk
    exact ⟨fields, given, rfl, by simpa using truthy, parsed⟩
  · rintro ⟨fields, given, rfl, truthy, parsed⟩
    refine bind_eq_ok.mpr ⟨_, onHttpError_eq_ok.mpr (Answer.json_eq_ok.mpr given), ?_⟩
    refine bind_eq_ok.mpr ⟨_, raises_eq_ok.mpr (Python.Json.get_dict fields _), ?_⟩
    refine raiseIf_bind_eq_ok.mpr ⟨by simp [truthy], ?_⟩
    exact bind_eq_ok.mpr ⟨_, raises_eq_ok.mpr parsed, rfl⟩

/-- Everything that the access to the token looks at is as it should be: the expiry in
memory, then the file, then the answer of the endpoint. -/
structure TokenSafe (client : KisClient) (clock : Clock) (file : CacheFile) (answer : Answer) :
    Prop where
  memory : client.MemorySafe
  lookup : ¬ client.HasFresh clock.now → ¬ client.Denied file
  issue : ¬ client.HasFresh clock.now → (∀ token, ¬ client.FileGives clock file token) →
    answer.Meets (TokenBody clock)

/-- Where the token comes from. -/
inductive TokenSource (client : KisClient) (clock : Clock) (file : CacheFile) (answer : Answer) :
    Json → Prop where
  | memory (fresh : client.HasFresh clock.now) : TokenSource client clock file answer client.token
  | file (stale : ¬ client.HasFresh clock.now) {token : Json}
      (gives : client.FileGives clock file token) : TokenSource client clock file answer token
  | issued (stale : ¬ client.HasFresh clock.now)
      (none : ∀ token, ¬ client.FileGives clock file token) {fields : List (String × Json)}
      (gives : answer.Gives (.dict fields))
      (given : (field fields "access_token").truthy = true) :
      TokenSource client clock file answer (field fields "access_token")

theorem onlyRaises_accessToken (admits : Admits p) :
    OnlyRaises p (client.accessToken clock file answer store).result ↔
      TokenSafe client clock file answer := by
  have access := client.access clock file answer store
  revert access
  generalize client.accessToken clock file answer store = read
  intro access
  cases access with
  | overflow outside =>
      exact ⟨fun only => absurd (only _ rfl) (admits.python _),
        fun safe => absurd safe.memory outside⟩
  | memory safe fresh =>
      exact ⟨fun _ => ⟨safe, fun stale => absurd fresh stale, fun stale => absurd fresh stale⟩,
        fun _ => onlyRaises_ok _⟩
  | denied safe stale denied =>
      exact ⟨fun only => absurd (only _ rfl) (admits.python _),
        fun safe => absurd denied (safe.lookup stale)⟩
  | file safe stale allowed loads gives =>
      exact ⟨fun _ => ⟨safe, fun _ => allowed, fun _ none => absurd gives (none _)⟩,
        fun _ => onlyRaises_ok _⟩
  | refused safe stale allowed load none raised =>
      have issue := @onlyRaises_issueToken _ clock answer _ admits
      rw [raised, onlyRaises_error] at issue
      rw [onlyRaises_error, issue]
      exact ⟨fun meets => ⟨safe, fun _ => allowed, fun _ _ => meets⟩,
        fun safe => safe.issue stale none⟩
  | issued safe stale allowed load none given =>
      have meets := (onlyRaises_issueToken admits).mp (given ▸ onlyRaises_ok _)
      exact ⟨fun _ => ⟨safe, fun _ => allowed, fun _ _ => meets⟩, fun _ => onlyRaises_ok _⟩

omit [Unicode] in
theorem TokenSource.unique {other : Json} (source : TokenSource client clock file answer token)
    (also : TokenSource client clock file answer other) : token = other := by
  cases source with
  | memory fresh =>
      cases also with
      | memory => rfl
      | file stale => exact absurd fresh stale
      | issued stale => exact absurd fresh stale
  | file stale gives =>
      cases also with
      | memory fresh => exact absurd fresh stale
      | file _ others => exact gives.unique others
      | issued _ none => exact absurd gives (none _)
  | issued stale none gives given =>
      cases also with
      | memory fresh => exact absurd fresh stale
      | file _ others => exact absurd others (none _)
      | issued _ _ others =>
          cases gives.unique others
          rfl

theorem source_of_accessToken
    (result : (client.accessToken clock file answer store).result = .ok token) :
    TokenSource client clock file answer token := by
  have access := client.access clock file answer store
  revert access result
  generalize client.accessToken clock file answer store = read
  intro result access
  cases access with
  | memory _ fresh =>
      cases result
      exact .memory fresh
  | file _ stale _ _ gives =>
      cases result
      exact .file stale gives
  | issued _ stale _ _ none given =>
      cases result
      obtain ⟨fields, gives, rfl, truthy, _⟩ := issueToken_eq_ok.mp given
      exact .issued stale none gives truthy
  | overflow | denied | refused => cases result

/-- Where nothing stands in the way, the token of the source is what the access returns. -/
theorem accessToken_eq_ok (safe : TokenSafe client clock file answer) :
    (client.accessToken clock file answer store).result = .ok token ↔
      TokenSource client clock file answer token := by
  refine ⟨source_of_accessToken, fun source => ?_⟩
  obtain ⟨found, result⟩ :
      ∃ found, (client.accessToken clock file answer store).result = .ok found := by
    have access := client.access clock file answer store
    revert access
    generalize client.accessToken clock file answer store = read
    intro access
    cases access with
    | overflow outside => exact absurd safe.memory outside
    | denied _ stale denied => exact absurd denied (safe.lookup stale)
    | memory => exact ⟨_, rfl⟩
    | file => exact ⟨_, rfl⟩
    | issued => exact ⟨_, rfl⟩
    | refused _ stale _ _ none raised =>
        cases source with
        | memory fresh => exact absurd fresh stale
        | file _ gives => exact absurd gives (none _)
        | @issued _ _ fields gives given =>
            obtain ⟨other, same, expiry⟩ := (safe.issue stale none).2 _ gives
            cases same
            obtain ⟨expiresAt, parsed⟩ := exists_parseTokenExpiry.mpr (expiry given)
            rw [issueToken_eq_ok.mpr ⟨fields, gives, rfl, given, parsed⟩] at raised
            cases raised
  rw [result, (source_of_accessToken result).unique source]

theorem onlyRaises_tokenFor {s : Surroundings} (admits : Admits p) :
    OnlyRaises p (client.tokenFor s) ↔ TokenSafe client s.clock s.file s.token :=
  onlyRaises_accessToken admits

theorem tokenFor_eq_ok {s : Surroundings} (safe : TokenSafe client s.clock s.file s.token) :
    client.tokenFor s = .ok token ↔ TokenSource client s.clock s.file s.token token :=
  accessToken_eq_ok safe

end Token

section Calls

variable [Unicode] {client : KisClient} {s : Surroundings} {α : Type}

/-- KIS has not refused the request. -/
def Accepted (fields : List (String × Json)) : Prop :=
  field fields "rt_cd" = .null ∨ field fields "rt_cd" = .str "0"

/-- A JSON object that, where it is accepted, has the property. -/
def Body (P : List (String × Json) → Prop) (value : Json) : Prop :=
  ∃ fields, value = .dict fields ∧ (Accepted fields → P fields)

theorem ends_raiseForRtCd {path : String} {body : Json} {q : Unit → Prop} :
    Ends q (KisClient.raiseForRtCd path body) ↔ Body (fun _ => q ()) body := by
  cases body with
  | dict fields =>
      obtain ⟨message, read⟩ : ∃ message, KisClient.raiseForRtCd path (.dict fields) =
          if (field fields "rt_cd").isNone || (field fields "rt_cd").isText "0" then .ok ()
          else .error (.broker message) := ⟨_, rfl⟩
      rw [read]
      by_cases accepted : Accepted fields
      · have success :
            ((field fields "rt_cd").isNone || (field fields "rt_cd").isText "0") = true := by
          simpa [Accepted] using accepted
        simp [success, Body, accepted]
      · have failure :
            ((field fields "rt_cd").isNone || (field fields "rt_cd").isText "0") = false := by
          simpa [Accepted, ← Bool.not_eq_true] using accepted
        simp [failure, Body, accepted, Failure.IsBroker]
  | _ => simp [KisClient.raiseForRtCd, Json.get, ends_raises_bind, Body]

/-- What a call of the client rests on: that it gets a token, that the headers can be encoded,
and that the endpoint answers with an object that has the property. -/
def Sent (client : KisClient) (s : Surroundings) (trId : String) (extra : List Json)
    (answer : Answer) (P : List (String × Json) → Prop) : Prop :=
  TokenSafe client s.clock s.file s.token ∧
    ∀ token, TokenSource client s.clock s.file s.token token →
      (∀ header ∈ client.headers trId token extra, Encodable header) ∧ answer.Meets (Body P)

omit [Unicode] in
/-- The part of a call that is inside the `try`. -/
theorem onlyRaises_exchange {values : List Json} {answer : Answer} :
    OnlyRaises (fun e => ¬ e.IsPython) (do
      encodeHeaders values
      answer.json) ↔ (∀ value ∈ values, Encodable value) ∧ answer.Readable := by
  rw [onlyRaises_bind, Answer.notPython_json]
  constructor
  · rintro ⟨only, rest⟩
    cases encoded : encodeHeaders values with
    | error e => exact absurd (encodeHeaders_raises encoded).isPython (only e encoded)
    | ok done => exact ⟨encodeHeaders_eq_ok.mp encoded, rest done encoded⟩
  · rintro ⟨all, readable⟩
    exact ⟨(@encodeHeaders_eq_ok values ()).mpr all ▸ onlyRaises_ok _, fun _ _ => readable⟩

omit [Unicode] in
theorem exchange_eq_ok {values : List Json} {answer : Answer} {body : Json} :
    (do
      encodeHeaders values
      answer.json) = .ok body ↔ (∀ value ∈ values, Encodable value) ∧ answer.Gives body := by
  rw [bind_eq_ok]
  simp only [Answer.json_eq_ok, encodeHeaders_eq_ok, exists_const]

theorem ends_accepted {path : String} {body : Json} {q : Json → Prop} :
    Ends q (do
      KisClient.raiseForRtCd path body
      pure body) ↔ Body (fun fields => q (.dict fields)) body := by
  rw [ends_bind, ends_raiseForRtCd]
  refine exists_congr fun fields => and_congr_right fun same => imp_congr_right fun _ => ?_
  rw [same]
  exact ends_ok

theorem ends_get {path trId : String} {answer : Answer} {f : Json → Except Failure α}
    {q : α → Prop} :
    Ends q (client.get s path trId answer >>= f) ↔
      Sent client s trId [] answer fun fields => Ends q (f (.dict fields)) := by
  rw [ends_bind, KisClient.get, ends_bind]
  simp only [ends_accepted]
  rw [Ends, onlyRaises_onHttpError admits_isBroker, onlyRaises_bind, Sent]
  simp only [onHttpError_eq_ok, onlyRaises_exchange]
  rw [onlyRaises_tokenFor admits_not_isPython]
  constructor
  · rintro ⟨⟨safe, sent⟩, bodies⟩
    refine ⟨safe, fun token source => ?_⟩
    have given := (tokenFor_eq_ok safe).mpr source
    obtain ⟨headers, readable⟩ := sent token given
    exact ⟨headers, readable, fun body gives =>
      bodies body (bind_eq_ok.mpr ⟨token, given, exchange_eq_ok.mpr ⟨headers, gives⟩⟩)⟩
  · rintro ⟨safe, sent⟩
    refine ⟨⟨safe, fun token given => ?_⟩, fun body exchanged => ?_⟩
    · obtain ⟨headers, meets⟩ := sent token ((tokenFor_eq_ok safe).mp given)
      exact ⟨headers, meets.1⟩
    · obtain ⟨token, given, rest⟩ := bind_eq_ok.mp exchanged
      obtain ⟨_, gives⟩ := exchange_eq_ok.mp rest
      exact (sent token ((tokenFor_eq_ok safe).mp given)).2.2 body gives

/-- The endpoint of the hashes gives this one. -/
def GivesHash (answer : Answer) (hash : Json) : Prop :=
  ∃ fields, answer.Gives (.dict fields) ∧ Json.lookup fields "HASH" = some hash

/-- What the request for a hash rests on: headers that can be encoded, and a JSON object. -/
def HashSafe (client : KisClient) (answer : Answer) : Prop :=
  (∀ header ∈ [KisClient.contentType, .str client.appKey, .str client.appSecret],
    Encodable header) ∧ answer.Meets fun value => ∃ fields, value = .dict fields

omit [Unicode] in
theorem ends_hashkey {fields : List (String × String)} {q : Json → Prop} :
    Ends q (client.hashkey s fields) ↔ HashSafe client (s.hashkey fields) ∧
      ∀ hash, GivesHash (s.hashkey fields) hash → q hash := by
  rw [KisClient.hashkey, HashSafe, ← @encodeHeaders_eq_ok _ ()]
  cases encoded : encodeHeaders [KisClient.contentType, .str client.appKey,
    .str client.appSecret] with
  | error e =>
      rcases encodeHeaders_raises encoded with rfl | rfl <;>
        simp [bind, Except.bind, Failure.IsBroker]
  | ok done =>
      have readable := @Answer.notPython_json (s.hashkey fields)
      have gives := fun value => @Answer.json_eq_ok (s.hashkey fields) value
      simp only [ok_bind, true_and, Answer.Meets, GivesHash, ← gives, ← readable]
      cases read : (s.hashkey fields).json with
      | error e =>
          have notKey : e ≠ .python .keyError := fun same => Answer.json_ne_keyError (same ▸ read)
          cases e with
          | broker message => simp [bind, Except.bind, Failure.IsBroker, Failure.IsPython]
          | http message => simp [bind, Except.bind, Failure.IsBroker, Failure.IsPython]
          | python raised =>
              cases raised <;> simp_all [bind, Except.bind, Failure.IsBroker, Failure.IsPython]
      | ok value =>
          simp only [ok_bind, onlyRaises_ok, true_and, Except.ok.injEq, forall_eq']
          cases value with
          | dict entries =>
              simp only [Json.dict.injEq, exists_eq', true_and, exists_eq_left']
              cases found : Json.lookup entries "HASH" with
              | none =>
                  simp [Json.getItem, found, orRaise, raises, Except.mapError, Failure.IsBroker]
              | some hash => simp [Json.getItem, found, orRaise, raises, Except.mapError]
          | _ => simp [Json.getItem, raises, Except.mapError, Failure.IsBroker]

theorem ends_post {path trId : String} {fields : List (String × String)} {answer : Answer}
    {f : Json → Except Failure α} {q : α → Prop} :
    Ends q (client.post s path trId fields answer >>= f) ↔
      HashSafe client (s.hashkey fields) ∧ ∀ hash, GivesHash (s.hashkey fields) hash →
        Sent client s trId [hash] answer fun fields => Ends q (f (.dict fields)) := by
  rw [ends_bind, KisClient.post, ends_bind, ends_hashkey]
  refine and_congr_right fun _ => forall_congr' fun hash => imp_congr_right fun _ => ?_
  rw [ends_bind, Ends, onlyRaises_tokenFor admits_isBroker]
  refine and_congr_right fun safe => forall_congr' fun token => ?_
  rw [tokenFor_eq_ok safe]
  refine imp_congr_right fun _ => ?_
  rw [ends_bind]
  simp only [ends_accepted]
  rw [Ends, onlyRaises_onHttpError admits_isBroker, onlyRaises_exchange]
  simp only [onHttpError_eq_ok, exchange_eq_ok]
  constructor
  · rintro ⟨⟨headers, readable⟩, bodies⟩
    exact ⟨headers, readable, fun body gives => bodies body ⟨headers, gives⟩⟩
  · rintro ⟨headers, readable, bodies⟩
    exact ⟨⟨headers, readable⟩, fun body exchanged => bodies body exchanged.2⟩

end Calls

section Bodies

variable [Unicode]

/-- Texts that `_dec` does not read, and that could not be read. -/
theorem decimalOf_blank {value : Json} {chars : List Char}
    (text : value.text = String.ofList chars)
    (blank : chars = ['N', 'o', 'n', 'e'] ∨ chars = [] ∨ chars = ['-']) :
    decimalOf value = none := by
  rw [decimalOf, text, Python.strip, Python.decimalOfText, String.toList_ofList,
    String.toList_ofList]
  rcases blank with rfl | rfl | rfl <;> rfl

theorem dec_eq (value : Json) : dec value = (decimalOf value).getD zero := by
  unfold dec
  split
  · rename_i blank
    have unread : decimalOf value = none := by
      rw [Bool.or_eq_true, Bool.or_eq_true, Python.Json.isNone_iff, Python.Json.isText_iff,
        Python.Json.isText_iff] at blank
      rcases blank with (rfl | rfl) | rfl
      · exact decimalOf_blank rfl (.inl rfl)
      · exact decimalOf_blank rfl (.inr (.inl rfl))
      · exact decimalOf_blank rfl (.inr (.inr rfl))
    rw [unread]
    rfl
  · rfl

/-- A price that can be compared, and is no infinite one. -/
def PriceSafe (value : Json) : Prop :=
  decimalOf value ≠ some .nan ∧ decimalOf value ≠ some (.infinite false)

/-- What a quote rests on: no output at all, or an object with a price that is safe. -/
def QuoteFields (fields : List (String × Json)) : Prop :=
  (field fields "output").truthy = true →
    ∃ output, field fields "output" = .dict output ∧ PriceSafe (field output "stck_prpr")

omit [Unicode] in
theorem or_of_truthy {value other : Json} (truthy : value.truthy = true) :
    value.or other = value := if_pos truthy

omit [Unicode] in
theorem or_of_not_truthy {value other : Json} (truthy : ¬ value.truthy = true) :
    value.or other = other := if_neg truthy

theorem ends_readQuote {ticker : String} {fields : List (String × Json)} :
    Ends (fun quote : Quote => quote.price.FinitePositive)
      (KisBroker.readQuote ticker (.dict fields)) ↔ QuoteFields fields := by
  rw [KisBroker.readQuote, ends_raises_bind, QuoteFields]
  simp only [Python.Json.get_dict, Except.ok.injEq, exists_eq_left']
  by_cases truthy : (field fields "output").truthy = true
  · rw [or_of_truthy truthy]
    simp only [truthy, forall_const]
    generalize field fields "output" = output
    cases output with
    | dict entries =>
        simp only [ends_raises_bind, Python.Json.get_dict, Except.ok.injEq, exists_eq_left',
          Json.dict.injEq, dec_eq, PriceSafe, ends_raiseIf_bind, pure, Except.pure, ends_ok]
        cases decimalOf (field entries "stck_prpr") with
        | none => simp [zero, ExtendedDecimal.nonpositive]
        | some price =>
            cases price with
            | nan => simp [ExtendedDecimal.nonpositive]
            | infinite negative =>
                cases negative <;>
                  simp [ExtendedDecimal.nonpositive, ExtendedDecimal.FinitePositive]
            | finite negative coefficient exponent =>
                cases negative <;>
                  simp [ExtendedDecimal.nonpositive, ExtendedDecimal.FinitePositive,
                    Nat.pos_iff_ne_zero]
    | _ => simp [ends_raises_bind, Json.get]
  · rw [or_of_not_truthy truthy]
    have absent : (dec (field [] "stck_prpr")).nonpositive = .ok true := rfl
    simp [ends_raises_bind, ends_raiseIf_bind, absent, truthy]

/-- What the answer to an accepted order rests on: no output at all, or an object. -/
def OrderFields (fields : List (String × Json)) : Prop :=
  (field fields "output").truthy = true → ∃ output, field fields "output" = .dict output

omit [Unicode] in
theorem ends_readOrder {sent : List (String × String)} {fields : List (String × Json)} :
    Ends (fun _ => True) (KisBroker.readOrder sent (.dict fields)) ↔ OrderFields fields := by
  rw [KisBroker.readOrder, ends_raises_bind, OrderFields]
  simp only [Python.Json.get_dict, Except.ok.injEq, exists_eq_left']
  by_cases truthy : (field fields "output").truthy = true
  · rw [or_of_truthy truthy]
    generalize field fields "output" = output at truthy
    cases output with
    | dict entries => simp [ends_raises_bind, Json.get, pure, Except.pure]
    | _ => simp_all [ends_raises_bind, Json.get]
  · rw [or_of_not_truthy truthy]
    simp [ends_raises_bind, Json.get, truthy, pure, Except.pure]

/-- A row of the holdings: an object whose quantity is no infinite number. -/
def HoldingRow (row : Json) : Prop :=
  ∃ fields, row = .dict fields ∧
    ∀ negative, decimalOf (field fields "hldg_qty") ≠ some (.infinite negative)

theorem exists_int_eq_ok {value : Json} :
    (∃ n, int value = .ok n) ↔ ∀ negative, decimalOf value ≠ some (.infinite negative) := by
  unfold int
  cases decimalOf value with
  | none => simp
  | some d => cases d <;> simp [ExtendedDecimal.toInt]

theorem onlyRaises_readHolding {row : Json} :
    OnlyRaises Failure.IsBroker (KisBroker.readHolding row) ↔ HoldingRow row := by
  cases row with
  | dict fields =>
      rw [KisBroker.readHolding, onlyRaises_raises_bind admits_isBroker]
      simp only [Python.Json.get_dict, Except.ok.injEq, exists_eq_left', HoldingRow,
        Json.dict.injEq]
      rw [onlyRaises_raises_bind admits_isBroker, ← exists_int_eq_ok]
      refine exists_congr fun n => and_iff_left ?_
      split
      · exact onlyRaises_ok _
      · simp [onlyRaises_raises_bind admits_isBroker, Json.get, pure, Except.pure]
  | _ => simp [KisBroker.readHolding, onlyRaises_raises_bind admits_isBroker, Json.get, HoldingRow]

/-- Reading a row raises no BrokerError: whatever it raises escapes. -/
theorem readHolding_raises (row : Json) (e : Failure)
    (raised : KisBroker.readHolding row = .error e) : ¬ e.IsBroker := by
  have only : OnlyRaises (fun e => ¬ e.IsBroker) (KisBroker.readHolding row) := by
    have step : ∀ {α : Type} (x : Except Python.Exception α),
        OnlyRaises (fun e => ¬ e.IsBroker) (raises x) := by
      intro α x
      cases x <;> simp [raises, Except.mapError, Failure.IsBroker]
    simp only [KisBroker.readHolding, onlyRaises_bind, step, true_and]
    intro _ _ quantity _
    split
    · exact onlyRaises_ok _
    · simp [onlyRaises_bind, step, pure, Except.pure]
  exact only e raised

/-- What a balance rests on: holdings that are listed, and a first summary that is an object. -/
def BalanceFields (fields : List (String × Json)) : Prop :=
  ((field fields "output1").truthy = true →
    ∃ rows, field fields "output1" = .list rows ∧ ∀ row ∈ rows, HoldingRow row) ∧
  ((field fields "output2").truthy = true →
    ∃ summary rest, field fields "output2" = .list (.dict summary :: rest))

theorem iterate_rows {output1 : Json} :
    (∃ rows, KisBroker.iterate (output1.or (.list [])) = .ok rows ∧
        ∀ row ∈ rows, HoldingRow row) ↔
      (output1.truthy = true →
        ∃ rows, output1 = .list rows ∧ ∀ row ∈ rows, HoldingRow row) := by
  have noText : ∀ text : String, ¬ HoldingRow (.str text) := fun text ⟨_, same, _⟩ => by cases same
  by_cases truthy : output1.truthy = true
  · rw [or_of_truthy truthy]
    simp only [truthy, forall_const]
    cases output1 with
    | list rows => simp [KisBroker.iterate]
    | dict entries =>
        cases entries with
        | nil => cases truthy
        | cons entry entries => simp [KisBroker.iterate, noText]
    | str text =>
        cases chars : text.toList with
        | nil => simp_all [Json.truthy]
        | cons c rest => simp [KisBroker.iterate, chars, noText]
    | _ => simp [KisBroker.iterate]
  · rw [or_of_not_truthy truthy]
    simp [KisBroker.iterate, truthy]

omit [Unicode] in
/-- The summary is read where the first element of the second output is an object. -/
theorem exists_summary {output2 : Json} :
    (∃ summary, KisBroker.summaryRow output2 = .ok summary ∧
        ∃ cash, summary.get "dnca_tot_amt" = .ok cash) ↔
      (output2.truthy = true →
        ∃ summary rest, output2 = .list (.dict summary :: rest)) := by
  have object : ∀ value : Json, (∃ cash, value.get "dnca_tot_amt" = .ok cash) ↔
      ∃ fields, value = .dict fields := by
    intro value
    cases value <;> simp [Json.get]
  simp only [object, KisBroker.summaryRow]
  split
  · rename_i truthy
    simp only [truthy, forall_const]
    cases output2 with
    | list items =>
        cases items with
        | nil => cases truthy
        | cons item rest => simp [KisBroker.first]
    | str text => cases chars : text.toList <;> simp [KisBroker.first, chars]
    | _ => simp [KisBroker.first]
  · rename_i falsy
    simp [falsy]

theorem onlyRaises_rows {rows : List Json} {α : Type}
    {f : List (Option HoldingItem) → Except Failure α} {c : Prop}
    (rest : ∀ holdings, OnlyRaises Failure.IsBroker (f holdings) ↔ c) :
    OnlyRaises Failure.IsBroker (rows.mapM KisBroker.readHolding >>= f) ↔
      (∀ row ∈ rows, HoldingRow row) ∧ c := by
  rw [onlyRaises_bind, onlyRaises_mapM readHolding_raises]
  simp only [onlyRaises_readHolding, rest]
  refine and_congr_right fun all => ?_
  have each : ∀ row ∈ rows, ∃ holding, KisBroker.readHolding row = .ok holding := by
    intro row member
    cases read : KisBroker.readHolding row with
    | ok holding => exact ⟨holding, rfl⟩
    | error e =>
        have only := onlyRaises_readHolding.mpr (all row member)
        exact absurd (only e read) (readHolding_raises row e read)
  obtain ⟨holdings, done⟩ := exists_mapM_eq_ok each
  exact ⟨fun each => each holdings done, fun holds _ _ => holds⟩

theorem ends_readBalance {fields : List (String × Json)} :
    Ends (fun _ => True) (KisBroker.readBalance (.dict fields)) ↔ BalanceFields fields := by
  rw [ends_true, KisBroker.readBalance, onlyRaises_raises_bind admits_isBroker, BalanceFields,
    ← iterate_rows]
  simp only [Python.Json.get_dict, Except.ok.injEq, exists_eq_left']
  rw [onlyRaises_raises_bind admits_isBroker, ← exists_and_right]
  refine exists_congr fun rows => ?_
  rw [and_assoc]
  refine and_congr_right fun _ => onlyRaises_rows fun holdings => ?_
  simp only [onlyRaises_raises_bind admits_isBroker, Except.ok.injEq, exists_eq_left',
    ← exists_summary]
  simp [pure, Except.pure]

end Bodies

section Broker

variable [Unicode]

def QuoteSafe (broker : KisBroker) (s : Surroundings) (ticker : String) : Prop :=
  Sent broker.client s trInquirePrice [] (s.quote (KisBroker.quoteParams ticker)) QuoteFields

/-- A request that is refused at once is safe. -/
def OrderSafe (broker : KisBroker) (s : Surroundings) (request : OrderRequest) : Prop :=
  ∀ terms, KisBroker.orderTerms request = .ok terms →
    HashSafe broker.client (s.hashkey (broker.orderFields request terms.1 terms.2)) ∧
      ∀ hash, GivesHash (s.hashkey (broker.orderFields request terms.1 terms.2)) hash →
        Sent broker.client s (broker.orderTrId request.side) [hash]
          (s.order (broker.orderFields request terms.1 terms.2)) OrderFields

def BalanceSafe (broker : KisBroker) (s : Surroundings) : Prop :=
  Sent broker.client s (resolveTrId broker.trIds.balance broker.client.env) []
    (s.balance broker.balanceParams) BalanceFields

theorem Sent.congr {client : KisClient} {s : Surroundings} {trId : String} {extra : List Json}
    {answer : Answer} {P Q : List (String × Json) → Prop} (same : ∀ fields, P fields ↔ Q fields) :
    Sent client s trId extra answer P ↔ Sent client s trId extra answer Q := by
  rw [funext fun fields => propext (same fields)]

omit [Unicode] in
theorem orderTerms_raises {request : OrderRequest} :
    OnlyRaises Failure.IsBroker (KisBroker.orderTerms request) := by
  rw [KisBroker.orderTerms, onlyRaises_bind]
  refine ⟨by simp [Failure.IsBroker], fun _ _ => ?_⟩
  split
  · exact onlyRaises_ok _
  · split
    · simp [onlyRaises_bind, Failure.IsBroker, pure, Except.pure]
    · simp [Failure.IsBroker]

/-- Exactly which inputs let another exception than a BrokerError out of a call, or make a
quote that is no finite positive price. -/
theorem kis_raises_broker_errors_iff (broker : KisBroker) (s : Surroundings) :
    (∀ ticker, (OnlyRaises Failure.IsBroker (broker.getQuote s ticker) ∧
        ∀ quote, broker.getQuote s ticker = .ok quote → quote.price.FinitePositive) ↔
      QuoteSafe broker s ticker) ∧
    (∀ request, OnlyRaises Failure.IsBroker (broker.placeOrder s request) ↔
      OrderSafe broker s request) ∧
    (OnlyRaises Failure.IsBroker (broker.getBalance s) ↔ BalanceSafe broker s) := by
  refine ⟨fun ticker => ?_, fun request => ?_, ?_⟩
  · exact ends_get.trans (Sent.congr fun fields => ends_readQuote)
  · rw [← ends_true, KisBroker.placeOrder, ends_bind, Ends, OrderSafe,
      and_iff_right orderTerms_raises]
    refine forall_congr' fun terms => imp_congr_right fun _ => ?_
    refine ends_post.trans (and_congr_right fun _ => forall_congr' fun hash =>
      imp_congr_right fun _ => Sent.congr fun fields => ends_readOrder)
  · rw [← ends_true]
    exact ends_get.trans (Sent.congr fun fields => ends_readBalance)

end Broker

/-- An exception that no caller of a broker expects. -/
def escaped {α : Type} : Except Failure α → Option Python.Exception
  | .error (.python e) => some e
  | _ => none

def ok (fields : List (String × Json)) : Answer := .response 200 "" (some (.dict fields))

/-- A day on which everything is answered, and three answers that KIS could give instead. -/
def answering (token quote order balance : Answer) : Surroundings where
  clock := ⟨1704155400000000, 1704155400000000, 1704155400000000, 1704155400000000⟩
  file := .missing
  store := .written
  token := token
  hashkey _ := ok [("HASH", .str "h")]
  quote _ := quote
  order _ := order
  balance _ := balance

def granted : Answer := ok [("access_token", .str "t"), ("expires_in", .int 86400)]

def tradingBroker : KisBroker :=
  { client := { env := .paper, appKey := "k", appSecret := "s", hasCache := true },
    cano := "1", acntPrdtCd := "01" }

def priced (price : String) : Answer := ok [("output", .dict [("stck_prpr", .str price)])]

/-- A body of the token endpoint that is no JSON, a price that is no number, an infinite price,
an accepted order with a list in it, and an infinite quantity. -/
theorem kis_raises_others :
    escaped (@KisBroker.getQuote Unicode.asciiOnly tradingBroker
        (answering (.response 200 "" none) (ok []) (ok []) (ok [])) "005930") =
      some .valueError ∧
    escaped (@KisBroker.getQuote Unicode.asciiOnly tradingBroker
        (answering granted (priced "NaN") (ok []) (ok [])) "005930") =
      some .invalidOperation ∧
    (@KisBroker.getQuote Unicode.asciiOnly tradingBroker
        (answering granted (priced "Infinity") (ok []) (ok [])) "005930").toOption.map
      Quote.price = some (.infinite false) ∧
    escaped (@KisBroker.placeOrder Unicode.asciiOnly tradingBroker
        (answering granted (ok []) (ok [("rt_cd", .str "0"), ("output", .list [.null])]) (ok []))
        { ticker := "005930", side := .buy, quantity := 1, orderType := .market }) =
      some .attributeError ∧
    escaped (@KisBroker.getBalance Unicode.asciiOnly tradingBroker
        (answering granted (ok []) (ok [])
          (ok [("output1", .list [.dict [("hldg_qty", .str "Infinity")]])]))) =
      some .overflowError := by
  decide +kernel

end FundPolymarket.Kis
