import FundPolymarket.KisBroker
import FundPolymarket.Logged

set_option autoImplicit false

/- `brokers/kis/` once more, with the requests that leave the program. What the calls return is
what the adapter returns. -/
namespace FundPolymarket.Kis

open Python (Json Unicode)

def baseUrlLive : String := "https://openapi.koreainvestment.com:9443"

def baseUrlPaper : String := "https://openapivts.koreainvestment.com:29443"

def pathToken : String := "/oauth2/tokenP"

def pathHashkey : String := "/uapi/hashkey"

inductive Method where
  | get
  | post
  deriving DecidableEq

/-- A request with its headers, and the fields of its query or of its JSON body. -/
structure HttpRequest where
  baseUrl : String
  method : Method
  path : String
  headers : List (String × Json)
  fields : List (String × String)

/-- What a call changes is the token in the memory of the client, and the cache file. -/
abbrev Wire (α : Type) : Type := Logged (KisClient × CacheFile) HttpRequest Failure α

def KisClient.baseUrl (client : KisClient) : String :=
  if client.env = .live then baseUrlLive else baseUrlPaper

def headerNames : List String :=
  ["content-type", "authorization", "appkey", "appsecret", "tr_id", "custtype", "hashkey"]

section Client

variable [Unicode] (s : Surroundings)

namespace Wire

/-- The property `access_token`. -/
def accessToken : Wire Json := do
  let (client, file) ← Logged.get
  let fresh ← Logged.lift (raises (client.tokenIsFresh s.clock.now))
  if fresh then pure client.token
  else do
    let loaded ← Logged.lift (raises (client.loadCachedToken s.clock file))
    Logged.set (loaded, file)
    let usable ← Logged.lift (raises (loaded.tokenIsFresh s.clock.now))
    if usable then pure loaded.token
    else do
      let payload := [("grant_type", "client_credentials"), ("appkey", client.appKey),
        ("appsecret", client.appSecret)]
      let (token, expiresAt) ← Logged.send ⟨client.baseUrl, .post, pathToken, [], payload⟩
        (KisClient.issueToken s.clock s.token)
      Logged.set ({ loaded with token := token, tokenExpiresAt := some expiresAt },
        loaded.storeCachedToken token expiresAt file s.store)
      pure token

def onHashkeyError : Except Failure Json → Except Failure Json
  | .error (.http exc) => .error (.broker ("KIS hashkey 발급 실패: " ++ exc))
  | .error (.python .keyError) => .error (.broker "KIS hashkey 발급 실패: 'HASH'")
  | result => result

def hashkey (body : List (String × String)) : Wire Json :=
  Logged.catching onHashkeyError do
    let (client, _) ← Logged.get
    let values := [KisClient.contentType, .str client.appKey, .str client.appSecret]
    Logged.lift (encodeHeaders values)
    let answer ← Logged.send
      ⟨client.baseUrl, .post, pathHashkey, ["content-type", "appkey", "appsecret"].zip values, body⟩
      (s.hashkey body).json
    Logged.lift (raises (answer.getItem "HASH"))

def get (path trId : String) (params : List (String × String)) (answer : Answer) : Wire Json := do
  let body ← Logged.catching (onHttpError (fun exc => "KIS GET " ++ path ++ " 실패: " ++ exc)) do
    let token ← accessToken s
    let (client, _) ← Logged.get
    let values := client.headers trId token []
    Logged.lift (encodeHeaders values)
    Logged.send ⟨client.baseUrl, .get, path, headerNames.zip values, params⟩ answer.json
  Logged.lift (KisClient.raiseForRtCd path body)
  pure body

def post (path trId : String) (fields : List (String × String)) (answer : Answer) : Wire Json := do
  let hash ← hashkey s fields
  let token ← accessToken s
  let payload ← Logged.catching (onHttpError (fun exc => "KIS POST " ++ path ++ " 실패: " ++ exc)) do
    let (client, _) ← Logged.get
    let values := client.headers trId token [hash]
    Logged.lift (encodeHeaders values)
    Logged.send ⟨client.baseUrl, .post, path, headerNames.zip values, fields⟩ answer.json
  Logged.lift (KisClient.raiseForRtCd path payload)
  pure payload

end Wire

end Client

section Adapter

variable [Unicode] (broker : KisBroker) (s : Surroundings)

namespace Wire

def getQuote (ticker : String) : Wire Quote := do
  let params := KisBroker.quoteParams ticker
  let body ← get s pathInquirePrice trInquirePrice params (s.quote params)
  Logged.lift (KisBroker.readQuote ticker body)

def placeOrder (request : OrderRequest) : Wire OrderResult := do
  let terms ← Logged.lift (KisBroker.orderTerms request)
  let fields := broker.orderFields request terms.1 terms.2
  let response ← post s pathOrderCash (broker.orderTrId request.side) fields (s.order fields)
  Logged.lift (KisBroker.readOrder fields response)

def getBalance : Wire BalanceSnapshot := do
  let body ← get s pathInquireBalance (resolveTrId broker.trIds.balance broker.client.env)
    broker.balanceParams (s.balance broker.balanceParams)
  Logged.lift (KisBroker.readBalance body)

end Wire

end Adapter

section Results

variable {client : KisClient} {file : CacheFile} {s : Surroundings}

theorem loadCachedToken_same {clock : Clock} {loaded : KisClient}
    (load : client.loadCachedToken clock file = .ok loaded) :
    ∃ token expiresAt, loaded = { client with token := token, tokenExpiresAt := expiresAt } := by
  unfold KisClient.loadCachedToken at load
  split at load
  · split at load
    · cases load
      exact ⟨_, _, rfl⟩
    · cases load
      exact ⟨_, _, rfl⟩
    · cases load
    · split at load
      · split at load
        · split at load
          · cases load
            exact ⟨_, _, rfl⟩
          · cases load
            exact ⟨_, _, rfl⟩
        · cases load
          exact ⟨_, _, rfl⟩
      · cases load
        exact ⟨_, _, rfl⟩
  · cases load
    exact ⟨_, _, rfl⟩

theorem hashkey_result (client : KisClient) (file : CacheFile) (body : List (String × String)) :
    (Wire.hashkey s body (client, file)).state = (client, file) ∧
      (Wire.hashkey s body (client, file)).result = client.hashkey s body := by
  unfold Wire.hashkey KisClient.hashkey
  simp only [Logged.catching, Logged.get_bind, Logged.lift_bind]
  cases encodeHeaders [KisClient.contentType, .str client.appKey, .str client.appSecret] with
  | error e => exact ⟨rfl, rfl⟩
  | ok done =>
      cases (s.hashkey body).json with
      | error e => exact ⟨rfl, rfl⟩
      | ok answer => exact ⟨rfl, rfl⟩

variable [Unicode]

/-- An access to the token leaves what the model of the client says. -/
theorem accessToken_read (client : KisClient) (file : CacheFile) :
    let read := client.accessToken s.clock file s.token s.store
    (Wire.accessToken s (client, file)).state = (read.client, read.file) ∧
      (Wire.accessToken s (client, file)).result = read.result := by
  unfold Wire.accessToken KisClient.accessToken
  simp only [Logged.get_bind, Logged.lift_bind]
  cases client.tokenIsFresh s.clock.now with
  | error e => exact ⟨rfl, rfl⟩
  | ok fresh =>
      cases fresh with
      | true => exact ⟨rfl, rfl⟩
      | false =>
          cases client.loadCachedToken s.clock file with
          | error e => exact ⟨rfl, rfl⟩
          | ok loaded =>
              simp only [raises, Except.mapError, Bool.false_eq_true, if_false, Logged.lift_bind,
                Logged.set_bind]
              cases loaded.tokenIsFresh s.clock.now with
              | error e => exact ⟨rfl, rfl⟩
              | ok usable =>
                  cases usable with
                  | true => exact ⟨rfl, rfl⟩
                  | false =>
                      cases KisClient.issueToken s.clock s.token with
                      | error e => exact ⟨rfl, rfl⟩
                      | ok given => exact ⟨rfl, rfl⟩

/-- Neither the keys of the client nor its environment change. -/
theorem accessToken_same (client : KisClient) (file : CacheFile) :
    ∃ token expiresAt, (Wire.accessToken s (client, file)).state.1 =
      { client with token := token, tokenExpiresAt := expiresAt } := by
  rw [(accessToken_read client file).1]
  unfold KisClient.accessToken
  split
  · exact ⟨_, _, rfl⟩
  · exact ⟨_, _, rfl⟩
  · split
    · exact ⟨_, _, rfl⟩
    · rename_i loaded load
      obtain ⟨token, expiresAt, same⟩ := loadCachedToken_same load
      split
      · exact ⟨token, expiresAt, same⟩
      · exact ⟨token, expiresAt, same⟩
      · split
        · exact ⟨token, expiresAt, same⟩
        · exact ⟨_, _, by rw [same]⟩

theorem headers_same {token : Json} {expiresAt : Option Time} (trId : String) (current : Json)
    (extra : List Json) :
    KisClient.headers { client with token := token, tokenExpiresAt := expiresAt } trId current
      extra = client.headers trId current extra := rfl

theorem get_result {path trId : String} {params : List (String × String)} {answer : Answer}
    (found : s.file = file) :
    (Wire.get s path trId params answer (client, file)).result =
      client.get s path trId answer := by
  subst found
  obtain ⟨token, expiresAt, same⟩ := @accessToken_same s _ client s.file
  unfold Wire.get KisClient.get
  simp only [Logged.result_bind, Logged.result_catching, Logged.result_lift, Logged.result_pure,
    Logged.result_send, Logged.get_bind, same, headers_same, (accessToken_read client s.file).2]
  rfl

theorem post_result {path trId : String} {fields : List (String × String)} {answer : Answer}
    (found : s.file = file) :
    (Wire.post s path trId fields answer (client, file)).result =
      client.post s path trId fields answer := by
  subst found
  obtain ⟨token, expiresAt, same⟩ := @accessToken_same s _ client s.file
  unfold Wire.post KisClient.post
  simp only [Logged.result_bind, Logged.result_catching, Logged.result_lift, Logged.result_pure,
    Logged.result_send, Logged.get_bind, (hashkey_result client s.file fields).1,
    (hashkey_result client s.file fields).2, same, headers_same,
    (accessToken_read client s.file).2]
  rfl

/-- What the calls return is what the adapter returns. -/
theorem placeOrder_result {broker : KisBroker} {request : OrderRequest} (found : s.file = file) :
    (Wire.placeOrder broker s request (broker.client, file)).result =
      broker.placeOrder s request := by
  unfold Wire.placeOrder KisBroker.placeOrder
  simp only [Logged.lift_bind]
  cases KisBroker.orderTerms request with
  | error e => rfl
  | ok terms =>
      simp only [Logged.result_bind, Logged.result_lift, post_result found]
      rfl

theorem getQuote_result {broker : KisBroker} {ticker : String} (found : s.file = file) :
    (Wire.getQuote s ticker (broker.client, file)).result = broker.getQuote s ticker := by
  simp only [Wire.getQuote, Logged.result_bind, Logged.result_lift, get_result found]
  rfl

theorem getBalance_result {broker : KisBroker} (found : s.file = file) :
    (Wire.getBalance broker s (broker.client, file)).result = broker.getBalance s := by
  simp only [Wire.getBalance, Logged.result_bind, Logged.result_lift, get_result found]
  rfl

end Results

end FundPolymarket.Kis
