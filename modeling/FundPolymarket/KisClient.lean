import FundPolymarket.Enums
import FundPolymarket.PythonTime

set_option autoImplicit false

/- `brokers/kis/client.py`. A call meets a clock, a token cache file and what the endpoints
answer; all of these are inputs. -/
namespace FundPolymarket.Kis

open Python (Json Unicode)

/-- What a call can raise: a BrokerError, an `httpx.HTTPError`, or an exception of Python. -/
inductive Failure where
  | broker (message : String)
  | http (message : String)
  | python (raised : Python.Exception)
  deriving DecidableEq, Repr

def raises {α : Type} (x : Except Python.Exception α) : Except Failure α := x.mapError .python

/-- `except httpx.HTTPError as exc: raise BrokerError(...)`. -/
def onHttpError {α : Type} (message : String → String) : Except Failure α → Except Failure α
  | .error (.http exc) => .error (.broker (message exc))
  | result => result

/-- What comes of a request: no response, or one with a body that may be no JSON. The reason
is the text of the error that `raise_for_status` makes of it. -/
inductive Answer where
  | httpError (message : String)
  | response (status : ℕ) (reason : String) (body : Option Json)

def Succeeds (status : ℕ) : Prop := 200 ≤ status ∧ status ≤ 299

instance (status : ℕ) : Decidable (Succeeds status) := inferInstanceAs (Decidable (_ ∧ _))

/-- `res.raise_for_status()` and `res.json()`. -/
def Answer.json : Answer → Except Failure Json
  | .httpError message => .error (.http message)
  | .response status reason body =>
      if Succeeds status then orRaise (.python .valueError) body else .error (.http reason)

/-- httpx encodes the headers of a request in ASCII, and takes texts only. -/
def headerValue : Json → Except Failure Unit
  | .str text => raiseIf (Python.isAscii text = false) (.python .valueError)
  | _ => .error (.python .typeError)

def encodeHeaders (values : List Json) : Except Failure Unit := forM values headerValue

def tokenSkew : ℤ := 600000000

def kstOffset : ℤ := 32400000000

/-- What `datetime.now(UTC)` gives at the places where one access to the token reads it. -/
structure Clock where
  now : Time
  loaded : Time
  issued : Time
  fallback : Time

section Expiry

variable [Unicode]

/-- The first attempt; `none` where the field is null, and after the warning about a TypeError
or a ValueError. -/
def expiryFromSeconds (now : Time) (expiresIn : Json) : Except Python.Exception (Option Time) :=
  if expiresIn.isNone then .ok none
  else
    match expiresIn.toInt with
    | .ok seconds => some <$> Python.plus now (seconds * Python.microsPerSecond)
    | .error .typeError | .error .valueError => .ok none
    | .error e => .error e

def expiryFromText (raw : Json) : Except Python.Exception (Option Time) :=
  if raw.truthy then
    match Python.strptime raw.text with
    | some kst => some <$> Python.plus kst (-kstOffset)
    | none => .ok none
  else .ok none

def parseTokenExpiry (clock : Clock) (body : Json) : Except Python.Exception Time := do
  let expiresIn ← body.get "expires_in"
  match ← expiryFromSeconds clock.issued expiresIn with
  | some expiresAt => pure expiresAt
  | none => do
      let raw ← body.get "access_token_token_expired"
      match ← expiryFromText raw with
      | some expiresAt => pure expiresAt
      | none => Python.plus clock.fallback microsPerDay

end Expiry

inductive KisEnv where
  | paper
  | live
  deriving DecidableEq, Repr

def KisEnv.text : KisEnv → String
  | .paper => "paper"
  | .live => "live"

/-- The environments that `__init__` knows. -/
def KisEnv.ofText : String → Except Failure KisEnv
  | "paper" => .ok .paper
  | "live" => .ok .live
  | _ => .error (.python .valueError)

/-- A client; `hasCache` says whether it has a cache path. A token that is not there is null. -/
structure KisClient where
  env : KisEnv
  appKey : String
  appSecret : String
  hasCache : Bool
  token : Json := .null
  tokenExpiresAt : Option Time := none

/-- The cache file as the loader finds it: not there, not to be looked up, not readable as a
JSON object with the keys of an entry, or an entry. -/
inductive CacheFile where
  | missing
  | denied
  | broken
  | entry (env accessToken : Json) (expiresAt : Time)

/-- What becomes of the file when an entry is written: an OSError may leave it as it was, or
cut off. -/
inductive StoreOutcome where
  | written
  | kept
  | lost
  deriving DecidableEq

/-- What one call meets. The endpoints answer to the fields of their requests. -/
structure Surroundings where
  clock : Clock
  file : CacheFile
  store : StoreOutcome
  token : Answer
  hashkey : List (String × String) → Answer
  quote : List (String × String) → Answer
  order : List (String × String) → Answer
  balance : List (String × String) → Answer

namespace KisClient

/-- `__init__`. -/
def init (appKey appSecret env : String) (hasCache : Bool) : Except Failure KisClient := do
  let env ← KisEnv.ofText env
  raiseIf (appKey = "" ∨ appSecret = "")
    (.broker "KIS_APP_KEY / KIS_APP_SECRET 이 설정되지 않았습니다.")
  pure { env, appKey, appSecret, hasCache }

/-- Whatever goes wrong with the content of the file is caught; the look-up of the file is
not inside the `try`. -/
def loadCachedToken (client : KisClient) (clock : Clock) (file : CacheFile) :
    Except Python.Exception KisClient :=
  if client.hasCache then
    match file with
    | .missing | .broken => .ok client
    | .denied => .error .osError
    | .entry env accessToken expiresAt =>
        if env.isText client.env.text then
          match Python.plus expiresAt (-tokenSkew) with
          | .ok stale =>
              if clock.loaded < stale then
                .ok { client with token := accessToken, tokenExpiresAt := some expiresAt }
              else .ok client
          | .error _ => .ok client
        else .ok client
  else .ok client

def storeCachedToken (client : KisClient) (token : Json) (expiresAt : Time) (file : CacheFile)
    (store : StoreOutcome) : CacheFile :=
  if client.hasCache then
    match store with
    | .written => .entry (.str client.env.text) token expiresAt
    | .kept => file
    | .lost => .broken
  else file

def tokenIsFresh (client : KisClient) (now : Time) : Except Python.Exception Bool :=
  if client.token.truthy then
    match client.tokenExpiresAt with
    | some expiresAt => (fun stale => decide (now < stale)) <$> Python.plus expiresAt (-tokenSkew)
    | none => .ok false
  else .ok false

/-- The request for a new token. -/
def issueToken [Unicode] (clock : Clock) (answer : Answer) : Except Failure (Json × Time) := do
  let body ← onHttpError (fun exc => "KIS 접근토큰 발급 실패: " ++ exc) answer.json
  let token ← raises (body.get "access_token")
  raiseIf (token.truthy = false) (.broker ("KIS 접근토큰 응답이 비정상입니다: " ++ body.text))
  let expiresAt ← raises (parseTokenExpiry clock body)
  pure (token, expiresAt)

/-- What an access to the token gives, the client and the file that it leaves, and what the
endpoint has granted on the way. -/
structure TokenRead where
  result : Except Failure Json
  client : KisClient
  file : CacheFile
  granted : Option Json

/-- The property `access_token`. -/
def accessToken [Unicode] (client : KisClient) (clock : Clock) (file : CacheFile)
    (answer : Answer) (store : StoreOutcome) : TokenRead :=
  match client.tokenIsFresh clock.now with
  | .error e => ⟨.error (.python e), client, file, none⟩
  | .ok true => ⟨.ok client.token, client, file, none⟩
  | .ok false =>
      match client.loadCachedToken clock file with
      | .error e => ⟨.error (.python e), client, file, none⟩
      | .ok loaded =>
          match loaded.tokenIsFresh clock.now with
          | .error e => ⟨.error (.python e), loaded, file, none⟩
          | .ok true => ⟨.ok loaded.token, loaded, file, none⟩
          | .ok false =>
              match issueToken clock answer with
              | .error e => ⟨.error e, loaded, file, none⟩
              | .ok (token, expiresAt) =>
                  ⟨.ok token, { loaded with token := token, tokenExpiresAt := some expiresAt },
                    loaded.storeCachedToken token expiresAt file store, some token⟩

/-- The token that a call puts into its headers. -/
def tokenFor [Unicode] (client : KisClient) (s : Surroundings) : Except Failure Json :=
  (client.accessToken s.clock s.file s.token s.store).result

def contentType : Json := .str "application/json; charset=utf-8"

def hashkey (client : KisClient) (s : Surroundings) (body : List (String × String)) :
    Except Failure Json :=
  let requested := do
    encodeHeaders [contentType, .str client.appKey, .str client.appSecret]
    let answer ← (s.hashkey body).json
    raises (answer.getItem "HASH")
  match requested with
  | .error (.http exc) => .error (.broker ("KIS hashkey 발급 실패: " ++ exc))
  | .error (.python .keyError) => .error (.broker "KIS hashkey 발급 실패: 'HASH'")
  | result => result

def headers [Unicode] (client : KisClient) (trId : String) (token : Json) (extra : List Json) :
    List Json :=
  [contentType, .str ("Bearer " ++ token.text), .str client.appKey, .str client.appSecret,
    .str trId, .str "P"] ++ extra

/-- KIS reports failures in `rt_cd` even with status 200. -/
def raiseForRtCd [Unicode] (path : String) (body : Json) : Except Failure Unit := do
  let rtCd ← raises (body.get "rt_cd")
  if rtCd.isNone || rtCd.isText "0" then pure ()
  else do
    let msg1 ← raises (body.get "msg1")
    let msg ← raises (body.get "msg")
    let code ← raises (body.get "msg_cd" (.str ""))
    .error (.broker ("KIS " ++ path ++ " 거절 (rt_cd=" ++ rtCd.text ++ ", msg_cd=" ++ code.text ++
      "): " ++ ((msg1.or msg).or (.str "unknown")).text))

def get [Unicode] (client : KisClient) (s : Surroundings) (path trId : String)
    (answer : Answer) : Except Failure Json := do
  let body ← onHttpError (fun exc => "KIS GET " ++ path ++ " 실패: " ++ exc) do
    let token ← client.tokenFor s
    encodeHeaders (client.headers trId token [])
    answer.json
  raiseForRtCd path body
  pure body

/-- The hash and the token are fetched before the `try`; the headers are encoded in it. -/
def post [Unicode] (client : KisClient) (s : Surroundings) (path trId : String)
    (fields : List (String × String)) (answer : Answer) : Except Failure Json := do
  let hash ← client.hashkey s fields
  let token ← client.tokenFor s
  let payload ← onHttpError (fun exc => "KIS POST " ++ path ++ " 실패: " ++ exc) do
    encodeHeaders (client.headers trId token [hash])
    answer.json
  raiseForRtCd path payload
  pure payload

end KisClient

end FundPolymarket.Kis
