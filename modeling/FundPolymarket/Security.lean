import FundPolymarket.PythonTime
import FundPolymarket.Views

set_option autoImplicit false

/- `core/security.py`, `api/deps.py` and `api/v1/auth.py`: passwords, access tokens, and the
member that a call to the API acts for. -/
namespace FundPolymarket

open Python (Json Unicode)

instance : ToString Role where
  toString
    | .member => "member"
    | .admin => "admin"

abbrev Payload : Type := List (String × Json)

/-- `settings.access_token_expire_minutes`, and what the program uses of `passlib` and `jwt`,
the latter with its key and algorithm: `decode` has no result where it raises a PyJWTError.
The program never looks into a token. -/
structure Security (Token : Type) where
  accessTokenExpireMinutes : ℤ := 60 * 12
  hash : String → String → String
  verify : String → String → Bool
  encode : Payload → Token
  decode : Time → Token → Option Payload

/-- `payload.update(extra)`. -/
def Payload.update (payload extra : Payload) : Payload :=
  extra.foldl (fun entries entry =>
    if entries.any fun old => old.1 = entry.1 then
      entries.map fun old => if old.1 = entry.1 then entry else old
    else entries ++ [entry]) payload

/-- `int(t.timestamp())`. -/
def timestamp (t : Time) : ℤ := t.tdiv Python.microsPerSecond

def credentialsError : AppError := .other "인증 정보가 유효하지 않습니다."

/-- An exception that nothing on the way catches. -/
def uncaught : Python.Exception → AppError
  | .valueError => .valueError "Exceeds the limit (4300 digits) for integer string conversion"
  | .overflowError => .other "OverflowError"
  | _ => .other "TypeError"

namespace Security

variable {Token : Type} (security : Security Token) [Unicode]

def createAccessToken (subject : String) (extra : Payload) (now : Time) :
    Except AppError Token := do
  let expires ← (Python.plus now
    (security.accessTokenExpireMinutes * 60 * Python.microsPerSecond)).mapError uncaught
  let payload : Payload :=
    [("sub", .str subject), ("iat", .int (timestamp now)), ("exp", .int (timestamp expires))]
  pure (security.encode (payload.update extra))

/-- What `get_current_member` reads of the token. -/
def memberIdOf (token : Option Token) (now : Time) : Except AppError ℕ := do
  let token ← orRaise (.other "Not authenticated") token
  let payload ← orRaise credentialsError (security.decode now token)
  let subject ← orRaise credentialsError (Json.lookup payload "sub")
  let memberId ← subject.toInt.mapError fun e =>
    if e = .valueError then credentialsError else uncaught e
  orRaise credentialsError memberId.toNat?

def getCurrentMember (db : Db) (token : Option Token) (now : Time) :
    Except AppError (ℕ × Member) := do
  let memberId ← security.memberIdOf token now
  let member ← FundPolymarket.getCurrentMember db memberId
  pure (memberId, member)

def getCurrentAdmin (db : Db) (token : Option Token) (now : Time) :
    Except AppError (ℕ × Member) := do
  let current ← security.getCurrentMember db token now
  raiseIf (current.2.role ≠ .admin) (.other "관리자 권한이 필요합니다.")
  pure current

end Security

/-- A write request before the authentication: what its path and its body say, as the schemas
have taken them. -/
inductive Route where
  | createMember (payload : MemberCreate) (password : String)
  | createFund (name accountNo broker : String)
  | createMarket (payload : MarketCreate)
  | putAllocation (marketId : ℕ) (allocation : Allocation) (rationale : Option String)
  | closeMarket (marketId : ℕ)
  | createDecision (marketId : ℕ)
  | approveDecision (decisionId : ℕ)
  | rejectDecision (decisionId : ℕ) (reason : String)
  | resolveMarket (marketId : ℕ)
  | settleMarket (marketId : ℕ)
  | cancelMarket (marketId : ℕ) (reason : String)
  | syncFund (fundId : ℕ)

namespace Route

/-- The request that the route makes for the member. -/
def request [Unicode] (memberId : ℕ) : Route → Request
  | .createMember payload _ => .createMember { payload with email := Python.lower payload.email }
  | .createFund name accountNo broker => .createFund name accountNo broker
  | .createMarket payload => .createMarket payload memberId
  | .putAllocation marketId allocation rationale =>
      .putAllocation marketId memberId allocation rationale
  | .closeMarket marketId => .closeMarket marketId
  | .createDecision marketId => .createDecision marketId
  | .approveDecision decisionId => .approveDecision decisionId memberId
  | .rejectDecision decisionId reason => .rejectDecision decisionId memberId reason
  | .resolveMarket marketId => .resolveMarket marketId
  | .settleMarket marketId => .settleMarket marketId
  | .cancelMarket marketId reason => .cancelMarket marketId reason
  | .syncFund fundId => .syncFund fundId

/-- The routes that depend on `CurrentAdmin`; the other one depends on `CurrentMember`. -/
def adminOnly : Route → Bool
  | .putAllocation _ _ _ => false
  | _ => true

end Route

/-- The database with the column `hashed_password`, by the key of the member. -/
structure Site where
  db : Db
  hashed : List (ℕ × String)

def Site.hashedPassword (site : Site) (memberId : ℕ) : Option String :=
  (site.hashed.find? fun row => row.1 = memberId).map Prod.snd

/-- What reaches the program, other than its start: `salt` is drawn by `hash`. -/
inductive ApiCall (Token : Type) where
  | login (username password : String)
  | read (token : Option Token) (request : ReadRequest)
  | write (token : Option Token) (route : Route) (salt : String)
  | tick (broker : TickCall → Broker) (closing resolving : RowOrder)

inductive Answer (Token : Type) where
  | token (accessToken : Token)
  | response (body : Response)
  | done

structure Reply (Token : Type) where
  site : Site
  sent : List OrderRequest
  result : Except AppError (Answer Token)

section Serve

variable {Token : Type} (security : Security Token) [Unicode] (env : Env) (site : Site)

/-- `db.scalar(select(Member).where(Member.email == username.lower()))`. -/
def Site.memberNamed (username : String) : Option (ℕ × Member) :=
  site.db.members.rows.find? fun row => row.2.email = Python.lower username

def Site.login (username password : String) : Except AppError Token := do
  let refused : AppError := .other "이메일 또는 비밀번호가 올바르지 않습니다."
  let (memberId, member) ← orRaise refused (site.memberNamed username)
  let hashed ← orRaise refused (site.hashedPassword memberId)
  raiseIf (security.verify password hashed = false) refused
  raiseIf (member.isActive = false) (.other "비활성 계정입니다.")
  let subject ← orRaise (uncaught .valueError) (Python.textOfInt memberId)
  security.createAccessToken subject [("role", .str (toString member.role))] env.now

/-- The dependency of the route on the one who calls. -/
def Route.authorize (route : Route) (token : Option Token) : Except AppError (ℕ × Member) :=
  if route.adminOnly then security.getCurrentAdmin site.db token env.now
  else security.getCurrentMember site.db token env.now

/-- The new row of a registration. -/
def Route.hashes (salt : String) : Route → List (ℕ × String)
  | .createMember _ password => [(site.db.members.nextId, security.hash salt password)]
  | _ => []

def Site.write (memberId : ℕ) (route : Route) (salt : String) : Reply Token :=
  let served := FundPolymarket.serve env (route.request memberId) site.db
  match served.result with
  | .error exc => ⟨{ site with db := served.db }, served.sent, .error exc⟩
  | .ok _ =>
      ⟨⟨served.db, site.hashed ++ route.hashes security site salt⟩, served.sent, .ok .done⟩

def Site.serve : ApiCall Token → Reply Token
  | .login username password => ⟨site, [], .token <$> site.login security env username password⟩
  | .read token request =>
      ⟨site, [], do
        let memberId ← security.memberIdOf token env.now
        .response <$> respond site.db memberId request⟩
  | .write token route salt =>
      match route.authorize security env site token with
      | .error exc => ⟨site, [], .error exc⟩
      | .ok current => site.write security env current.1 route salt
  | .tick broker closing resolving =>
      let db := FundPolymarket.tick env.settings env.now broker closing resolving site.db
      ⟨{ site with db }, [], .ok .done⟩

end Serve

end FundPolymarket
