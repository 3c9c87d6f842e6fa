import FundPolymarket.ForeignKeys
import FundPolymarket.Security

set_option autoImplicit false

/- Who a call acts for. Over runs in which nobody presents a token that no login has
returned, a call is served exactly for a member who has logged in with the password and
whose token has not expired. -/
namespace FundPolymarket

open Python (Json Unicode)

/-- What a login puts into the token. -/
def issuedPayload (subject : String) (role : Role) (issued expires : ℤ) : Payload :=
  [("sub", .str subject), ("iat", .int issued), ("exp", .int expires),
    ("role", .str (toString role))]

/-- What `passlib` and `jwt` document: a hash verifies its password, and the token of a login
reads as its payload from the second it was issued in until it expires. -/
structure Security.Documented {Token : Type} (security : Security Token) : Prop where
  verify_hash : ∀ salt raw, security.verify raw (security.hash salt raw) = true
  decode_encode : ∀ (subject : String) (role : Role) (issued expires : ℤ) (now : Time),
    security.decode now (security.encode (issuedPayload subject role issued expires)) =
      if issued * Python.microsPerSecond ≤ now ∧ now < expires * Python.microsPerSecond then
        some (issuedPayload subject role issued expires)
      else none

namespace ApiCall

variable {Token : Type}

def token? : ApiCall Token → Option Token
  | .read token _ | .write token _ _ => token
  | .login _ _ | .tick _ _ _ => none

/-- A call that depends on the current member. -/
def guarded : ApiCall Token → Bool
  | .read _ _ | .write _ _ _ => true
  | .login _ _ | .tick _ _ _ => false

def adminOnly : ApiCall Token → Bool
  | .write _ route _ => route.adminOnly
  | .read _ _ | .login _ _ | .tick _ _ _ => false

end ApiCall

/-- A call, when it comes, and the state that it finds. -/
structure Exchange (Token : Type) where
  env : Env
  call : ApiCall Token
  pre : Site

section Exchanges

variable {Token : Type} (security : Security Token) [Unicode]

namespace Exchange

variable (x : Exchange Token)

def reply : Reply Token := x.pre.serve security x.env x.call

/-- The member that the call would act for. -/
def current : Except AppError (ℕ × Member) :=
  if x.call.adminOnly then security.getCurrentAdmin x.pre.db x.call.token? x.env.now
  else security.getCurrentMember x.pre.db x.call.token? x.env.now

/-- The reply to the call once the member is known. -/
def actingAs (memberId : ℕ) : Reply Token :=
  match x.call with
  | .read _ request => ⟨x.pre, [], .response <$> respond x.pre.db memberId request⟩
  | .write _ route salt => x.pre.write security x.env memberId route salt
  | .login _ _ | .tick _ _ _ => x.reply security

/-- When the token of a login that ends now expires. -/
def expires : Time :=
  x.env.now + security.accessTokenExpireMinutes * 60 * Python.microsPerSecond

/-- A login of the member that returns the token. -/
structure LogsIn (memberId : ℕ) (member : Member) (token : Token) : Prop where
  credentials : ∃ username password hashed, x.call = .login username password ∧
    member.email = Python.lower username ∧ x.pre.hashedPassword memberId = some hashed ∧
    security.verify password hashed = true
  found : x.pre.db.members.get? memberId = some member
  active : member.isActive = true
  answered : (x.reply security).result = .ok (.token token)

/-- The token of a login is alive. -/
def Lives (now : Time) : Prop :=
  timestamp x.env.now * Python.microsPerSecond ≤ now ∧
    now < timestamp (x.expires security) * Python.microsPerSecond

instance (now : Time) : Decidable (x.Lives security now) := inferInstanceAs (Decidable (_ ∧ _))

end Exchange

/-- A state that the program can reach from an earlier one: it makes a run of events, and keeps
the passwords. -/
structure Site.Reaches (early late : Site) : Prop where
  db : ∃ events, late.db = stateAfter early.db events
  hashed : ∃ rows, late.hashed = early.hashed ++ rows

def exchanges : Site → List (Env × ApiCall Token) → List (Exchange Token)
  | _, [] => []
  | site, (env, call) :: rest =>
      ⟨env, call, site⟩ :: exchanges (site.serve security env call).site rest

/-- Every token that is presented and that `jwt` accepts has been returned by a login before:
nobody else has the key. -/
def Unforged : List (Exchange Token) → List (Exchange Token) → Prop
  | _, [] => True
  | before, x :: after =>
      (∀ token, x.call.token? = some token → security.decode x.env.now token ≠ none →
        ∃ l ∈ before, (l.reply security).result = .ok (.token token)) ∧
      Unforged (before ++ [x]) after

/-- The call acts for a member who has logged in before. -/
structure ActsFor (before : List (Exchange Token)) (x : Exchange Token) (memberId : ℕ)
    (member : Member) : Prop where
  login : ∃ l ∈ before, ∃ token, x.call.token? = some token ∧
    l.LogsIn security memberId member token ∧ l.Lives security x.env.now
  role : x.call.adminOnly = true → member.role = .admin

end Exchanges

section Tokens

variable {Token : Type} {security : Security Token} {x : Exchange Token} {site : Site}
  {env : Env} {memberId : ℕ} {member : Member} {token : Token}

/-- An address is one member's. -/
theorem find?_email_eq_some {db : Db} {email : String} :
    db.members.rows.find? (fun row => row.2.email = email) = some (memberId, member) ↔
      db.members.get? memberId = some member ∧ member.email = email := by
  constructor
  · intro found
    exact ⟨(Table.mem_rows_iff _ _ _).mp (List.mem_of_find?_eq_some found), by
      simpa using List.find?_some found⟩
  · rintro ⟨found, named⟩
    have row := (Table.mem_rows_iff _ _ _).mpr found
    cases search : db.members.rows.find? fun row => row.2.email = email with
    | none =>
        have other := List.find?_eq_none.mp search (memberId, member) row
        simp [named] at other
    | some other =>
        have same : other.2.email = email := by simpa using List.find?_some search
        exact congrArg some (List.inj_on_of_nodup_map db.members.unique
          (List.mem_of_find?_eq_some search) row (same.trans named.symm))

theorem memberNamed_eq_some [Unicode] {username : String} :
    site.memberNamed username = some (memberId, member) ↔
      site.db.members.get? memberId = some member ∧ member.email = Python.lower username :=
  find?_email_eq_some

theorem createAccessToken_eq_ok {subject : String} {role : Role} {now : Time} :
    security.createAccessToken subject [("role", .str (toString role))] now = .ok token ↔
      ∃ later, Python.plus now
          (security.accessTokenExpireMinutes * 60 * Python.microsPerSecond) = .ok later ∧
        token = security.encode
          (issuedPayload subject role (timestamp now) (timestamp later)) := by
  rw [Security.createAccessToken, bind_eq_ok]
  refine exists_congr fun later => and_congr mapError_eq_ok ?_
  exact ⟨fun same => (Except.ok.inj same).symm, fun same => congrArg Except.ok same.symm⟩

theorem login_eq_ok [Unicode] {username password : String} :
    site.login security env username password = .ok token ↔
      ∃ memberId member hashed subject, site.memberNamed username = some (memberId, member) ∧
        site.hashedPassword memberId = some hashed ∧ security.verify password hashed = true ∧
        member.isActive = true ∧ Python.textOfInt memberId = some subject ∧
        security.createAccessToken subject [("role", .str (toString member.role))] env.now =
          .ok token := by
  constructor
  · intro success
    obtain ⟨⟨memberId, member⟩, named, rest⟩ := bind_eq_ok.mp success
    obtain ⟨hashed, kept, rest⟩ := bind_eq_ok.mp rest
    obtain ⟨verified, rest⟩ := raiseIf_bind_eq_ok.mp rest
    obtain ⟨active, rest⟩ := raiseIf_bind_eq_ok.mp rest
    obtain ⟨subject, written, issued⟩ := bind_eq_ok.mp rest
    exact ⟨memberId, member, hashed, subject, orRaise_eq_ok.mp named, orRaise_eq_ok.mp kept,
      Bool.eq_true_of_not_eq_false verified, Bool.eq_true_of_not_eq_false active,
      orRaise_eq_ok.mp written, issued⟩
  · rintro ⟨memberId, member, hashed, subject, named, kept, verified, active, written, issued⟩
    refine bind_eq_ok.mpr ⟨_, orRaise_eq_ok.mpr named, bind_eq_ok.mpr ⟨_, orRaise_eq_ok.mpr kept,
      raiseIf_bind_eq_ok.mpr ⟨?_, raiseIf_bind_eq_ok.mpr ⟨?_, bind_eq_ok.mpr
        ⟨_, orRaise_eq_ok.mpr written, issued⟩⟩⟩⟩⟩
    · simp [verified]
    · simp [active]

variable [Unicode]

/-- A login that returns a token is one of a member. -/
theorem Exchange.logsIn (answered : (x.reply security).result = .ok (.token token)) :
    ∃ memberId member, x.LogsIn security memberId member token := by
  have kept := answered
  unfold Exchange.reply Site.serve at answered
  split at answered
  · rename_i username password called
    obtain ⟨issued, success, same⟩ := map_eq_ok.mp answered
    cases same
    obtain ⟨memberId, member, hashed, subject, named, stored, verified, active, written, _⟩ :=
      login_eq_ok.mp success
    obtain ⟨found, email⟩ := memberNamed_eq_some.mp named
    exact ⟨memberId, member, ⟨username, password, hashed, called, email, stored, verified⟩, found,
      active, kept⟩
  · obtain ⟨_, _, rest⟩ := bind_eq_ok.mp answered
    obtain ⟨_, _, same⟩ := map_eq_ok.mp rest
    cases same
  · split at answered
    · cases answered
    · unfold Site.write at answered
      dsimp only at answered
      split at answered <;> cases answered
  · cases answered

theorem memberIdOf_of_decode {payload : Payload} {subject : String} {now : Time}
    (decoded : security.decode now token = some payload)
    (named : Json.lookup payload "sub" = some (.str subject))
    (number : Python.intOfText subject = some (memberId : ℤ)) :
    security.memberIdOf (some token) now = .ok memberId := by
  refine bind_eq_ok.mpr ⟨token, rfl, bind_eq_ok.mpr ⟨payload, orRaise_eq_ok.mpr decoded,
    bind_eq_ok.mpr ⟨.str subject, orRaise_eq_ok.mpr named, bind_eq_ok.mpr ⟨memberId, ?_, rfl⟩⟩⟩⟩
  exact mapError_eq_ok.mpr (orRaise_eq_ok.mpr number)

theorem memberIdOf_of_none {now : Time} (refused : security.decode now token = none) :
    security.memberIdOf (some token) now = .error credentialsError := by
  simp only [Security.memberIdOf, orRaise, bind, Except.bind, refused]

/-- The token of a login reads as its member while it lives. -/
theorem Exchange.LogsIn.memberIdOf (documented : security.Documented)
    (login : x.LogsIn security memberId member token) (now : Time) :
    security.memberIdOf (some token) now =
      if x.Lives security now then .ok memberId else .error credentialsError := by
  obtain ⟨username, password, hashed, called, email, stored, verified⟩ := login.credentials
  have answered := login.answered
  rw [Exchange.reply, called] at answered
  obtain ⟨issued, success, same⟩ := map_eq_ok.mp answered
  cases same
  obtain ⟨other, owner, _, subject, named, _, _, _, written, issuing⟩ := login_eq_ok.mp success
  have same := named.symm.trans (memberNamed_eq_some.mpr ⟨login.found, email⟩)
  cases same
  obtain ⟨later, expires, rfl⟩ := createAccessToken_eq_ok.mp issuing
  obtain ⟨_, rfl⟩ := Python.plus_eq_ok.mp expires
  have decoded := documented.decode_encode subject member.role (timestamp x.env.now)
    (timestamp (x.expires security)) now
  by_cases lives : x.Lives security now
  · rw [if_pos lives]
    exact memberIdOf_of_decode (decoded.trans (if_pos lives)) rfl
      (Python.intOfText_textOfInt written)
  · rw [if_neg lives]
    exact memberIdOf_of_none (decoded.trans (if_neg lives))

end Tokens

section Replies

variable {Token : Type} {security : Security Token} {x : Exchange Token} {memberId : ℕ}
  {member : Member}

theorem getCurrentMember_row {db : Db} :
    FundPolymarket.getCurrentMember db memberId = .ok member ↔
      db.members.get? memberId = some member ∧ member.isActive = true := by
  constructor
  · intro success
    obtain ⟨row, found, rest⟩ := bind_eq_ok.mp success
    obtain ⟨active, same⟩ := raiseIf_bind_eq_ok.mp rest
    cases same
    exact ⟨orRaise_eq_ok.mp found, Bool.eq_true_of_not_eq_false active⟩
  · rintro ⟨found, active⟩
    exact bind_eq_ok.mpr ⟨member, orRaise_eq_ok.mpr found,
      raiseIf_bind_eq_ok.mpr ⟨by simp [active], rfl⟩⟩

theorem Site.write_db [Unicode] (env : Env) (site : Site) (memberId : ℕ) (route : Route)
    (salt : String) :
    (site.write security env memberId route salt).site.db =
        (FundPolymarket.serve env (route.request memberId) site.db).db ∧
      (site.write security env memberId route salt).sent =
        (FundPolymarket.serve env (route.request memberId) site.db).sent := by
  unfold Site.write
  dsimp only
  split <;> exact ⟨rfl, rfl⟩

/-- Members are never changed. -/
theorem TrailKept.keepsMember {db late : Db} (kept : TrailKept db late)
    (found : db.members.get? memberId = some member) :
    late.members.get? memberId = some member := by
  obtain ⟨later, foundLater⟩ := kept.retained .members (by decide) memberId member found
  obtain ⟨row, foundRow, same⟩ :=
    (kept.fixed .members).old memberId later (Table.get?_lt found) foundLater
  have rows : some row = some member := foundRow.symm.trans found
  rw [show late.members.get? memberId = some later from foundLater,
    show later = row from same, rows]

theorem Site.write_hashed [Unicode] (env : Env) (site : Site) (memberId : ℕ) (route : Route)
    (salt : String) :
    ∃ rows, (site.write security env memberId route salt).site.hashed = site.hashed ++ rows := by
  unfold Site.write
  dsimp only
  split
  · exact ⟨[], (List.append_nil _).symm⟩
  · exact ⟨_, rfl⟩

/-- The first password of a member is the one that counts. -/
theorem Site.hashedPassword_kept {early late : Site} {hashed : String}
    (kept : ∃ rows, late.hashed = early.hashed ++ rows)
    (stored : early.hashedPassword memberId = some hashed) :
    late.hashedPassword memberId = some hashed := by
  obtain ⟨rows, kept⟩ := kept
  obtain ⟨row, found, same⟩ := Option.map_eq_some_iff.mp stored
  exact Option.map_eq_some_iff.mpr ⟨row, by rw [kept, List.find?_append, found]; rfl, same⟩

namespace Site.Reaches

variable {early middle late : Site}

theorem refl (site : Site) : site.Reaches site := ⟨⟨[], rfl⟩, [], (List.append_nil _).symm⟩

theorem trans (first : early.Reaches middle) (second : middle.Reaches late) :
    early.Reaches late := by
  obtain ⟨⟨events, reached⟩, rows, kept⟩ := first
  obtain ⟨⟨more, later⟩, others, keptLater⟩ := second
  refine ⟨⟨events ++ more, ?_⟩, rows ++ others, ?_⟩
  · rw [stateAfter_append, ← reached, later]
  · rw [← List.append_assoc, ← kept, keptLater]

theorem trail (reaches : early.Reaches late) : TrailKept early.db late.db := by
  obtain ⟨events, reached⟩ := reaches.db
  exact reached ▸ trailKept_stateAfter early.db events

theorem keepsMember (reaches : early.Reaches late)
    (found : early.db.members.get? memberId = some member) :
    late.db.members.get? memberId = some member :=
  reaches.trail.keepsMember found

theorem keepsPassword {hashed : String} (reaches : early.Reaches late)
    (stored : early.hashedPassword memberId = some hashed) :
    late.hashedPassword memberId = some hashed :=
  Site.hashedPassword_kept reaches.hashed stored

theorem nextId_le (reaches : early.Reaches late) :
    early.db.members.nextId ≤ late.db.members.nextId :=
  (reaches.trail.fixed .members).nextId_le

end Site.Reaches

/-- Only members have passwords. -/
def Site.Keyed (site : Site) : Prop := ∀ row ∈ site.hashed, row.1 < site.db.members.nextId

theorem Site.hashedPassword_append {site : Site} {rows : List (ℕ × String)} {hashed : String}
    (keyed : site.Keyed) :
    Site.hashedPassword ⟨site.db, site.hashed ++ (site.db.members.nextId, hashed) :: rows⟩
      site.db.members.nextId = some hashed := by
  have none : site.hashed.find? (fun row => row.1 = site.db.members.nextId) = none := by
    refine List.find?_eq_none.mpr fun row member => ?_
    have older := keyed row member
    simp only [decide_eq_true_eq]
    omega
  rw [Site.hashedPassword, List.find?_append, none, Option.none_or,
    List.find?_cons_of_pos (by simp)]
  rfl

variable [Unicode]

theorem getCurrentMember_eq_ok {db : Db} {token : Option Token} {now : Time} :
    security.getCurrentMember db token now = .ok (memberId, member) ↔
      security.memberIdOf token now = .ok memberId ∧
        FundPolymarket.getCurrentMember db memberId = .ok member := by
  constructor
  · intro success
    obtain ⟨id, read, rest⟩ := bind_eq_ok.mp success
    obtain ⟨row, found, same⟩ := bind_eq_ok.mp rest
    cases same
    exact ⟨read, found⟩
  · rintro ⟨read, found⟩
    exact bind_eq_ok.mpr ⟨memberId, read, bind_eq_ok.mpr ⟨member, found, rfl⟩⟩

theorem Exchange.current_eq_ok :
    x.current security = .ok (memberId, member) ↔
      security.memberIdOf x.call.token? x.env.now = .ok memberId ∧
        (x.pre.db.members.get? memberId = some member ∧ member.isActive = true) ∧
        (x.call.adminOnly = true → member.role = .admin) := by
  rw [← getCurrentMember_row, ← and_assoc, ← getCurrentMember_eq_ok, Exchange.current]
  split
  · rename_i admin
    constructor
    · intro success
      obtain ⟨current, found, rest⟩ := bind_eq_ok.mp success
      obtain ⟨role, same⟩ := raiseIf_bind_eq_ok.mp rest
      cases same
      exact ⟨found, fun _ => not_not.mp role⟩
    · rintro ⟨found, role⟩
      exact bind_eq_ok.mpr ⟨_, found, raiseIf_bind_eq_ok.mpr
        ⟨not_not.mpr (role admin), rfl⟩⟩
  · rename_i notAdmin
    exact ⟨fun found => ⟨found, fun admin => absurd admin notAdmin⟩, And.left⟩

/-- Whoever is not let in gets an error and changes nothing. -/
theorem Exchange.reply_refused {exc : AppError} (guarded : x.call.guarded = true)
    (refused : x.current security = .error exc) :
    ∃ exc, x.reply security = ⟨x.pre, [], .error exc⟩ := by
  obtain ⟨env, call, pre⟩ := x
  cases call with
  | login | tick => cases guarded
  | write token route salt =>
      refine ⟨exc, ?_⟩
      have same : route.authorize security env pre token = .error exc := refused
      simp only [Exchange.reply, Site.serve, same]
  | read token request =>
      have refused : security.getCurrentMember pre.db token env.now = .error exc := refused
      cases read : security.memberIdOf token env.now with
      | error unread =>
          refine ⟨unread, ?_⟩
          simp only [Exchange.reply, Site.serve, read, bind, Except.bind]
      | ok memberId =>
          refine ⟨exc, ?_⟩
          simp only [Security.getCurrentMember, read, bind, Except.bind] at refused
          cases found : FundPolymarket.getCurrentMember pre.db memberId with
          | ok member => simp [found, pure, Except.pure] at refused
          | error missing =>
              simp only [found, Except.error.injEq] at refused
              simp only [Exchange.reply, Site.serve, read, respond, found, refused, bind,
                Except.bind]
              rfl

theorem Exchange.reply_acting (guarded : x.call.guarded = true)
    (current : x.current security = .ok (memberId, member)) :
    x.reply security = x.actingAs security memberId := by
  obtain ⟨env, call, pre⟩ := x
  cases call with
  | login | tick => cases guarded
  | write token route salt =>
      have same : route.authorize security env pre token = .ok (memberId, member) := current
      simp only [Exchange.reply, Exchange.actingAs, Site.serve, same]
  | read token request =>
      have read := (Exchange.current_eq_ok.mp current).1
      simp only [ApiCall.token?] at read
      simp only [Exchange.reply, Exchange.actingAs, Site.serve, read, bind, Except.bind]

/-- What an exchange is for the database. -/
def Exchange.event? (security : Security Token) (x : Exchange Token) : Option Event :=
  match x.call with
  | .login _ _ | .read _ _ => none
  | .write _ route _ =>
      match x.current security with
      | .error _ => none
      | .ok current => some (.request x.env (route.request current.1))
  | .tick broker closing resolving =>
      some (.tick x.env.settings x.env.now broker closing resolving)

/-- The authenticated program makes runs of the program behind it. -/
theorem Exchange.reply_event (x : Exchange Token) :
    (x.reply security).site.db = stateAfter x.pre.db (x.event? security).toList ∧
      (x.reply security).sent =
        (x.event? security).toList.flatMap fun event => (event.serve x.pre.db).sent := by
  obtain ⟨env, call, pre⟩ := x
  cases call with
  | login | read => exact ⟨rfl, rfl⟩
  | tick => exact ⟨rfl, rfl⟩
  | write token route salt =>
      cases current : Exchange.current security ⟨env, .write token route salt, pre⟩ with
      | error exc =>
          obtain ⟨exc, refused⟩ := Exchange.reply_refused rfl current
          simp only [refused, Exchange.event?, current]
          exact ⟨rfl, rfl⟩
      | ok found =>
          obtain ⟨memberId, member⟩ := found
          obtain ⟨db, sent⟩ := @Site.write_db _ security _ env pre memberId route salt
          rw [Exchange.reply_acting rfl current]
          simp only [Exchange.event?, current, Exchange.actingAs, db, sent, Option.toList_some,
            List.flatMap_cons, List.flatMap_nil, List.append_nil]
          exact ⟨rfl, rfl⟩

theorem Exchange.reaches (x : Exchange Token) : x.pre.Reaches (x.reply security).site := by
  refine ⟨⟨_, x.reply_event.1⟩, ?_⟩
  unfold Exchange.reply Site.serve
  split
  · exact ⟨[], (List.append_nil _).symm⟩
  · exact ⟨[], (List.append_nil _).symm⟩
  · split
    · exact ⟨[], (List.append_nil _).symm⟩
    · exact Site.write_hashed _ _ _ _ _
  · exact ⟨[], (List.append_nil _).symm⟩

end Replies

section Runs

variable {Token : Type} {security : Security Token} [Unicode] {site : Site}
  {calls : List (Env × ApiCall Token)} {before after : List (Exchange Token)}
  {x : Exchange Token} {memberId : ℕ} {member : Member}

theorem exchanges_pre (site : Site) (calls : List (Env × ApiCall Token)) :
    ∀ x ∈ exchanges security site calls, site.Reaches x.pre := by
  induction calls generalizing site with
  | nil => simp [exchanges]
  | cons head rest ih =>
      intro x member
      rcases List.mem_cons.mp member with rfl | later
      · exact .refl site
      · exact (Exchange.reaches ⟨head.1, head.2, site⟩).trans (ih _ x later)

/-- A later exchange finds a state that the program has reached from the reply. -/
theorem exchanges_pairwise (site : Site) (calls : List (Env × ApiCall Token)) :
    (exchanges security site calls).Pairwise fun l x => (l.reply security).site.Reaches x.pre := by
  induction calls generalizing site with
  | nil => exact .nil
  | cons head rest ih => exact .cons (fun x later => exchanges_pre _ rest x later) (ih _)

theorem exchanges_later (split : exchanges security site calls = before ++ x :: after)
    {l : Exchange Token} (earlier : l ∈ before) : (l.reply security).site.Reaches x.pre := by
  have pairwise := @exchanges_pairwise _ security _ site calls
  rw [split, List.pairwise_append] at pairwise
  exact pairwise.2.2 l earlier x List.mem_cons_self

theorem Unforged.split {known middle : List (Exchange Token)}
    (unforged : Unforged security known (middle ++ x :: after)) {token : Token}
    (presented : x.call.token? = some token)
    (accepted : security.decode x.env.now token ≠ none) :
    ∃ l ∈ known ++ middle, (l.reply security).result = .ok (.token token) := by
  induction middle generalizing known with
  | nil =>
      rw [List.append_nil]
      exact unforged.1 token presented accepted
  | cons first middle ih =>
      obtain ⟨l, member, issued⟩ := ih unforged.2
      exact ⟨l, by simpa using member, issued⟩

/-- A call is let in exactly for a member who has logged in. -/
theorem current_iff_actsFor (documented : security.Documented)
    (unforged : Unforged security [] (exchanges security site calls))
    (split : exchanges security site calls = before ++ x :: after) :
    x.current security = .ok (memberId, member) ↔ ActsFor security before x memberId member := by
  rw [Exchange.current_eq_ok]
  constructor
  · rintro ⟨read, ⟨found, active⟩, role⟩
    obtain ⟨token, presented, rest⟩ := bind_eq_ok.mp read
    have presented := orRaise_eq_ok.mp presented
    obtain ⟨payload, decoded, _⟩ := bind_eq_ok.mp rest
    have accepted : security.decode x.env.now token ≠ none := by
      rw [orRaise_eq_ok.mp decoded]
      exact Option.some_ne_none payload
    obtain ⟨l, earlier, issued⟩ := (split ▸ unforged).split presented accepted
    obtain ⟨owner, row, login⟩ := Exchange.logsIn issued
    have known := login.memberIdOf documented x.env.now
    rw [← presented, read] at known
    split at known
    · rename_i lives
      cases known
      have kept := (exchanges_later split earlier).keepsMember (l.reaches.keepsMember login.found)
      rw [found] at kept
      cases kept
      exact ⟨⟨l, earlier, token, presented, login, lives⟩, role⟩
    · cases known
  · rintro ⟨⟨l, earlier, token, presented, login, lives⟩, role⟩
    refine ⟨?_, ⟨?_, login.active⟩, role⟩
    · rw [presented, login.memberIdOf documented, if_pos lives]
    · exact (exchanges_later split earlier).keepsMember (l.reaches.keepsMember login.found)

/-- However calls and ticks follow each other, a call that needs a member is served as one of
the member who has logged in with the password for its token, if the token lives and, for the
routes of the admin, the member is one. Every other call gets an error and changes nothing. -/
theorem calls_act_for_logins (documented : security.Documented)
    (unforged : Unforged security [] (exchanges security site calls))
    (split : exchanges security site calls = before ++ x :: after)
    (guarded : x.call.guarded = true) :
    (∃ memberId member, ActsFor security before x memberId member ∧
        x.pre.db.members.get? memberId = some member ∧
        x.reply security = x.actingAs security memberId) ∨
      (∀ memberId member, ¬ ActsFor security before x memberId member) ∧
        ∃ exc, x.reply security = ⟨x.pre, [], .error exc⟩ := by
  cases current : x.current security with
  | ok found =>
      obtain ⟨memberId, member⟩ := found
      exact .inl ⟨memberId, member, (current_iff_actsFor documented unforged split).mp current,
        (Exchange.current_eq_ok.mp current).2.1.1, Exchange.reply_acting guarded current⟩
  | error exc =>
      refine .inr ⟨fun memberId member acts => ?_, Exchange.reply_refused guarded current⟩
      have contrary := (current_iff_actsFor documented unforged split).mpr acts
      rw [current] at contrary
      cases contrary

/-- A new password is the one of a new member. -/
theorem Exchange.reply_hashed (x : Exchange Token) :
    ∀ row ∈ (x.reply security).site.hashed,
      row ∈ x.pre.hashed ∨ row.1 < (x.reply security).site.db.members.nextId := by
  intro row listed
  obtain ⟨env, call, pre⟩ := x
  cases call with
  | login | read | tick => exact .inl listed
  | write token route salt =>
      cases current : Exchange.current security ⟨env, .write token route salt, pre⟩ with
      | error exc =>
          obtain ⟨exc, refused⟩ := Exchange.reply_refused rfl current
          rw [refused] at listed
          exact .inl listed
      | ok found =>
          rw [Exchange.reply_acting rfl current] at listed ⊢
          simp only [Exchange.actingAs, Site.write] at listed ⊢
          split at listed
          · exact .inl listed
          · rename_i served
            rcases List.mem_append.mp listed with old | new
            · exact .inl old
            · cases route with
              | createMember payload password =>
                  cases List.mem_singleton.mp new
                  obtain ⟨ended, applied⟩ := serve_returned served
                  exact .inr (Table.get?_lt ((handle_commits ended).newMember applied))
              | _ => cases new

theorem Exchange.keyed (x : Exchange Token) (keyed : x.pre.Keyed) :
    (x.reply security).site.Keyed := by
  intro row listed
  rcases x.reply_hashed row listed with old | new
  · exact (keyed row old).trans_le x.reaches.nextId_le
  · exact new

theorem exchanges_keyed (keyed : site.Keyed) :
    ∀ x ∈ exchanges security site calls, x.pre.Keyed := by
  induction calls generalizing site with
  | nil => simp [exchanges]
  | cons head rest ih =>
      intro x member
      rcases List.mem_cons.mp member with rfl | later
      · exact keyed
      · exact ih (Exchange.keyed ⟨head.1, head.2, site⟩ keyed) x later

/-- A registration that goes through. -/
theorem Exchange.registered {r : Exchange Token} {token : Option Token} {payload : MemberCreate}
    {password salt : String}
    (registers : r.call = .write token (.createMember payload password) salt)
    (returned : (r.reply security).result = .ok .done) :
    (r.reply security).site.db.members.get? r.pre.db.members.nextId =
        some { email := Python.lower payload.email, name := payload.name, role := payload.role } ∧
      (r.reply security).site.hashed =
        r.pre.hashed ++ [(r.pre.db.members.nextId, security.hash salt password)] := by
  have guarded : r.call.guarded = true := by rw [registers]; rfl
  cases current : r.current security with
  | error exc =>
      obtain ⟨exc, refused⟩ := Exchange.reply_refused guarded current
      rw [refused] at returned
      cases returned
  | ok found =>
      rw [Exchange.reply_acting guarded current, Exchange.actingAs, registers] at returned ⊢
      simp only [Site.write] at returned ⊢
      split at returned
      · cases returned
      · rename_i served
        obtain ⟨ended, applied⟩ := serve_returned served
        exact ⟨(handle_commits ended).newMember applied, rfl⟩

/-- Whoever has been registered can log in with the password from then on, in any spelling of
the address, and the token is the member's until it expires. -/
theorem registered_members_log_in (documented : security.Documented)
    {middle : List (Exchange Token)} {r l : Exchange Token}
    (split : exchanges security site calls = before ++ r :: (middle ++ l :: after))
    (keyed : site.Keyed) {token : Option Token} {payload : MemberCreate} {password salt : String}
    (registers : r.call = .write token (.createMember payload password) salt)
    (returned : (r.reply security).result = .ok .done) {username : String}
    (named : Python.lower username = Python.lower payload.email)
    (logsIn : l.call = .login username password)
    (short : (Nat.toDigits 10 r.pre.db.members.nextId).length ≤ 4300)
    (calendar : Python.InCalendar (l.expires security)) :
    ∃ issued,
      l.LogsIn security r.pre.db.members.nextId
        { email := Python.lower payload.email, name := payload.name, role := payload.role } issued ∧
      ∀ x ∈ after, x.call.token? = some issued → l.Lives security x.env.now →
        (x.call.adminOnly = true → payload.role = .admin) →
        x.current security = .ok (r.pre.db.members.nextId,
          { email := Python.lower payload.email, name := payload.name, role := payload.role }) := by
  obtain ⟨registered, stored⟩ := Exchange.registered registers returned
  have rKeyed : r.pre.Keyed := exchanges_keyed keyed r (by rw [split]; simp)
  have hashed : (r.reply security).site.hashedPassword r.pre.db.members.nextId =
      some (security.hash salt password) := by
    rw [Site.hashedPassword, stored]
    exact Site.hashedPassword_append rKeyed
  have later : (r.reply security).site.Reaches l.pre :=
    @exchanges_later _ _ _ _ _ (before ++ r :: middle) after l (split.trans (by simp)) r (by simp)
  have found := later.keepsMember registered
  obtain ⟨expires, expiring⟩ := Python.exists_plus_eq_ok.mpr calendar
  let issued := security.encode (issuedPayload (toString r.pre.db.members.nextId) payload.role
    (timestamp l.env.now) (timestamp expires))
  have answered : (l.reply security).result = .ok (.token issued) := by
    rw [Exchange.reply, logsIn]
    exact map_eq_ok.mpr ⟨issued, login_eq_ok.mpr ⟨_, _, _, toString r.pre.db.members.nextId,
      memberNamed_eq_some.mpr ⟨found, named.symm⟩, later.keepsPassword hashed,
      documented.verify_hash salt password, rfl, if_pos short,
      createAccessToken_eq_ok.mpr ⟨expires, expiring, rfl⟩⟩, rfl⟩
  have login : l.LogsIn security r.pre.db.members.nextId
      { email := Python.lower payload.email, name := payload.name, role := payload.role } issued :=
    ⟨⟨username, password, _, logsIn, named.symm, later.keepsPassword hashed,
      documented.verify_hash salt password⟩, found, rfl, answered⟩
  refine ⟨issued, login, fun x listed presented lives role => ?_⟩
  obtain ⟨early, late, rfl⟩ := List.append_of_mem listed
  have reached : (l.reply security).site.Reaches x.pre :=
    @exchanges_later _ _ _ _ _ (before ++ r :: (middle ++ l :: early)) late x
      (split.trans (by simp)) l (by simp)
  refine Exchange.current_eq_ok.mpr ⟨?_, ⟨?_, rfl⟩, role⟩
  · rw [presented, login.memberIdOf documented, if_pos lives]
  · exact reached.keepsMember (l.reaches.keepsMember found)

end Runs

/-- Passwords under a mark, and tokens that show their payload. -/
def plainSecurity : Security Payload where
  hash _ raw := "$" ++ raw
  verify raw hashed := hashed == "$" ++ raw
  encode payload := payload
  decode now payload :=
    match Json.lookup payload "iat", Json.lookup payload "exp" with
    | some (.int issued), some (.int expires) =>
        if issued * Python.microsPerSecond ≤ now ∧ now < expires * Python.microsPerSecond then
          some payload
        else none
    | _, _ => none

theorem plainSecurity_documented : plainSecurity.Documented where
  verify_hash _ _ := beq_self_eq_true _
  decode_encode _ _ _ _ _ := rfl

def adminMember : Member := { email := "a@example.com", name := "a", role := .admin }

/-- A database with an admin, who has a password. -/
def adminSite : Site where
  db := { Db.empty with members := ⟨Table.empty.insert adminMember, List.nodup_singleton _⟩ }
  hashed := [(1, "$secret")]

def adminToken : Payload := issuedPayload "1" .admin 1704155400 1704198600

def adminLogin : Exchange Payload := ⟨desk, .login "A@example.com" "secret", adminSite⟩

/-- The admin registers a member, -/
def registration : Exchange Payload :=
  ⟨desk, .write (some adminToken)
    (.createMember { email := "b@Example.com", name := "b" } "password") "", adminSite⟩

/-- who logs in. -/
def memberLogin : Exchange Payload :=
  ⟨desk, .login "B@example.com" "password",
    (@Exchange.reply _ plainSecurity .asciiOnly registration).site⟩

def loginCalls : List (Env × ApiCall Payload) :=
  [(adminLogin.env, adminLogin.call), (registration.env, registration.call),
    (memberLogin.env, memberLogin.call)]

theorem loginCalls_exchanges :
    @exchanges _ plainSecurity .asciiOnly adminSite loginCalls =
      [adminLogin] ++ registration :: ([] ++ memberLogin :: []) := rfl

theorem adminLogin_token :
    @Site.login _ plainSecurity .asciiOnly desk adminSite "A@example.com" "secret" =
      .ok adminToken := by
  refine (@login_eq_ok _ _ _ _ _ .asciiOnly _ _).mpr ⟨1, adminMember, "$secret", "1",
    (@memberNamed_eq_some _ _ _ .asciiOnly _).mpr ⟨rfl, by decide +kernel⟩, rfl, by decide +kernel,
    rfl,
    by decide +kernel, createAccessToken_eq_ok.mpr ⟨_, Python.plus_eq_ok.mpr ⟨by decide, rfl⟩, ?_⟩⟩
  rfl

theorem loginCalls_unforged :
    @Unforged _ plainSecurity .asciiOnly []
      (@exchanges _ plainSecurity .asciiOnly adminSite loginCalls) := by
  refine And.intro (fun token presented => ?_) (And.intro (fun token presented _ => ?_)
    (And.intro (fun token presented => ?_) trivial))
  · cases presented
  · cases presented
    exact ⟨adminLogin, List.mem_singleton_self _,
      congrArg (Except.map Answer.token) adminLogin_token⟩
  · cases presented

theorem calls_act_for_logins_registration :
    (∃ memberId member,
        @ActsFor _ plainSecurity .asciiOnly [adminLogin] registration memberId member ∧
        registration.pre.db.members.get? memberId = some member ∧
        @Exchange.reply _ plainSecurity .asciiOnly registration =
          @Exchange.actingAs _ plainSecurity .asciiOnly registration memberId) ∨
      (∀ memberId member,
        ¬ @ActsFor _ plainSecurity .asciiOnly [adminLogin] registration memberId member) ∧
        ∃ exc, @Exchange.reply _ plainSecurity .asciiOnly registration =
          ⟨registration.pre, [], .error exc⟩ :=
  @calls_act_for_logins _ plainSecurity .asciiOnly adminSite loginCalls _ _ _
    plainSecurity_documented loginCalls_unforged loginCalls_exchanges rfl

theorem registration_done :
    (@Exchange.reply _ plainSecurity .asciiOnly registration).result = .ok .done := by
  with_unfolding_all rfl

theorem registered_members_log_in_second :
    ∃ issued, @Exchange.LogsIn _ plainSecurity .asciiOnly memberLogin 2
      { email := @Python.lower .asciiOnly "b@Example.com", name := "b", role := .member }
      issued := by
  have keyed : adminSite.Keyed := by
    unfold Site.Keyed
    decide
  have lower : "b@example.com" = @Python.lower .asciiOnly "B@example.com" ∧
      "b@example.com" = @Python.lower .asciiOnly "b@Example.com" := by decide +kernel
  have short : (Nat.toDigits 10 2).length ≤ 4300 := by decide
  have calendar : Python.InCalendar (memberLogin.expires plainSecurity) :=
    show Python.InCalendar (1704155400000000 + 60 * 12 * 60 * 1000000) by decide
  obtain ⟨issued, login, _⟩ := @registered_members_log_in _ plainSecurity .asciiOnly adminSite
    loginCalls [adminLogin] [] plainSecurity_documented [] registration memberLogin
    loginCalls_exchanges keyed (some adminToken) { email := "b@Example.com", name := "b" }
    "password" "" rfl registration_done "B@example.com" (lower.1.symm.trans lower.2) rfl short
    calendar
  exact ⟨issued, login⟩

end FundPolymarket
