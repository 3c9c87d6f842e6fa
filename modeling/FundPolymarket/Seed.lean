import FundPolymarket.Logins

set_option autoImplicit false

/- `scripts/seed.py`: the members, the fund and the market that a database starts with. The
script is a run of requests to the API, and once it has gone through it has nothing left to do. -/
namespace FundPolymarket

open Python (Unicode)

def defaultPassword : String := "changeme123"

structure SeedMember where
  email : String
  name : String
  role : Role := .member

def SeedMember.toMember (entry : SeedMember) : Member :=
  { email := entry.email, name := entry.name, role := entry.role }

/-- The registration of the same member. -/
def SeedMember.payload (entry : SeedMember) : MemberCreate :=
  { email := entry.email, name := entry.name, role := entry.role }

/-- `MEMBERS`, of which only the first is an admin. -/
def seedAdmin : SeedMember := { email := "admin@study.local", name := "운영자", role := .admin }

def studyMembers : List SeedMember :=
  [{ email := "member1@study.local", name := "스터디원1" },
    { email := "member2@study.local", name := "스터디원2" },
    { email := "member3@study.local", name := "스터디원3" },
    { email := "member4@study.local", name := "스터디원4" },
    { email := "member5@study.local", name := "스터디원5" },
    { email := "member6@study.local", name := "스터디원6" },
    { email := "member7@study.local", name := "스터디원7" },
    { email := "member8@study.local", name := "스터디원8" },
    { email := "member9@study.local", name := "스터디원9" }]

def seedMembers : List SeedMember := seedAdmin :: studyMembers

/-- What the script reads of the settings, and the time at which it runs. -/
structure SeedEnv where
  settings : Settings := {}
  kisAccountNo : String := ""
  defaultHorizonDays : ℤ := 5
  now : Time

section Script

variable {Token : Type} (security : Security Token) (setup : SeedEnv) (salt : String → String)

/-- One turn of the loop over the members, from the session and `admin_id`. -/
def seedMember (state : Site × Option ℕ) (entry : SeedMember) :
    Except AppError (Site × Option ℕ) :=
  match state.1.db.members.rows.find? fun row => row.2.email = entry.email with
  | some existing => pure (state.1, if entry.role = .admin then some existing.1 else state.2)
  | none => do
      let memberId := state.1.db.members.nextId
      let hashedPassword := security.hash (salt entry.email) defaultPassword
      let flushed ← applyWrites state.1.db [.insertMember entry.toMember]
      let grant ← record memberId .initialGrant setup.settings.initialPoints none
        (some "초기 포인트 지급")
      let db ← applyWrites flushed [.insertLedger grant]
      pure (⟨db, state.1.hashed ++ [(memberId, hashedPassword)]⟩,
        if entry.role = .admin then some memberId else state.2)

def SeedEnv.accountNo : String :=
  if setup.kisAccountNo = "" then "00000000" else setup.kisAccountNo

/-- The fund that the market is for. -/
def seedFund (db : Db) : Except AppError (ℕ × Db) :=
  match db.funds.rows.head? with
  | some fund => pure (fund.1, db)
  | none => do
      let accountNo ← storeText 20 setup.accountNo
      let next ← applyWrites db [.insertFund { name := "스터디 펀드 1호", accountNo }]
      pure (db.funds.nextId, next)

/-- The market of the script. -/
def sampleRow (fundId createdBy : ℕ) (closesAt resolveAt : Time)
    (buyThresholdPct sellThresholdPct : Decimal.Numeric 6 2) (notionalKrw : Points) : Market :=
  { fundId
    createdBy
    title := "삼성전자 — 이번 주 액션은?"
    description := some "반도체 업황과 실적 발표를 감안해 매수/매도/홀딩 중 하나를 고르세요."
    ticker := "005930"
    tickerName := some "삼성전자"
    closesAt, resolveAt, buyThresholdPct, sellThresholdPct, notionalKrw }

/-- Without an admin, or with one whose key counts as false, there is no market. -/
def seedMarket (db : Db) (fundId : ℕ) (adminId : Option ℕ) : Except AppError Db :=
  match if db.markets.rows.isEmpty then adminId.filter fun id => id ≠ 0 else none with
  | none => pure db
  | some createdBy => do
      let closesAt ← (Python.plus setup.now microsPerDay).mapError uncaught
      let resolveAt ← (Python.plus setup.now
        ((setup.defaultHorizonDays + 1) * microsPerDay)).mapError uncaught
      let buyThresholdPct ← store 6 2 setup.settings.defaultBuyThresholdPct
      let sellThresholdPct ← store 6 2 setup.settings.defaultSellThresholdPct
      let notionalKrw ← store 18 2 500000
      applyWrites db [.insertMarket
        (sampleRow fundId createdBy closesAt resolveAt buyThresholdPct sellThresholdPct
          notionalKrw)]

/-- `main`: the state that is committed, if the script goes through. -/
def Site.seed (site : Site) : Except AppError Site := do
  let (grown, adminId) ← seedMembers.foldlM (seedMember security setup salt) (site, none)
  let (fundId, db) ← seedFund setup grown.db
  let db ← seedMarket setup db fundId adminId
  pure { grown with db }

end Script

/-- Requests that are served and answered, one after the other; none sends an order. -/
inductive Serves (env : Env) : Db → List Request → Db → Prop where
  | nil {db : Db} : Serves env db [] db
  | cons {db next final : Db} {request : Request} {requests : List Request}
      (served : serve env request db = ⟨next, [], .ok ()⟩) (rest : Serves env next requests final) :
      Serves env db (request :: requests) final

namespace Serves

variable {env : Env} {db next final : Db} {request : Request}
  {requests first second : List Request}

theorem append (early : Serves env db first next) (late : Serves env next second final) :
    Serves env db (first ++ second) final := by
  induction early with
  | nil => exact late
  | cons served _ ih => exact .cons served (ih late)

theorem stateAfter_eq (serves : Serves env db requests next) :
    stateAfter db (requests.map fun request => .request env request) = next := by
  induction serves with
  | nil => rfl
  | cons served _ ih =>
      rw [List.map_cons, stateAfter, List.foldl_cons, Event.serve, served]
      exact ih

/-- A service that returns, and whose writes go through. -/
theorem one {writes : List Write} (handled : handle env db request = .ofService (.ok writes))
    (applied : applyWrites db writes = .ok next) : Serves env db [request] next := by
  refine .cons ?_ .nil
  unfold serve endRequest Session.flush
  simp only [handled, Handled.ofService, Session.begin, applied]
  rfl

end Serves

/-- The request that makes the same market. -/
def sampleMarket (setup : SeedEnv) (fundId : ℕ) : MarketCreate where
  fundId := fundId
  title := "삼성전자 — 이번 주 액션은?"
  ticker := "005930"
  tickerName := some "삼성전자"
  description := some "반도체 업황과 실적 발표를 감안해 매수/매도/홀딩 중 하나를 고르세요."
  closesAt := setup.now + microsPerDay
  resolveAt := setup.now + (setup.defaultHorizonDays + 1) * microsPerDay
  notionalKrw := 500000

/-- The requests that the script stands for, as they reach the handlers. -/
inductive SeedEnv.Asks (setup : SeedEnv) : Request → Prop where
  | register {entry : SeedMember} (listed : entry ∈ seedMembers) :
      Asks setup (.createMember entry.payload)
  | openFund {accountNo : String} (kept : storeText 20 setup.accountNo = .ok accountNo) :
      Asks setup (.createFund "스터디 펀드 1호" accountNo "KIS")
  | openMarket {fundId adminId : ℕ} :
      Asks setup (.createMarket (sampleMarket setup fundId) adminId)

/-- A state that requests of some kind reach, all of them accepted; passwords are only added. -/
structure Site.Requested (env : Env) (asks : Request → Prop) (early late : Site) : Prop where
  serves : ∃ requests, Serves env early.db requests late.db ∧ ∀ request ∈ requests, asks request
  hashed : ∃ rows, late.hashed = early.hashed ++ rows

namespace Site.Requested

variable {env : Env} {asks : Request → Prop} {early middle late : Site}

theorem refl (site : Site) : site.Requested env asks site :=
  ⟨⟨[], .nil, by simp⟩, [], (List.append_nil _).symm⟩

theorem trans (first : early.Requested env asks middle)
    (second : middle.Requested env asks late) : early.Requested env asks late := by
  obtain ⟨⟨requests, serves, asked⟩, rows, hashed⟩ := first
  obtain ⟨⟨others, servesLate, askedLate⟩, more, hashedLate⟩ := second
  refine ⟨⟨_, serves.append servesLate, fun request member => ?_⟩, rows ++ more, by
    rw [hashedLate, hashed, List.append_assoc]⟩
  exact (List.mem_append.mp member).elim (asked request) (askedLate request)

theorem reaches (requested : early.Requested env asks late) : early.Reaches late := by
  obtain ⟨⟨requests, serves, _⟩, hashed⟩ := requested
  exact ⟨⟨_, serves.stateAfter_eq.symm⟩, hashed⟩

end Site.Requested

section Steps

variable {Token : Type} {security : Security Token} {setup : SeedEnv} {salt : String → String}
  (broker : Broker)

/-- The script runs with a broker that it does not ask. -/
def SeedEnv.env (setup : SeedEnv) (broker : Broker) : Env := ⟨setup.settings, setup.now, broker⟩

def SeedMember.Unknown (entry : SeedMember) (db : Db) : Prop :=
  ∀ member ∈ db.members.contents, member.email ≠ entry.email

/-- A turn finds the member, or makes one as a registration does. -/
inductive Turn (security : Security Token) (setup : SeedEnv) (salt : String → String)
    (entry : SeedMember) (site : Site) (admin : Option ℕ) : Site × Option ℕ → Prop where
  | found {memberId : ℕ} {member : Member} (listed : site.db.members.get? memberId = some member)
      (email : member.email = entry.email) :
      Turn security setup salt entry site admin
        (site, if entry.role = .admin then some memberId else admin)
  | made {grant : LedgerEntry} {db : Db} (unknown : entry.Unknown site.db)
      (granted : record site.db.members.nextId .initialGrant setup.settings.initialPoints none
        (some "초기 포인트 지급") = .ok grant)
      (applied : applyWrites site.db [.insertMember entry.toMember, .insertLedger grant] = .ok db) :
      Turn security setup salt entry site admin
        (⟨db, site.hashed ++
            [(site.db.members.nextId, security.hash (salt entry.email) defaultPassword)]⟩,
          if entry.role = .admin then some site.db.members.nextId else admin)

theorem seedMember_turn {state next : Site × Option ℕ} {entry : SeedMember}
    (made : seedMember security setup salt state entry = .ok next) :
    Turn security setup salt entry state.1 state.2 next := by
  unfold seedMember at made
  split at made
  · rename_i existing search
    cases made
    exact .found ((Table.mem_rows_iff _ _ _).mp (List.mem_of_find?_eq_some search))
      (by simpa using List.find?_some search)
  · rename_i search
    obtain ⟨flushed, inserted, rest⟩ := bind_eq_ok.mp made
    obtain ⟨grant, granted, rest⟩ := bind_eq_ok.mp rest
    obtain ⟨db, recorded, same⟩ := bind_eq_ok.mp rest
    cases same
    refine .made (fun member listed taken => ?_) granted ?_
    · obtain ⟨row, rowListed, rfl⟩ := List.mem_map.mp listed
      exact List.find?_eq_none.mp search row rowListed (by simpa using taken)
    · rw [← List.singleton_append, applyWrites_append, inserted]
      exact recorded

/-- A member of the list is there. If it has been made since, then with the default password. -/
structure Holds (security : Security Token) (salt : String → String) (entry : SeedMember)
    (site next : Site) (memberId : ℕ) (member : Member) : Prop where
  found : next.db.members.get? memberId = some member
  email : member.email = entry.email
  made : site.Keyed → entry.Unknown site.db → member = entry.toMember ∧
    next.hashedPassword memberId = some (security.hash (salt entry.email) defaultPassword)

/-- The list passes the checks of a registration. -/
theorem seedMembers_valid : ∀ entry ∈ seedMembers, checkMember [] entry.payload = .ok () := by
  decide +kernel

namespace Turn

variable {entry other : SeedMember} {site : Site} {admin : Option ℕ} {next : Site × Option ℕ}

theorem requested (turn : Turn security setup salt entry site admin next)
    (listed : entry ∈ seedMembers) : site.Requested (setup.env broker) setup.Asks next.1 := by
  cases turn with
  | found => exact .refl site
  | @made grant db unknown granted applied =>
      have created : createMember (setup.env broker) site.db
          entry.payload = .ok [.insertMember entry.toMember, .insertLedger grant] := by
        refine bind_eq_ok.mpr ⟨(), checkMember_of_fresh (seedMembers_valid entry listed) ?_,
          bind_eq_ok.mpr ⟨grant, granted, rfl⟩⟩
        rintro ⟨member, listed, taken⟩
        exact unknown member listed taken
      have serves : Serves (setup.env broker) site.db [.createMember entry.payload] db :=
        .one (congrArg Handled.ofService created) applied
      refine ⟨⟨_, serves, fun request asked => ?_⟩, _, rfl⟩
      exact List.mem_singleton.mp asked ▸ .register listed

theorem members_eq {grant : LedgerEntry} {db : Db}
    (applied : applyWrites site.db [.insertMember entry.toMember, .insertLedger grant] = .ok db) :
    db.members.toTable = site.db.members.insert entry.toMember :=
  applyWrites_table applied .members

theorem holds (turn : Turn security setup salt entry site admin next) :
    ∃ memberId member, Holds security salt entry site next.1 memberId member ∧
      next.2 = if entry.role = .admin then some memberId else admin := by
  cases turn with
  | @found memberId member listed email =>
      refine ⟨memberId, member, ⟨listed, email, fun _ unknown => ?_⟩, rfl⟩
      exact absurd email (unknown member (Table.get?_mem_contents listed))
  | made unknown granted applied =>
      refine ⟨_, entry.toMember, ⟨?_, rfl, fun keyed _ => ⟨rfl, ?_⟩⟩, rfl⟩
      · rw [members_eq applied]
        exact (Table.get?_insert _ _ _).trans (if_pos rfl)
      · exact Site.hashedPassword_append keyed

theorem keyed (turn : Turn security setup salt entry site admin next) (keyed : site.Keyed) :
    next.1.Keyed := by
  cases turn with
  | found => exact keyed
  | made unknown granted applied =>
      intro row listed
      rw [members_eq applied, Table.insert]
      rcases List.mem_append.mp listed with old | new
      · exact Nat.lt_succ_of_lt (keyed row old)
      · cases List.mem_singleton.mp new
        exact Nat.lt_succ_self _

theorem unknown (turn : Turn security setup salt entry site admin next)
    (distinct : entry.email ≠ other.email) (unknown : other.Unknown site.db) :
    other.Unknown next.1.db := by
  cases turn with
  | found => exact unknown
  | made _ granted applied =>
      intro member listed
      rw [members_eq applied, Table.contents_insert, List.mem_append, List.mem_singleton] at listed
      rcases listed with old | rfl
      · exact unknown member old
      · exact distinct

end Turn

theorem Holds.later {entry : SeedMember} {site next late : Site} {memberId : ℕ} {member : Member}
    (holds : Holds security salt entry site next memberId member)
    (trail : TrailKept next.db late.db) (hashed : ∃ rows, late.hashed = next.hashed ++ rows) :
    Holds security salt entry site late memberId member :=
  ⟨trail.keepsMember holds.found, holds.email, fun keyed unknown =>
    (holds.made keyed unknown).imp_right (Site.hashedPassword_kept hashed)⟩

/-- What the whole loop leaves. -/
structure AllHold (security : Security Token) (setup : SeedEnv) (salt : String → String)
    (entries : List SeedMember) (state next : Site × Option ℕ) : Prop where
  requested : state.1.Requested (setup.env broker) setup.Asks next.1
  holds : ∀ entry ∈ entries, ∃ memberId member,
    Holds security salt entry state.1 next.1 memberId member
  adminId : (∀ entry ∈ entries, entry.role ≠ .admin) → next.2 = state.2

theorem seedMembers_hold {entries : List SeedMember} {state next : Site × Option ℕ}
    (members : ∀ entry ∈ entries, entry ∈ seedMembers)
    (distinct : (entries.map SeedMember.email).Nodup)
    (made : entries.foldlM (seedMember security setup salt) state = .ok next) :
    AllHold broker security setup salt entries state next := by
  induction entries generalizing state with
  | nil =>
      cases made
      exact ⟨.refl _, by simp, fun _ => rfl⟩
  | cons entry entries ih =>
      rw [List.foldlM_cons] at made
      obtain ⟨middle, head, tail⟩ := bind_eq_ok.mp made
      have turn := seedMember_turn head
      rw [List.map_cons, List.nodup_cons] at distinct
      obtain ⟨requested, holds, adminTail⟩ :=
        ih (fun other listed => members other (by simp [listed])) distinct.2 tail
      obtain ⟨memberId, member, holdsHead, admin⟩ := turn.holds
      refine ⟨(turn.requested broker (members entry (by simp))).trans requested, ?_, ?_⟩
      · intro other listed
        rcases List.mem_cons.mp listed with rfl | listed
        · exact ⟨memberId, member, holdsHead.later requested.reaches.trail requested.hashed⟩
        · obtain ⟨otherId, otherMember, found, email, made⟩ := holds other listed
          refine ⟨otherId, otherMember, found, email, fun keyed unknown =>
            made (turn.keyed keyed) (turn.unknown (fun same => distinct.1 ?_) unknown)⟩
          exact List.mem_map.mpr ⟨other, listed, same.symm⟩
      · intro none
        rw [adminTail fun other listed => none other (by simp [listed]), admin,
          if_neg (none entry (by simp))]

/-- The number of the account is in order once its column has taken it. -/
theorem createFund_study {accountNo : String}
    (kept : storeText 20 setup.accountNo = .ok accountNo) :
    createFund "스터디 펀드 1호" accountNo "KIS" =
      .ok [.insertFund { name := "스터디 펀드 1호", accountNo }] := by
  obtain ⟨free, short⟩ := storeText_fits kept
  obtain ⟨_, rfl⟩ := storeText_eq_ok.mp kept
  have given : setup.accountNo.toList ≠ [] := by
    unfold SeedEnv.accountNo
    split
    · decide
    · rename_i named
      exact fun empty => named (String.toList_eq_nil_iff.mp empty)
  have length : checkLength "account_no" 1 20
      (String.ofList (setup.accountNo.toList.take 20)) = .ok () := by
    refine raiseIf_eq_ok.mpr ?_
    rw [not_or, not_lt, not_lt, ← String.length_toList]
    refine ⟨?_, short⟩
    rw [String.toList_ofList, Nat.one_le_iff_ne_zero, ne_eq, List.length_eq_zero_iff,
      List.take_eq_nil_iff]
    simp [given]
  refine bind_eq_ok.mpr ⟨(), rfl, bind_eq_ok.mpr ⟨(), length, bind_eq_ok.mpr ⟨(), ?_,
    bind_eq_ok.mpr ⟨(), checkText_eq_ok.mpr ?_, ?_⟩⟩⟩⟩
  · rfl
  · rintro _ ⟨⟩
    exact free
  · rfl

theorem seedFund_serves {db next : Db} {fundId : ℕ}
    (made : seedFund setup db = .ok (fundId, next)) :
    (∃ requests, Serves (setup.env broker) db requests next ∧
        ∀ request ∈ requests, setup.Asks request) ∧
      ∃ fund, next.funds.get? fundId = some fund := by
  unfold seedFund at made
  split at made
  · rename_i fund search
    cases made
    exact ⟨⟨[], .nil, by simp⟩, fund.2,
      (Table.mem_rows_iff _ _ _).mp (List.mem_of_head? search)⟩
  · obtain ⟨accountNo, kept, rest⟩ := bind_eq_ok.mp made
    obtain ⟨inserted, applied, same⟩ := bind_eq_ok.mp rest
    cases same
    have serves : Serves (setup.env broker) db
        [.createFund "스터디 펀드 1호" accountNo "KIS"] next :=
      .one (congrArg Handled.ofService (createFund_study kept)) applied
    refine ⟨⟨_, serves, fun request asked => ?_⟩, { name := "스터디 펀드 1호", accountNo }, ?_⟩
    · exact List.mem_singleton.mp asked ▸ .openFund kept
    rw [show next.funds = _ from applyWrites_table applied .funds]
    exact (Table.get?_insert _ _ _).trans (if_pos rfl)

/-- `create_market` asks for a verdict after the close, the script does not. -/
theorem seedMarket_serves {db next : Db} {fundId : ℕ} {adminId : Option ℕ} {fund : Fund}
    (found : db.funds.get? fundId = some fund) (horizon : 0 < setup.defaultHorizonDays)
    (made : seedMarket setup db fundId adminId = .ok next) :
    ∃ requests, Serves (setup.env broker) db requests next ∧
      ∀ request ∈ requests, setup.Asks request := by
  unfold seedMarket at made
  split at made
  · cases made
    exact ⟨[], .nil, by simp⟩
  · rename_i createdBy _
    obtain ⟨closesAt, closing, rest⟩ := bind_eq_ok.mp made
    obtain ⟨resolveAt, resolving, rest⟩ := bind_eq_ok.mp rest
    obtain ⟨buyPct, bought, rest⟩ := bind_eq_ok.mp rest
    obtain ⟨sellPct, sold, rest⟩ := bind_eq_ok.mp rest
    obtain ⟨notional, priced, applied⟩ := bind_eq_ok.mp rest
    obtain ⟨_, rfl⟩ := Python.plus_eq_ok.mp (mapError_eq_ok.mp closing)
    obtain ⟨_, rfl⟩ := Python.plus_eq_ok.mp (mapError_eq_ok.mp resolving)
    have later : (sampleMarket setup fundId).closesAt < (sampleMarket setup fundId).resolveAt := by
      refine Int.add_lt_add_left ?_ _
      unfold microsPerDay
      omega
    have texts : checkText (some "삼성전자 — 이번 주 액션은?") = .ok () ∧
        checkText (some "반도체 업황과 실적 발표를 감안해 매수/매도/홀딩 중 하나를 고르세요.") = .ok () ∧
        checkText (some "005930") = .ok () ∧
        (some "삼성전자").mapM (storeText 100) = .ok (some "삼성전자") := by decide +kernel
    obtain ⟨title, description, ticker, name⟩ := texts
    have created : createMarket (setup.env broker) db (sampleMarket setup fundId) createdBy =
        .ok [.insertMarket (sampleRow fundId createdBy (sampleMarket setup fundId).closesAt
          (sampleMarket setup fundId).resolveAt buyPct sellPct notional)] := by
      have lengths : checkLength "title" 1 200 "삼성전자 — 이번 주 액션은?" = .ok () ∧
          checkLength "ticker" 4 20 "005930" = .ok () := by decide +kernel
      refine bind_eq_ok.mpr ⟨(), lengths.1, bind_eq_ok.mpr ⟨(), lengths.2, raiseIf_bind_eq_ok.mpr
        ⟨by norm_num [sampleMarket], raiseIf_bind_eq_ok.mpr ⟨not_le.mpr later,
          raiseIf_bind_eq_ok.mpr ⟨by simp [sampleMarket], bind_eq_ok.mpr
            ⟨fund, orRaise_eq_ok.mpr found, bind_eq_ok.mpr ⟨buyPct, bought, bind_eq_ok.mpr
              ⟨sellPct, sold, bind_eq_ok.mpr ⟨notional, priced, ?_⟩⟩⟩⟩⟩⟩⟩⟩⟩
      exact bind_eq_ok.mpr ⟨(), title, bind_eq_ok.mpr ⟨(), description, bind_eq_ok.mpr
        ⟨(), ticker, bind_eq_ok.mpr ⟨_, name, rfl⟩⟩⟩⟩
    refine ⟨[.createMarket (sampleMarket setup fundId) createdBy],
      .one (congrArg Handled.ofService created) applied, fun request asked => ?_⟩
    exact List.mem_singleton.mp asked ▸ .openMarket

theorem seedMarket_kept {db next : Db} {fundId adminId : ℕ}
    (made : seedMarket setup db fundId (some adminId) = .ok next) :
    TrailKept db next ∧
      (adminId = 0 ∨ ∃ marketId market, next.markets.get? marketId = some market) := by
  unfold seedMarket at made
  split at made
  · rename_i idle
    cases made
    refine ⟨.refl _, ?_⟩
    cases rows : db.markets.rows with
    | nil => exact .inl (by simpa [rows] using idle)
    | cons row rest => exact .inr ⟨row.1, row.2, (Table.mem_rows_iff _ _ _).mp (by simp [rows])⟩
  · obtain ⟨closesAt, _, rest⟩ := bind_eq_ok.mp made
    obtain ⟨resolveAt, _, rest⟩ := bind_eq_ok.mp rest
    obtain ⟨buyPct, _, rest⟩ := bind_eq_ok.mp rest
    obtain ⟨sellPct, _, rest⟩ := bind_eq_ok.mp rest
    obtain ⟨notional, _, applied⟩ := bind_eq_ok.mp rest
    refine ⟨.writes (by simp [Write.Keeps]) applied, .inr ⟨db.markets.nextId, ?_⟩⟩
    rw [show next.markets = _ from applyWrites_table applied .markets]
    exact ⟨_, (Table.get?_insert _ _ _).trans (if_pos rfl)⟩

end Steps

/-- What the script leaves, apart from passwords: everything that a second run looks for. -/
structure Seeded (adminId : ℕ) (db : Db) : Prop where
  admin : ∃ member, db.members.get? adminId = some member ∧ member.email = seedAdmin.email
  members : ∀ entry ∈ studyMembers, ∃ memberId member,
    db.members.get? memberId = some member ∧ member.email = entry.email
  fund : ∃ fundId fund, db.funds.get? fundId = some fund
  market : adminId = 0 ∨ ∃ marketId market, db.markets.get? marketId = some market

section Again

variable {Token : Type} {security : Security Token} {setup : SeedEnv} {salt : String → String}
  {adminId : ℕ}

theorem seedMembers_distinct : (seedMembers.map SeedMember.email).Nodup := by decide +kernel

/-- Only the first member of the list is an admin. -/
theorem studyMembers_plain : ∀ entry ∈ studyMembers, entry.role ≠ .admin := by decide

/-- Nothing that a second run looks for is ever deleted. -/
theorem Seeded.kept {db late : Db} (seeded : Seeded adminId db) (kept : TrailKept db late) :
    Seeded adminId late := by
  obtain ⟨admin, members, fund, market⟩ := seeded
  refine ⟨?_, fun entry listed => ?_, ?_, market.imp id ?_⟩
  · obtain ⟨member, found, email⟩ := admin
    exact ⟨member, kept.keepsMember found, email⟩
  · obtain ⟨memberId, member, found, email⟩ := members entry listed
    exact ⟨memberId, member, kept.keepsMember found, email⟩
  · obtain ⟨fundId, fund, found⟩ := fund
    exact ⟨fundId, kept.retained .funds (by decide) fundId fund found⟩
  · rintro ⟨marketId, market, found⟩
    exact ⟨marketId, kept.retained .markets (by decide) marketId market found⟩

theorem seedMember_present {site : Site} {found : Option ℕ} {entry : SeedMember} {memberId : ℕ}
    {member : Member} (present : site.db.members.get? memberId = some member)
    (email : member.email = entry.email) :
    seedMember security setup salt (site, found) entry =
      .ok (site, if entry.role = .admin then some memberId else found) := by
  unfold seedMember
  rw [find?_email_eq_some.mpr ⟨present, email⟩]
  rfl

theorem seedMembers_present {site : Site} {entries : List SeedMember} (found : Option ℕ)
    (plain : ∀ entry ∈ entries, entry.role ≠ .admin)
    (present : ∀ entry ∈ entries, ∃ memberId member,
      site.db.members.get? memberId = some member ∧ member.email = entry.email) :
    entries.foldlM (seedMember security setup salt) (site, found) = .ok (site, found) := by
  induction entries with
  | nil => rfl
  | cons entry entries ih =>
      obtain ⟨memberId, member, listed, email⟩ := present entry (by simp)
      rw [List.foldlM_cons, seedMember_present listed email,
        if_neg (plain entry (by simp))]
      exact ih (fun other later => plain other (by simp [later]))
        (fun other later => present other (by simp [later]))

theorem seedFund_present (setup : SeedEnv) {db : Db}
    (present : ∃ fundId fund, db.funds.get? fundId = some fund) :
    ∃ fundId, seedFund setup db = .ok (fundId, db) := by
  obtain ⟨fundId, fund, found⟩ := present
  unfold seedFund
  cases rows : db.funds.rows with
  | nil => simpa [rows] using (Table.mem_rows_iff _ _ _).mpr found
  | cons row rest => exact ⟨row.1, rfl⟩

theorem seedMarket_present {db : Db} (fundId : ℕ)
    (present : adminId = 0 ∨ ∃ marketId market, db.markets.get? marketId = some market) :
    seedMarket setup db fundId (some adminId) = .ok db := by
  have idle : (if db.markets.rows.isEmpty then (some adminId).filter fun id => id ≠ 0
      else none) = none := by
    rcases present with rfl | ⟨marketId, market, found⟩
    · simp
    · exact if_neg (by simp [List.ne_nil_of_mem ((Table.mem_rows_iff _ _ _).mpr found)])
  unfold seedMarket
  rw [idle]
  rfl

/-- A run of the script that finds everything in place. -/
theorem Seeded.seed {site : Site} (seeded : Seeded adminId site.db) :
    site.seed security setup salt = .ok site := by
  obtain ⟨⟨member, listed, email⟩, members, fund, market⟩ := seeded
  have head : seedMember security setup salt (site, none) seedAdmin = .ok (site, some adminId) :=
    seedMember_present listed email
  have tail : studyMembers.foldlM (seedMember security setup salt) (site, some adminId) =
      .ok (site, some adminId) :=
    seedMembers_present _ studyMembers_plain members
  obtain ⟨fundId, opened⟩ := seedFund_present setup fund
  have looped : seedMembers.foldlM (seedMember security setup salt) (site, none) =
      .ok (site, some adminId) := by
    rw [seedMembers, List.foldlM_cons, head]
    exact tail
  exact bind_eq_ok.mpr ⟨_, looped, bind_eq_ok.mpr ⟨_, opened,
    bind_eq_ok.mpr ⟨_, seedMarket_present fundId market, rfl⟩⟩⟩

/-- What the script has done when it commits. -/
structure SeedDone (broker : Broker) (security : Security Token) (setup : SeedEnv)
    (salt : String → String) (site next : Site) : Prop where
  seeded : ∃ adminId, Seeded adminId next.db
  trail : TrailKept site.db next.db
  hashed : ∃ rows, next.hashed = site.hashed ++ rows
  requested : 0 < setup.defaultHorizonDays →
    site.Requested (setup.env broker) setup.Asks next
  holds : ∀ entry ∈ seedMembers, ∃ memberId member,
    Holds security salt entry site next memberId member

theorem Site.seed_eq_ok (broker : Broker) {site next : Site}
    (made : site.seed security setup salt = .ok next) :
    SeedDone broker security setup salt site next := by
  obtain ⟨⟨grown, lastAdmin⟩, looped, rest⟩ := bind_eq_ok.mp made
  obtain ⟨⟨fundId, opened⟩, fundMade, rest⟩ := bind_eq_ok.mp rest
  obtain ⟨db, marketMade, same⟩ := bind_eq_ok.mp rest
  cases same
  have loop := seedMembers_hold broker (fun _ listed => listed) seedMembers_distinct looped
  rw [seedMembers, List.foldlM_cons] at looped
  obtain ⟨⟨first, firstAdmin⟩, head, tail⟩ := bind_eq_ok.mp looped
  obtain ⟨adminId, admin, adminHolds, isAdmin⟩ := (seedMember_turn head).holds
  have others := seedMembers_hold broker
    (fun entry later => List.mem_cons_of_mem _ later)
    (List.nodup_cons.mp seedMembers_distinct).2 tail
  obtain rfl : lastAdmin = some adminId := (others.adminId studyMembers_plain).trans isAdmin
  obtain ⟨⟨fundRequests, fundServes⟩, fund, fundFound⟩ := seedFund_serves broker fundMade
  obtain ⟨kept, market⟩ := seedMarket_kept marketMade
  have funded : grown.Requested (setup.env broker) setup.Asks { grown with db := opened } :=
    ⟨⟨fundRequests, fundServes⟩, [], (List.append_nil _).symm⟩
  have trail : TrailKept grown.db db := funded.reaches.trail.trans kept
  refine ⟨⟨adminId, ?_⟩, loop.requested.reaches.trail.trans trail, loop.requested.hashed,
    fun horizon => ?_, fun entry listed => ?_⟩
  · have adminFound := others.requested.reaches.trail.keepsMember adminHolds.found
    refine ⟨⟨admin, trail.keepsMember adminFound, adminHolds.email⟩, fun entry listed => ?_,
      ⟨fundId, kept.retained .funds (by decide) fundId fund fundFound⟩, market⟩
    obtain ⟨memberId, member, holds⟩ := loop.holds entry (List.mem_cons_of_mem _ listed)
    exact ⟨memberId, member, trail.keepsMember holds.found, holds.email⟩
  · obtain ⟨marketRequests, marketServes⟩ :=
      seedMarket_serves broker fundFound horizon marketMade
    exact loop.requested.trans (funded.trans
      ⟨⟨marketRequests, marketServes⟩, [], (List.append_nil _).symm⟩)
  · obtain ⟨memberId, member, holds⟩ := loop.holds entry listed
    exact ⟨memberId, member, holds.later trail ⟨[], (List.append_nil _).symm⟩⟩

variable {broker : Broker} {site next late : Site}

/-- The script does nothing that the handlers would not do: its state is one that registrations,
the opening of the fund and the opening of the market reach, which are all accepted and of which
none sends an order. -/
theorem seed_is_a_run (horizon : 0 < setup.defaultHorizonDays)
    (made : site.seed security setup salt = .ok next) :
    site.Requested (setup.env broker) setup.Asks next :=
  (Site.seed_eq_ok broker made).requested horizon

/-- It has something to do only once: whatever happens after it has gone through, and under
whatever settings it is run again, it leaves everything as it is. -/
theorem seeded_once {Token' : Type} {security' : Security Token'} {setup' : SeedEnv}
    {salt' : String → String} (made : site.seed security setup salt = .ok next)
    (reaches : next.Reaches late) : late.seed security' setup' salt' = .ok late := by
  obtain ⟨adminId, seeded⟩ := (Site.seed_eq_ok (.steady 0 0 []) made).seeded
  exact (seeded.kept reaches.trail).seed

/-- Whoever the script registers can log in with the default password from then on, in any
spelling of the address. Whoever had the address before logs in as before. -/
theorem seeded_members_log_in [Unicode] (documented : security.Documented)
    (made : site.seed security setup salt = .ok next) (reaches : next.Reaches late)
    (keyed : site.Keyed) {entry : SeedMember} (listed : entry ∈ seedMembers) {username : String}
    (named : Python.lower username = entry.email) {env : Env}
    (short : (Nat.toDigits 10 late.db.members.nextId).length ≤ 4300)
    (calendar : Python.InCalendar
      (env.now + security.accessTokenExpireMinutes * 60 * Python.microsPerSecond)) :
    (entry.Unknown site.db → ∃ memberId token,
        late.memberNamed username = some (memberId, entry.toMember) ∧
          late.login security env username defaultPassword = .ok token) ∧
      ∀ memberId member hashed, site.memberNamed username = some (memberId, member) →
        site.hashedPassword memberId = some hashed → ∀ password,
          late.login security env username password =
            site.login security env username password := by
  have done := Site.seed_eq_ok (.steady 0 0 []) made
  constructor
  · intro unknown
    obtain ⟨memberId, member, holds⟩ := done.holds entry listed
    obtain ⟨found, email, new⟩ := holds.later reaches.trail reaches.hashed
    obtain ⟨rfl, hashed⟩ := new keyed unknown
    have search := memberNamed_eq_some.mpr ⟨found, named.symm⟩
    obtain ⟨expires, expiring⟩ := Python.exists_plus_eq_ok.mpr calendar
    have digits : (Nat.toDigits 10 memberId).length ≤ 4300 := by
      rw [Nat.length_toDigits_le_iff (by decide) (by decide)] at short ⊢
      exact (Table.get?_lt found).trans short
    exact ⟨memberId, _, search, login_eq_ok.mpr ⟨_, _, _, toString memberId, search, hashed,
      documented.verify_hash _ _, rfl, if_pos digits,
      createAccessToken_eq_ok.mpr ⟨expires, expiring, rfl⟩⟩⟩
  · intro memberId member hashed search stored password
    obtain ⟨found, email⟩ := memberNamed_eq_some.mp search
    have searchLate : late.memberNamed username = some (memberId, member) :=
      memberNamed_eq_some.mpr ⟨(done.trail.trans reaches.trail).keepsMember found, email⟩
    have storedLate : late.hashedPassword memberId = some hashed :=
      Site.hashedPassword_kept reaches.hashed (Site.hashedPassword_kept done.hashed stored)
    simp only [Site.login, search, searchLate, orRaise, ok_bind, stored, storedLate]

end Again

/-- A database without rows, and the script on it. -/
def emptySite : Site := ⟨.empty, []⟩

def plainSetup : SeedEnv := { now := desk.now }

theorem emptySite_seeds : ∃ next, emptySite.seed plainSecurity plainSetup (fun _ => "") = .ok next ∧
    next.db.members.nextId = 11 :=
  ⟨_, by with_unfolding_all rfl, by with_unfolding_all rfl⟩

theorem seed_is_a_run_empty :
    ∃ next, emptySite.seed plainSecurity plainSetup (fun _ => "") = .ok next ∧
      emptySite.Requested (plainSetup.env desk.broker) plainSetup.Asks next := by
  obtain ⟨next, made, _⟩ := emptySite_seeds
  exact ⟨next, made, seed_is_a_run (by decide) made⟩

/-- The script is run once more, with another horizon, after a second fund has been opened. -/
theorem seeded_once_reopened :
    ∃ next, emptySite.seed plainSecurity plainSetup (fun _ => "") = .ok next ∧
      let late : Site :=
        ⟨stateAfter next.db [.request desk (.createFund "fund" "2" "KIS")], next.hashed⟩
      late.seed plainSecurity { plainSetup with defaultHorizonDays := 7 } (fun _ => "salt") =
        .ok late := by
  obtain ⟨next, made, _⟩ := emptySite_seeds
  exact ⟨next, made, seeded_once made ⟨⟨_, rfl⟩, [], (List.append_nil _).symm⟩⟩

theorem seeded_members_log_in_first :
    ∃ (site : Site) (memberId : ℕ) (token : Payload),
      @Site.memberNamed .asciiOnly site "Admin@study.local" =
          some (memberId, seedAdmin.toMember) ∧
        @Site.login _ plainSecurity .asciiOnly desk site "Admin@study.local" defaultPassword =
          .ok token := by
  obtain ⟨next, made, keys⟩ := emptySite_seeds
  have keyed : emptySite.Keyed := fun row listed => nomatch listed
  have unknown : seedAdmin.Unknown emptySite.db := fun member listed => nomatch listed
  have calendar : Python.InCalendar
      (desk.now + plainSecurity.accessTokenExpireMinutes * 60 * Python.microsPerSecond) :=
    show Python.InCalendar (1704155400000000 + 60 * 12 * 60 * 1000000) by decide
  obtain ⟨memberId, token, named, issued⟩ :=
    (@seeded_members_log_in _ _ _ _ _ _ _ .asciiOnly plainSecurity_documented made (.refl next)
      keyed _ List.mem_cons_self "Admin@study.local" (by decide +kernel) _
      (by rw [keys]; decide) calendar).1 unknown
  exact ⟨next, memberId, token, named, issued⟩

end FundPolymarket
