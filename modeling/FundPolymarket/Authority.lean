import FundPolymarket.Logins
import FundPolymarket.Resubmission

set_option autoImplicit false

/- What the accounts of ordinary members are good for: where no admin logs in, the calls leave
everything alone but the bets and the ledger entries of the member who calls, and no order is
sent, whatever the scheduler does in between. -/
namespace FundPolymarket

open Python (Unicode)

namespace ApiCall

variable {Token : Type}

def isTick : ApiCall Token → Bool
  | .tick _ _ _ => true
  | .login _ _ | .read _ _ | .write _ _ _ => false

end ApiCall

/-- The bets and the ledger entries of a member. -/
def heldRows (db : Db) (memberId : ℕ) : List (ℕ × Bet) × List LedgerEntry :=
  (db.bets.rows.filter fun row => row.2.memberId = memberId,
    db.ledger.contents.filter fun entry => entry.memberId = memberId)

section Authority

variable {Token : Type} (security : Security Token) [Unicode]

/-- Nobody who logs in is an admin. -/
def NoAdmin (run : List (Exchange Token)) : Prop :=
  ∀ l ∈ run, ∀ memberId member token,
    l.LogsIn security memberId member token → member.role ≠ .admin

/-- The call changes no row but the bets and the entries of the member whom it acts for. -/
structure OwnRowsOnly (before : List (Exchange Token)) (x : Exchange Token) : Prop where
  hashed : (x.reply security).site.hashed = x.pre.hashed
  tables : ∀ name, name ≠ .bets → name ≠ .ledger →
    (x.reply security).site.db.table name = x.pre.db.table name
  others : ∀ memberId, (∀ member, ¬ ActsFor security before x memberId member) →
    heldRows (x.reply security).site.db memberId = heldRows x.pre.db memberId

end Authority

section Allocations

variable {db next : Db} {marketId memberId owner : ℕ}

theorem OthersKept.heldRows (kept : OthersKept marketId owner db next) (other : memberId ≠ owner) :
    heldRows next memberId = FundPolymarket.heldRows db memberId := by
  have through : ∀ state : Db, (state.bets.rows.filter fun row => row.2.memberId = memberId) =
      (state.bets.rows.filter fun row =>
        !decide (row.2.marketId = marketId ∧ row.2.memberId = owner)).filter
          fun row => row.2.memberId = memberId := by
    intro state
    rw [List.filter_filter]
    refine List.filter_congr fun row _ => ?_
    by_cases own : row.2.memberId = memberId
    · simp [own, other]
    · simp [own]
  obtain ⟨entries, ledger, owned⟩ := kept.ledger
  have none : (entries.filter fun entry => entry.memberId = memberId) = [] := by
    refine List.filter_eq_nil_iff.mpr fun entry member => ?_
    rw [(owned entry member).1]
    simpa using other.symm
  rw [FundPolymarket.heldRows, FundPolymarket.heldRows, through next, kept.bets, ← through db,
    ledger, List.filter_append, none, List.append_nil]

/-- An allocation sends nothing, and touches the rows of its member alone. -/
theorem serve_allocation (env : Env) (nonneg : StakesNonneg db) (allocation : Allocation)
    (rationale : Option String) :
    (serve env (.putAllocation marketId owner allocation rationale) db).sent = [] ∧
      OthersKept marketId owner db
        (serve env (.putAllocation marketId owner allocation rationale) db).db := by
  refine ⟨?_, Call.others_kept nonneg ⟨env, allocation, rationale⟩⟩
  rw [serve_sent]
  refine List.eq_nil_iff_forall_not_mem.mpr fun sent member => ?_
  obtain ⟨_, _, _, sends⟩ := handle_sent member
  obtain ⟨_, approval⟩ := sends.approval
  cases approval

end Allocations

section Calls

variable {Token : Type} {security : Security Token} [Unicode] {site : Site}
  {calls : List (Env × ApiCall Token)} {before after : List (Exchange Token)}
  {x : Exchange Token} {memberId : ℕ} {member : Member}

theorem OwnRowsOnly.of_same (same : (x.reply security).site = x.pre) :
    OwnRowsOnly security before x :=
  ⟨by rw [same], fun _ _ _ => by rw [same], fun _ _ => by rw [same]⟩

/-- A member who is no admin reaches allocations only. -/
theorem ActsFor.ownRowsOnly (acts : ActsFor security before x memberId member)
    (notAdmin : member.role ≠ .admin) (nonneg : StakesNonneg x.pre.db)
    (guarded : x.call.guarded = true)
    (reply : x.reply security = x.actingAs security memberId) :
    (x.reply security).sent = [] ∧ OwnRowsOnly security before x := by
  have ordinary : x.call.adminOnly = false :=
    Bool.eq_false_of_not_eq_true fun admin => notAdmin (acts.role admin)
  obtain ⟨env, call, pre⟩ := x
  cases call with
  | login | tick => cases guarded
  | read token request =>
      rw [reply]
      exact ⟨rfl, .of_same (by rw [reply]; rfl)⟩
  | write token route salt =>
      cases route with
      | putAllocation marketId allocation rationale =>
          obtain ⟨silent, kept⟩ := @serve_allocation pre.db marketId memberId env nonneg allocation
            rationale
          have db := (@Site.write_db _ security _ env pre memberId
            (.putAllocation marketId allocation rationale) salt)
          have hashed : (pre.write security env memberId
              (.putAllocation marketId allocation rationale) salt).site.hashed = pre.hashed := by
            unfold Site.write
            dsimp only
            split
            · rfl
            · exact List.append_nil _
          have reached : (Exchange.reply security
              ⟨env, .write token (.putAllocation marketId allocation rationale) salt, pre⟩) =
              pre.write security env memberId (.putAllocation marketId allocation rationale) salt :=
            reply
          refine ⟨by rw [reached, db.2]; exact silent, by rw [reached]; exact hashed, ?_, ?_⟩
          · intro name bets ledger
            rw [reached, db.1]
            exact kept.tables name bets ledger
          · intro other absent
            rw [reached, db.1]
            refine kept.heldRows ?_
            rintro rfl
            exact absent member acts
      | _ => cases ordinary

/-- Where no admin logs in, no call and no tick ever sends an order, and a call changes no more
than the bets and the ledger entries of the member who has logged in for its token. -/
theorem members_change_own_rows (documented : security.Documented)
    (unforged : Unforged security [] (exchanges security site calls))
    (noAdmin : NoAdmin security (exchanges security site calls)) (nonneg : StakesNonneg site.db)
    (split : exchanges security site calls = before ++ x :: after) :
    (x.reply security).sent = [] ∧ (x.call.isTick = false → OwnRowsOnly security before x) := by
  have reached := exchanges_pre site calls x (by rw [split]; simp)
  obtain ⟨events, db⟩ := reached.db
  have kept : StakesNonneg x.pre.db := db ▸ stakesNonneg_stateAfter nonneg events
  cases guarded : x.call.guarded with
  | true =>
      cases current : x.current security with
      | error exc =>
          obtain ⟨exc, refused⟩ := Exchange.reply_refused guarded current
          exact ⟨by rw [refused], fun _ => .of_same (by rw [refused])⟩
      | ok found =>
          obtain ⟨memberId, member⟩ := found
          have acts := (current_iff_actsFor documented unforged split).mp current
          obtain ⟨l, earlier, token, _, login, _⟩ := acts.login
          have ordinary := noAdmin l (by rw [split]; simp [earlier]) _ _ _ login
          have own := acts.ownRowsOnly ordinary kept guarded
            (Exchange.reply_acting guarded current)
          exact ⟨own.1, fun _ => own.2⟩
  | false =>
      obtain ⟨env, call, pre⟩ := x
      cases call with
      | login => exact ⟨rfl, fun _ => .of_same rfl⟩
      | tick => exact ⟨rfl, fun tick => by cases tick⟩
      | read | write => cases guarded

end Calls

/-- The member of an open market, who is no admin. -/
def ordinarySite : Site := ⟨stateAfter Db.empty openedMarket, [(1, "$word")]⟩

def ordinaryToken : Payload := issuedPayload "1" .member 1704155400 1704198600

def ordinaryLogin : Exchange Payload := ⟨desk, .login "a@example.com" "word", ordinarySite⟩

/-- The stake moves to SELL. -/
def changedMind : Exchange Payload :=
  ⟨desk, .write (some ordinaryToken)
    (.putAllocation 1 ⟨[(.sell, 50)], List.nodup_singleton _⟩ none) "", ordinarySite⟩

theorem ordinaryLogin_token :
    @Site.login _ plainSecurity .asciiOnly desk ordinarySite "a@example.com" "word" =
      .ok ordinaryToken := by
  refine (@login_eq_ok _ _ _ _ _ .asciiOnly _ _).mpr
    ⟨1, { email := "a@example.com", name := "a" }, "$word", "1",
    (@memberNamed_eq_some _ _ _ .asciiOnly _).mpr ⟨by with_unfolding_all rfl, by decide +kernel⟩,
    rfl, by decide +kernel, rfl, by decide +kernel,
    createAccessToken_eq_ok.mpr ⟨_, Python.plus_eq_ok.mpr ⟨by decide, rfl⟩, ?_⟩⟩
  rfl

theorem changedMind_unforged :
    @Unforged _ plainSecurity .asciiOnly [] [ordinaryLogin, changedMind] := by
  refine And.intro (fun token presented => ?_) (And.intro (fun token presented _ => ?_) trivial)
  · cases presented
  · cases presented
    exact ⟨ordinaryLogin, List.mem_singleton_self _,
      congrArg (Except.map Answer.token) ordinaryLogin_token⟩

theorem changedMind_noAdmin :
    @NoAdmin _ plainSecurity .asciiOnly [ordinaryLogin, changedMind] := by
  have roles : ∀ row ∈ ordinarySite.db.members.contents, row.role = .member := by decide +kernel
  intro l listed memberId member token login
  rcases List.mem_pair.mp listed with rfl | rfl
  · have found := @Exchange.LogsIn.found _ _ .asciiOnly _ _ _ _ login
    rw [roles member (Table.get?_mem_contents found)]
    exact Role.noConfusion
  · obtain ⟨_, _, _, called, _⟩ := @Exchange.LogsIn.credentials _ _ .asciiOnly _ _ _ _ login
    cases called

theorem members_change_own_rows_changed :
    (@Exchange.reply _ plainSecurity .asciiOnly changedMind).sent = [] ∧
      (changedMind.call.isTick = false →
        @OwnRowsOnly _ plainSecurity .asciiOnly [ordinaryLogin] changedMind) :=
  @members_change_own_rows _ plainSecurity .asciiOnly ordinarySite
    [(desk, ordinaryLogin.call), (desk, changedMind.call)] [ordinaryLogin] [] changedMind
    plainSecurity_documented changedMind_unforged changedMind_noAdmin
    (stakesNonneg_stateAfter stakesNonneg_empty openedMarket) rfl

end FundPolymarket
