import FundPolymarket.Balances
import FundPolymarket.BrierScores
import FundPolymarket.Returns

set_option autoImplicit false

/- The balance of a member is read in three ways: by itself, in a list, and on the
leaderboard, which also takes the profits from the same ledger. -/
namespace FundPolymarket

open Redaction (sumOf sumOf_split)

/-- The entries that grant points to a new member. -/
def grantsOf (db : Db) (memberId : ℕ) : List LedgerEntry :=
  db.ledger.contents.filter fun entry =>
    entry.memberId = memberId ∧ entry.entryType = .initialGrant

/-- The ledger holds one grant for every member, and apart from the grants only entries
that count as profit. -/
structure GrantedOnce (db : Db) : Prop where
  kinds : ∀ entry ∈ db.ledger.contents,
    entry.entryType = .initialGrant ∨ entry.entryType.countsAsProfit = true
  known : ∀ entry ∈ db.ledger.contents,
    entry.entryType = .initialGrant → entry.memberId < db.members.nextId
  single : ∀ row ∈ db.members.rows, ∃ grant, grantsOf db row.1 = [grant]

section Step

variable {env : Env} {db next : Db} {request : Request} {writes : List Write}

/-- Only a registration writes entries that are not profit. -/
theorem Commits.profits (committed : Commits env db request writes)
    (notCreate : ∀ payload, request ≠ .createMember payload) :
    ∀ entry ∈ insertedRows .ledger writes, entry.entryType.countsAsProfit = true := by
  intro entry member
  have writesLedger := committed.table_of_row member
  cases committed with
  | createMember => exact absurd rfl (notCreate _)
  | createFund | createMarket | closeMarket | createDecision | approveDecision | rejectDecision
  | resolveMarket | syncFund => simp [Request.tables] at writesLedger
  | putAllocation _ _ refunded _ locked =>
      rw [allocation_rows] at member
      rcases List.mem_append.mp member with refund | lock
      · rw [(refund_recorded refunded entry refund).entryType_eq]
        rfl
      · rw [List.mem_singleton.mp lock, (record_eq_ok locked).entryType_eq]
        rfl
  | settleMarket _ _ _ _ recorded _ =>
      rw [settlement_rows] at member
      obtain ⟨pair, _, row⟩ := forall₂_exists_left (payouts_recorded recorded) member
      rw [row.entryType_eq]
      rfl
  | cancelMarket _ _ _ recorded =>
      rw [cancellation_rows] at member
      obtain ⟨pair, _, row⟩ := forall₂_exists_left (refunds_recorded recorded) member
      rw [row.entryType_eq]
      rfl

theorem grantsOf_append {entries : List LedgerEntry}
    (ledger : next.ledger.contents = db.ledger.contents ++ entries) (memberId : ℕ) :
    grantsOf next memberId = grantsOf db memberId ++ entries.filter fun entry =>
      entry.memberId = memberId ∧ entry.entryType = .initialGrant := by
  rw [grantsOf, grantsOf, ledger, List.filter_append]

/-- A member who is not registered yet has no grant. -/
theorem GrantedOnce.none_granted (granted : GrantedOnce db) :
    grantsOf db db.members.nextId = [] := by
  refine filter_absent_nil fun entry member => ?_
  rw [decide_eq_false_iff_not]
  rintro ⟨owner, kind⟩
  exact absurd (granted.known entry member kind) (by omega)

/-- A registration adds a member and the one grant. -/
theorem GrantedOnce.registered (granted : GrantedOnce db) {row : Member} {grant : LedgerEntry}
    (owner : grant.memberId = db.members.nextId) (kind : grant.entryType = .initialGrant)
    (members : next.members.toTable = db.members.toTable.insert row)
    (ledger : next.ledger.contents = db.ledger.contents ++ [grant]) : GrantedOnce next where
  kinds := by
    intro entry member
    rw [ledger, List.mem_append, List.mem_singleton] at member
    rcases member with old | rfl
    · exact granted.kinds entry old
    · exact .inl kind
  known := by
    intro entry member isGrant
    rw [members]
    rw [ledger, List.mem_append, List.mem_singleton] at member
    rcases member with old | rfl
    · exact (granted.known entry old isGrant).trans (Nat.lt_succ_self _)
    · rw [owner]
      exact Nat.lt_succ_self _
  single := by
    intro listed member
    rw [members] at member
    rw [grantsOf_append ledger]
    rcases List.mem_append.mp member with old | fresh
    · obtain ⟨earlier, only⟩ := granted.single listed old
      have differs : db.members.nextId ≠ listed.1 := (db.members.below listed old).ne'
      exact ⟨earlier, by simp [only, owner, differs]⟩
    · rw [List.mem_singleton.mp fresh, granted.none_granted]
      exact ⟨grant, by simp [owner, kind]⟩

/-- Without a registration the ledger only grows by profits and losses. -/
theorem GrantedOnce.unregistered (granted : GrantedOnce db) {entries : List LedgerEntry}
    (members : next.members.toTable = db.members.toTable)
    (ledger : next.ledger.contents = db.ledger.contents ++ entries)
    (profits : ∀ entry ∈ entries, entry.entryType.countsAsProfit = true) : GrantedOnce next := by
  have noGrant : ∀ memberId, grantsOf next memberId = grantsOf db memberId := by
    intro memberId
    rw [grantsOf_append ledger, filter_absent_nil, List.append_nil]
    intro entry member
    have profit := profits entry member
    rw [decide_eq_false_iff_not]
    rintro ⟨_, kind⟩
    rw [kind] at profit
    cases profit
  refine ⟨fun entry member => ?_, fun entry member kind => ?_, fun row member => ?_⟩
  · rcases List.mem_append.mp (ledger ▸ member) with old | new
    · exact granted.kinds entry old
    · exact .inr (profits entry new)
  · rcases List.mem_append.mp (ledger ▸ member) with old | new
    · rw [members]
      exact granted.known entry old kind
    · have profit := profits entry new
      rw [kind] at profit
      cases profit
  · rw [members] at member
    rw [noGrant]
    exact granted.single row member

theorem Commits.grantedOnce (committed : Commits env db request writes)
    (applied : applyWrites db writes = .ok next) (granted : GrantedOnce db) : GrantedOnce next := by
  have ledger := applyWrites_ledger applied
  by_cases create : ∃ payload, request = .createMember payload
  · obtain ⟨payload, rfl⟩ := create
    have members := applyWrites_table applied .members
    cases committed with
    | createMember recorded =>
        have grant := record_eq_ok recorded
        exact granted.registered grant.memberId_eq grant.entryType_eq members ledger
  · push Not at create
    have members : next.members.toTable = db.members.toTable :=
      committed.frame applied .members (by cases request <;> simp_all [Request.tables])
    exact granted.unregistered members ledger (committed.profits create)

/-- In every state of a run, every member has been granted points once. -/
theorem grantedOnce_stateAfter (events : List Event) :
    GrantedOnce (stateAfter Db.empty events) := by
  refine requests_invariant (fun _ _ _ _ _ => trivial)
    (fun _ _ _ _ _ _ _ committed applied before => committed.grantedOnce applied before) ?_ events
    (fun _ _ => trusts_anything _) fun s _ => s.meets_anything
  exact ⟨by simp [Db.empty], by simp [Db.empty], by simp [Db.empty, UniqueTable.empty, Table.empty]⟩

end Step

section Views

variable {db : Db}

/-- What a member owns is what has been granted and what counts as profit. -/
theorem GrantedOnce.balance_eq (granted : GrantedOnce db) (memberId : ℕ) :
    getBalance db memberId = sumOf (fun entry : LedgerEntry =>
        entry.memberId = memberId ∧ entry.entryType.countsAsProfit) (fun entry => entry.amount.val)
        db.ledger.contents + amounts (grantsOf db memberId) := by
  have split := sumOf_split (fun entry : LedgerEntry => decide (entry.entryType = .initialGrant))
    (fun entry => decide (entry.memberId = memberId)) (fun entry => entry.amount.val)
    db.ledger.contents
  have profits : ∀ entry ∈ db.ledger.contents,
      (decide (entry.memberId = memberId) && !decide (entry.entryType = .initialGrant)) =
        decide (entry.memberId = memberId ∧ entry.entryType.countsAsProfit) := by
    intro entry member
    rcases granted.kinds entry member with kind | kind
    · simp [kind, LedgerEntryType.countsAsProfit]
    · have other : entry.entryType ≠ .initialGrant := by
        intro grant
        rw [grant] at kind
        cases kind
      simp [kind, other]
  rw [getBalance, amounts, grantsOf]
  refine split.trans (congrArg₂ (· + ·) ?_ ?_)
  · rw [sumOf, sumOf, List.filter_congr profits]
  · simp only [sumOf, Bool.decide_and]

/-- What the leaderboard shows of a member: the balance, and what it is beyond the grant. -/
structure Shows (db : Db) (row : ℕ × Member) (score : MemberScore) : Prop where
  memberId_eq : score.memberId = row.1
  balance_eq : score.balance = getBalance db row.1
  netProfit_eq : ∃ grant, grantsOf db row.1 = [grant] ∧
    score.netProfit = score.balance - grant.amount.val

/-- The balances of a list, the balance of one member and the leaderboard agree. -/
structure ViewsAgree (db : Db) : Prop where
  listed : ∀ memberIds memberId, Tally.get? (getBalances db memberIds) memberId =
    if memberId ∈ memberIds then some (getBalance db memberId) else none
  absent : ∀ memberId, memberId ∉ db.ledger.contents.map LedgerEntry.memberId →
    getBalance db memberId = 0
  ranked : ∃ scores, leaderboard db = .ok scores ∧
    (∀ row ∈ db.members.select Member.isActive, ∃ score ∈ scores, Shows db row score) ∧
    ∀ score ∈ scores, ∃ row ∈ db.members.select Member.isActive, Shows db row score

theorem GrantedOnce.shows (granted : GrantedOnce db) (keys : ∀ row ∈ db.ledger.rows, row.1 < 2 ^ 31)
    {row : ℕ × Member} (member : row ∈ db.members.select Member.isActive) {score : MemberScore}
    (memberId : score.memberId = row.1)
    (balance : score.balance = Tally.get (getBalances db
      ((db.members.select Member.isActive).map Prod.fst)) row.1)
    (netProfit : score.netProfit = Tally.get (netProfits db
      ((db.members.select Member.isActive).map Prod.fst)) row.1) : Shows db row score := by
  have key := @List.mem_map_of_mem _ _ _ _ Prod.fst member
  rw [get_getBalances key] at balance
  rw [get_netProfits key, netProfit_stored keys] at netProfit
  obtain ⟨grant, only⟩ := granted.single row (List.mem_filter.mp member).1
  have split := granted.balance_eq row.1
  rw [only, amounts_singleton] at split
  exact ⟨memberId, balance, grant, only, by linarith⟩

theorem GrantedOnce.viewsAgree (granted : GrantedOnce db) (nonneg : StakesNonneg db)
    (keys : ∀ row ∈ db.ledger.rows, row.1 < 2 ^ 31) : ViewsAgree db where
  listed := get?_getBalances db
  absent := fun _ => getBalance_of_absent
  ranked := by
    obtain ⟨scores, sorted, listed⟩ := leaderboard_eq_ok nonneg
    have ranks : ∀ score, score ∈ scores.insertionSort (fun first second =>
        first.key ≤ second.key) ↔ score ∈ scores :=
      fun score => (List.perm_insertionSort _ _).mem_iff
    refine ⟨_, sorted, fun row member => ?_, fun score member => ?_⟩
    · obtain ⟨score, scoreMember, memberId, balance, netProfit, _⟩ :=
        forall₂_exists_left listed.flip member
      exact ⟨score, (ranks score).mpr scoreMember,
        granted.shows keys member memberId balance netProfit⟩
    · obtain ⟨row, rowMember, memberId, balance, netProfit, _⟩ :=
        forall₂_exists_left listed ((ranks score).mp member)
      exact ⟨row, rowMember, granted.shows keys rowMember memberId balance netProfit⟩

end Views

/-- In every state that a run reaches, while the keys of the ledger are 32-bit integers. -/
theorem balance_views_agree (events : List Event)
    (keys : ∀ row ∈ (stateAfter Db.empty events).ledger.rows, row.1 < 2 ^ 31) :
    ViewsAgree (stateAfter Db.empty events) :=
  (grantedOnce_stateAfter events).viewsAgree
    (stakesNonneg_stateAfter stakesNonneg_empty events) keys

theorem balance_views_agree_opened : ViewsAgree (stateAfter Db.empty openedMarket) :=
  balance_views_agree openedMarket (by decide +kernel)

end FundPolymarket
