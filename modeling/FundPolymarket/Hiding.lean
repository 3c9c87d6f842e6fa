import FundPolymarket.Balances
import FundPolymarket.DecisionGate
import FundPolymarket.Redaction
import FundPolymarket.Views

set_option autoImplicit false

/- What a member can read of the bets of others while a market is OPEN. -/
namespace FundPolymarket

open Decimal (Numeric Scaled)
open Redaction (AgreeOutside sumOf)

section Relation

variable (db : Db)

def isOpen (marketId : ℕ) : Bool :=
  (db.markets.get? marketId).any fun market => market.status = .open

/-- A bet of the owner on a market that is OPEN. -/
def openBet (owner : ℕ) (bet : Bet) : Bool := bet.memberId = owner ∧ isOpen db bet.marketId

/-- A lock for such a bet, or the refund of one that was replaced. -/
def openLock (owner : ℕ) (entry : LedgerEntry) : Bool :=
  entry.memberId = owner ∧ (entry.entryType = .betLock ∨ entry.entryType = .betRefund) ∧
    entry.marketId.any (isOpen db)

/-- The stakes of a member on all markets that are OPEN. -/
def openStake (owner : ℕ) : ℚ := staked (db.bets.contents.filter (openBet db owner))

def locked (owner : ℕ) : ℚ := amounts (db.ledger.contents.filter (openLock db owner))

def hiddenBet (reader : ℕ) (bet : Bet) : Bool :=
  bet.memberId ≠ reader ∧ openBet db bet.memberId bet

def hiddenEntry (reader : ℕ) (entry : LedgerEntry) : Bool :=
  entry.memberId ≠ reader ∧ openLock db entry.memberId entry

end Relation

/-- Two states that differ in how the bets on OPEN markets, and the locks for them, are
distributed among the other members: with the same stake on every outcome and the same
number of participants. -/
structure Redistributed (reader : ℕ) (first second : Db) : Prop where
  tables : ∀ name, name ≠ .bets → name ≠ .ledger → first.table name = second.table name
  bets : AgreeOutside (fun row : ℕ × Bet => hiddenBet first reader row.2) first.bets.rows
    second.bets.rows
  ledger : AgreeOutside (fun row : ℕ × LedgerEntry => hiddenEntry first reader row.2)
    first.ledger.rows second.ledger.rows
  stakes : ∀ row ∈ first.markets.rows, row.2.status = .open →
    outcomeStake first row.1 = outcomeStake second row.1
  participants : ∀ row ∈ first.markets.rows, row.2.status = .open →
    participantCount (loadStakes first row.1) = participantCount (loadStakes second row.1)
  locks : ∀ row ∈ first.members.rows, row.1 ≠ reader →
    locked first row.1 = -openStake first row.1 ∧ locked second row.1 = -openStake second row.1

section Reads

variable {reader : ℕ} {first second : Db}

namespace Redistributed

theorem markets_eq (related : Redistributed reader first second) :
    first.markets = second.markets := related.tables .markets (by decide) (by decide)

theorem decisions_eq (related : Redistributed reader first second) :
    first.decisions = second.decisions := related.tables .decisions (by decide) (by decide)

theorem orders_eq (related : Redistributed reader first second) :
    first.orders = second.orders := related.tables .orders (by decide) (by decide)

theorem funds_eq (related : Redistributed reader first second) :
    first.funds = second.funds := related.tables .funds (by decide) (by decide)

theorem members_eq (related : Redistributed reader first second) :
    first.members.toTable = second.members.toTable :=
  related.tables .members (by decide) (by decide)

theorem positions_eq (related : Redistributed reader first second) :
    first.positions.toTable = second.positions.toTable :=
  related.tables .positions (by decide) (by decide)

theorem isOpen_eq (related : Redistributed reader first second) (marketId : ℕ) :
    isOpen first marketId = isOpen second marketId := by
  rw [isOpen, isOpen, related.markets_eq]

/-- What is selected of the bets without a hidden one. -/
theorem select_bets (related : Redistributed reader first second) {keep : Bet → Bool}
    (visible : ∀ bet, keep bet = true → hiddenBet first reader bet = false) :
    first.bets.select keep = second.bets.select keep :=
  related.bets.filter_eq fun row => visible row.2

theorem own_bets (related : Redistributed reader first second) (marketId : ℕ) :
    existingBets first marketId reader = existingBets second marketId reader :=
  related.select_bets fun bet kept => by
    simp [hiddenBet, (of_decide_eq_true kept).2]

theorem closed_bets (related : Redistributed reader first second) {marketId : ℕ}
    (closed : isOpen first marketId = false) {keep : Bet → Bool}
    (mine : ∀ bet, keep bet = true → bet.marketId = marketId) :
    first.bets.select keep = second.bets.select keep :=
  related.select_bets fun bet kept => by simp [hiddenBet, openBet, mine bet kept, closed]

end Redistributed

theorem stakeByOutcome_stored {db : Db} (keys : IntegerKeys db) (marketId : ℕ) :
    stakeByOutcome (loadStakes db marketId) = outcomeStake db marketId := by
  funext outcome
  have rows : winners (loadStakes db marketId) outcome =
      ((db.betsOf marketId).filter fun row => row.2.outcome = outcome ∧ 0 < row.2.stake.val).map
        fun row => row.2.toStake := by
    rw [winners, loadStakes, List.filter_map]
    rfl
  rw [stakeByOutcome_eq, winningPool, outcomeStake, pool, rows, List.map_map]
  have values := @sum_points_exact (((db.betsOf marketId).filter fun row =>
    row.2.outcome = outcome ∧ 0 < row.2.stake.val).map fun row => row.2.stake) ?_
  · rw [List.map_map] at values
    exact values
  · rw [List.length_map]
    exact (List.length_filter_le _ _).trans
      ((List.length_filter_le _ _).trans (Table.length_le_of_keys keys.1))

theorem isOpen_iff {db : Db} {marketId : ℕ} :
    isOpen db marketId = true ↔ ∃ market, (marketId, market) ∈ db.markets.rows ∧
      market.status = .open := by
  simp only [isOpen, Option.any_eq_true, decide_eq_true_eq, Table.mem_rows_iff]

namespace Redistributed

theorem getConsensus_eq (related : Redistributed reader first second)
    (firstKeys : IntegerKeys first) (secondKeys : IntegerKeys second) (marketId : ℕ) :
    getConsensus first marketId = getConsensus second marketId := by
  cases status : isOpen first marketId with
  | false =>
      have same : first.betsOf marketId = second.betsOf marketId :=
        related.closed_bets status fun bet kept => of_decide_eq_true kept
      rw [getConsensus, getConsensus, loadStakes, loadStakes, same]
  | true =>
      obtain ⟨market, listed, open_⟩ := isOpen_iff.mp status
      apply computeConsensus_congr
      · rw [stakeByOutcome_stored firstKeys, stakeByOutcome_stored secondKeys]
        exact related.stakes _ listed open_
      · exact related.participants _ listed open_

theorem getMarket_eq (related : Redistributed reader first second) (firstKeys : IntegerKeys first)
    (secondKeys : IntegerKeys second) (marketId : ℕ) :
    Api.getMarket first reader marketId = Api.getMarket second reader marketId := by
  have own : (first.betsOf marketId).filter (fun row => row.2.memberId = reader) =
      (second.betsOf marketId).filter fun row => row.2.memberId = reader := by
    have rows := related.own_bets marketId
    simpa only [existingBets, Db.betsOf, Table.select, List.filter_filter, Bool.decide_and,
      Bool.and_comm] using rows
  rw [Api.getMarket, Api.getMarket, FundPolymarket.getMarket, FundPolymarket.getMarket,
    related.markets_eq, related.getConsensus_eq firstKeys secondKeys]
  cases found : second.markets.get? marketId with
  | none => rfl
  | some market =>
      by_cases status : market.status = .open
      · simp only [orRaise, bind, Except.bind, status, ne_eq, not_true_eq_false, ↓reduceIte, own]
      · have closed : isOpen first marketId = false := by
          simp [isOpen, related.markets_eq, found, status]
        have all : first.betsOf marketId = second.betsOf marketId :=
          related.closed_bets closed fun bet kept => of_decide_eq_true kept
        rw [all]

theorem entries (related : Redistributed reader first second) :
    AgreeOutside (hiddenEntry first reader) first.ledger.contents second.ledger.contents :=
  related.ledger.map

theorem own_entries (related : Redistributed reader first second) :
    (first.ledger.rows.filter fun row => row.2.memberId = reader) =
      second.ledger.rows.filter fun row => row.2.memberId = reader :=
  related.ledger.filter_eq fun row kept => by simp [hiddenEntry, of_decide_eq_true kept]

theorem own_balance (related : Redistributed reader first second) :
    getBalance first reader = getBalance second reader := by
  rw [getBalance, getBalance, related.entries.filter_eq]
  intro entry kept
  simp [hiddenEntry, of_decide_eq_true kept]

theorem openStake_reader (related : Redistributed reader first second) :
    openStake first reader = openStake second reader := by
  have same : openBet first reader = openBet second reader := by
    funext bet
    rw [openBet, openBet, related.isOpen_eq]
  have visible : AgreeOutside (hiddenBet first reader) first.bets.contents second.bets.contents :=
    related.bets.map
  rw [openStake, openStake, ← same, visible.filter_eq]
  intro bet kept
  simp [hiddenBet, (of_decide_eq_true kept).1]

theorem openLock_eq (related : Redistributed reader first second) (owner : ℕ) :
    openLock first owner = openLock second owner := by
  funext entry
  rw [openLock, openLock, funext related.isOpen_eq]

/-- A sum over the ledger that counts a member's locks on OPEN markets shows exactly what
the member has staked on them. -/
theorem sumOf_ledger_eq_iff (related : Redistributed reader first second) {row : ℕ × Member}
    (listed : row ∈ first.members.rows) (keep : LedgerEntry → Bool)
    (counts : ∀ entry, (keep entry && hiddenEntry first reader entry) =
      (decide (row.1 ≠ reader) && openLock first row.1 entry)) :
    sumOf keep (fun entry => entry.amount.val) first.ledger.contents =
        sumOf keep (fun entry => entry.amount.val) second.ledger.contents ↔
      openStake first row.1 = openStake second row.1 := by
  rw [related.entries.sumOf_eq_iff]
  simp only [counts]
  by_cases own : row.1 = reader
  · simp only [own, ne_eq, not_true_eq_false, decide_false, Bool.false_and]
    exact iff_of_true (by simp [sumOf]) related.openStake_reader
  · obtain ⟨firstLocked, secondLocked⟩ := related.locks row listed own
    simp only [own, ne_eq, not_false_eq_true, decide_true, Bool.true_and]
    rw [show sumOf (fun entry => openLock first row.1 entry) _ first.ledger.contents = _ from
      firstLocked, related.openLock_eq, show sumOf (fun entry => openLock second row.1 entry) _
      second.ledger.contents = _ from secondLocked, neg_inj]

theorem balance_eq_iff (related : Redistributed reader first second) {row : ℕ × Member}
    (listed : row ∈ first.members.rows) :
    getBalance first row.1 = getBalance second row.1 ↔
      openStake first row.1 = openStake second row.1 := by
  refine related.sumOf_ledger_eq_iff listed (fun entry => entry.memberId = row.1) ?_
  intro entry
  by_cases mine : entry.memberId = row.1
  · simp [hiddenEntry, mine]
  · simp [openLock, mine]

theorem netProfit_eq_iff (related : Redistributed reader first second)
    (firstKeys : IntegerKeys first) (secondKeys : IntegerKeys second) {row : ℕ × Member}
    (listed : row ∈ first.members.rows) :
    netProfit first row.1 = netProfit second row.1 ↔
      openStake first row.1 = openStake second row.1 := by
  rw [netProfit_stored firstKeys.2, netProfit_stored secondKeys.2]
  refine related.sumOf_ledger_eq_iff listed _ ?_
  intro entry
  by_cases mine : entry.memberId = row.1
  · cases type : entry.entryType <;>
      simp [hiddenEntry, openLock, mine, type, LedgerEntryType.countsAsProfit]
  · simp [openLock, mine]

theorem participations_eq (related : Redistributed reader first second) (owner : ℕ) :
    participations first owner = participations second owner := by
  have markets : settledMarkets first = settledMarkets second := by
    rw [settledMarkets, settledMarkets, related.markets_eq]
  rw [participations, participations, ← markets]
  apply List.filterMap_congr
  intro row listed
  have settled : isOpen first row.1 = false := by
    obtain ⟨member, status⟩ := List.mem_filter.mp listed
    have found := (first.markets.mem_rows_iff row.1 row.2).mp member
    simp [isOpen, found, of_decide_eq_true status]
  have bets : existingBets first row.1 owner = existingBets second row.1 owner :=
    related.closed_bets settled fun bet kept => (of_decide_eq_true kept).1
  rw [bets]

theorem leaderboard_eq (related : Redistributed reader first second)
    (firstKeys : IntegerKeys first) (secondKeys : IntegerKeys second)
    (same : ∀ row ∈ first.members.rows, openStake first row.1 = openStake second row.1) :
    leaderboard first = leaderboard second := by
  have active : first.members.select Member.isActive = second.members.select Member.isActive := by
    rw [related.members_eq]
  have scores : ∀ row ∈ second.members.select Member.isActive,
      memberScore first
          (getBalances first ((second.members.select Member.isActive).map Prod.fst))
          (netProfits first ((second.members.select Member.isActive).map Prod.fst)) row =
        memberScore second
          (getBalances second ((second.members.select Member.isActive).map Prod.fst))
          (netProfits second ((second.members.select Member.isActive).map Prod.fst)) row := by
    intro row listed
    have key := @List.mem_map_of_mem _ _ _ _ Prod.fst listed
    have member : row ∈ first.members.rows :=
      (List.mem_filter.mp (active ▸ listed : row ∈ first.members.select Member.isActive)).1
    rw [memberScore, memberScore, related.participations_eq, get_getBalances key,
      get_getBalances key, get_netProfits key, get_netProfits key,
      (related.balance_eq_iff member).mpr (same row member),
      (related.netProfit_eq_iff firstKeys secondKeys member).mpr (same row member)]
  rw [leaderboard, leaderboard, active]
  rw [mapM_congr scores]

theorem listMembers_eq_iff (related : Redistributed reader first second) :
    Api.listMembers first = Api.listMembers second ↔
      ∀ row ∈ first.members.rows, openStake first row.1 = openStake second row.1 := by
  have listed : ∀ row, row ∈ byId first.members.rows ↔ row ∈ first.members.rows := by
    intro row
    rw [byId, (List.perm_insertionSort _ _).mem_iff]
  have balance : ∀ db, ∀ row ∈ byId first.members.rows,
      Tally.get (getBalances db ((byId first.members.rows).map Prod.fst)) row.1 =
        getBalance db row.1 := fun db row member => get_getBalances (List.mem_map_of_mem member)
  rw [Api.listMembers, Api.listMembers, ← related.members_eq]
  rw [List.map_inj_left]
  constructor
  · intro same row member
    have sorted := (listed row).mpr member
    have shown := congrArg MemberWithBalance.balance (same row sorted)
    rw [memberWithBalance, memberWithBalance, balance first row sorted,
      balance second row sorted] at shown
    exact (related.balance_eq_iff member).mp shown
  · intro same row sorted
    have member := (listed row).mp sorted
    rw [balance first row sorted, balance second row sorted,
      (related.balance_eq_iff member).mpr (same row member)]

theorem getCurrentMember_eq (related : Redistributed reader first second) :
    getCurrentMember first reader = getCurrentMember second reader := by
  rw [getCurrentMember, getCurrentMember, related.members_eq]

theorem respond_listMembers_iff (related : Redistributed reader first second)
    (active : ∃ member ∈ first.members.get? reader, member.isActive = true) :
    respond first reader .listMembers = respond second reader .listMembers ↔
      ∀ row ∈ first.members.rows, openStake first row.1 = openStake second row.1 := by
  obtain ⟨member, found, isActive⟩ := active
  have current : getCurrentMember first reader = .ok member := by
    rw [getCurrentMember, Option.mem_def.mp found]
    simp [orRaise, raiseIf, isActive, bind, Except.bind, pure, Except.pure]
  rw [← related.listMembers_eq_iff, respond, respond, ← related.getCurrentMember_eq, current]
  exact ⟨fun same => Response.members.inj (Except.ok.inj same), fun same => by rw [same]⟩

/-- All other answers are the same in both states. -/
theorem respond_eq (related : Redistributed reader first second)
    (firstKeys : IntegerKeys first) (secondKeys : IntegerKeys second) (request : ReadRequest)
    (members : request ≠ .listMembers) (scores : request ≠ .leaderboard) :
    respond first reader request = respond second reader request := by
  have current := related.getCurrentMember_eq
  cases request with
  | listMarkets status limit =>
      simp only [respond, current, Api.listMarkets, related.markets_eq]
  | getMarket marketId =>
      simp only [respond, current, related.getMarket_eq firstKeys secondKeys]
  | getMarketConsensus marketId =>
      simp only [respond, current, Api.getMarketConsensus, FundPolymarket.getMarket,
        related.markets_eq, related.getConsensus_eq firstKeys secondKeys]
  | getDecision marketId =>
      simp only [respond, current, Api.getDecision, related.decisions_eq]
  | listMembers => exact absurd rfl members
  | myLedger limit =>
      simp only [respond, current, Api.myLedger, related.own_entries]
  | leaderboard => exact absurd rfl scores
  | me =>
      simp only [respond, current, memberWithBalance, related.own_balance]
  | listFunds =>
      simp only [respond, current, related.funds_eq]
  | listOrders limit =>
      simp only [respond, current, Api.listOrders, related.orders_eq]
  | listPositions fundId =>
      simp only [respond, current, Api.listPositions, related.funds_eq, related.positions_eq]

end Redistributed

end Reads

/-- What a member can read of such a difference is the member list and the leaderboard, and
they show it exactly where another member has staked more or less in all on OPEN markets. -/
theorem reads_same_iff {reader : ℕ} {first second : Db}
    (active : ∃ member ∈ first.members.get? reader, member.isActive = true)
    (related : Redistributed reader first second) (firstKeys : IntegerKeys first)
    (secondKeys : IntegerKeys second) :
    (∀ request, respond first reader request = respond second reader request) ↔
      ∀ row ∈ first.members.rows, openStake first row.1 = openStake second row.1 := by
  constructor
  · exact fun same => (related.respond_listMembers_iff active).mp (same .listMembers)
  · intro same request
    cases request with
    | listMembers => exact (related.respond_listMembers_iff active).mpr same
    | leaderboard =>
        rw [respond, respond, related.getCurrentMember_eq,
          related.leaderboard_eq firstKeys secondKeys same]
    | _ => exact related.respond_eq firstKeys secondKeys _ (by simp) (by simp)

/-- Two more members, who stake on one outcome each. -/
def othersStake (second third : Outcome × ℚ) : Db :=
  let joined := stateAfter Db.empty (openedMarket ++
    [.request desk (.createMember { email := "b@example.com", name := "b" }),
      .request desk (.createMember { email := "c@example.com", name := "c" })])
  let one := (serve desk (.putAllocation 1 2 ⟨[second], by simp⟩ none) joined).db
  (serve desk (.putAllocation 1 3 ⟨[third], by simp⟩ none) one).db

theorem othersStake_tables (second third : Outcome × ℚ) {name : TableName} (bets : name ≠ .bets)
    (ledger : name ≠ .ledger) :
    (othersStake second third).table name = (othersStake (.buy, 0) (.buy, 0)).table name := by
  have untouched : name ∉ [TableName.ledger, .bets] := by simp [bets, ledger]
  simp only [othersStake]
  rw [serve_frame _ _ _ untouched, serve_frame _ _ _ untouched, serve_frame _ _ _ untouched,
    serve_frame _ _ _ untouched]

theorem othersStake_market (second third : Outcome × ℚ) :
    ∀ row ∈ (othersStake second third).markets.rows, row.1 = 1 := by
  have markets : (othersStake second third).markets = (othersStake (.buy, 0) (.buy, 0)).markets :=
    @othersStake_tables second third .markets (by decide) (by decide)
  rw [markets]
  decide +kernel

/-- Two members exchange bets of 100. -/
theorem redistributed_even :
    Redistributed 1 (othersStake (.buy, 100) (.sell, 100)) (othersStake (.sell, 100) (.buy, 100))
    where
  tables := fun _ bets ledger =>
    (othersStake_tables _ _ bets ledger).trans (othersStake_tables _ _ bets ledger).symm
  bets := by unfold AgreeOutside; decide +kernel
  ledger := by unfold AgreeOutside; decide +kernel
  stakes := by
    intro row listed _
    rw [othersStake_market _ _ row listed]
    funext outcome
    cases outcome <;> decide +kernel
  participants := by decide +kernel
  locks := by decide +kernel

/-- Two members exchange bets of 300 and of 100. -/
theorem redistributed_uneven :
    Redistributed 1 (othersStake (.buy, 300) (.sell, 100)) (othersStake (.sell, 100) (.buy, 300))
    where
  tables := fun _ bets ledger =>
    (othersStake_tables _ _ bets ledger).trans (othersStake_tables _ _ bets ledger).symm
  bets := by unfold AgreeOutside; decide +kernel
  ledger := by unfold AgreeOutside; decide +kernel
  stakes := by
    intro row listed _
    rw [othersStake_market _ _ row listed]
    funext outcome
    cases outcome <;> decide +kernel
  participants := by decide +kernel
  locks := by decide +kernel

theorem reads_same_even :
    Redistributed 1 (othersStake (.buy, 100) (.sell, 100)) (othersStake (.sell, 100) (.buy, 100)) ∧
      ∀ request, respond (othersStake (.buy, 100) (.sell, 100)) 1 request =
        respond (othersStake (.sell, 100) (.buy, 100)) 1 request :=
  ⟨redistributed_even, (reads_same_iff (by decide +kernel) redistributed_even
    (by unfold IntegerKeys; decide +kernel) (by unfold IntegerKeys; decide +kernel)).mpr
      (by decide +kernel)⟩

/-- The member list shows who has staked the 300. -/
theorem reads_differ_uneven :
    Redistributed 1 (othersStake (.buy, 300) (.sell, 100)) (othersStake (.sell, 100) (.buy, 300)) ∧
      ¬ ∀ request, respond (othersStake (.buy, 300) (.sell, 100)) 1 request =
        respond (othersStake (.sell, 100) (.buy, 300)) 1 request := by
  refine ⟨redistributed_uneven, fun same => ?_⟩
  have stakes := (redistributed_uneven.respond_listMembers_iff (by decide +kernel)).mp
    (same .listMembers)
  revert stakes
  decide +kernel

end FundPolymarket
