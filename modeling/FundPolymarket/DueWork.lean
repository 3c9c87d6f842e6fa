import FundPolymarket.PayoutLaws
import FundPolymarket.Resumption
import FundPolymarket.Snapshot
import FundPolymarket.Verdict
import FundPolymarket.WellFormed

set_option autoImplicit false

/- The work that is due at a tick: a tick in which no service call fails completes it,
touches nothing else and leaves nothing to a second one. In a reachable state every due
market meets the preconditions of both calls of its loop. -/
namespace FundPolymarket

open Decimal (Numeric Scaled)

namespace Market

/-- The first loop takes the market up. -/
def DueToClose (now : Time) (market : Market) : Prop :=
  market.status = .open ∧ market.closesAt ≤ now

/-- The second loop does. -/
def DueToResolve (now : Time) (market : Market) : Prop :=
  (market.status = .closed ∨ market.status = .decided ∨ market.status = .executed) ∧
    market.resolveAt ≤ now

def Due (now : Time) (market : Market) : Prop := market.DueToClose now ∨ market.DueToResolve now

end Market

section Completion

variable {settings : Settings} {now : Time} {broker : TickCall → Broker}
  {closing resolving : RowOrder} {db : Db} {id : ℕ}

/-- No service call of the tick fails. -/
structure FailureFree (settings : Settings) (now : Time) (broker : TickCall → Broker)
    (closing resolving : RowOrder) (db : Db) : Prop where
  closes : Unfailing (closeAndDecide settings now broker) (closing.arrange (dueToClose now db)) db
  resolves : Unfailing (resolveAndSettle settings now broker)
    (resolving.arrange (dueToResolve now (closeLoop settings now broker closing db)))
    (closeLoop settings now broker closing db)

/-- All due work is done, the rows of the other markets are as they were, and a second
tick at the same time changes nothing, whatever its settings and its broker. -/
structure CompletesDueWork (settings : Settings) (now : Time) (broker : TickCall → Broker)
    (closing resolving : RowOrder) (db : Db) : Prop where
  done : ∀ id market,
    (tick settings now broker closing resolving db).markets.get? id = some market → ¬ market.Due now
  others : ∀ id, (∀ market, db.markets.get? id = some market → ¬ market.Due now) →
    (tick settings now broker closing resolving db).viewOf id = db.viewOf id
  again : ∀ (settings' : Settings) (broker' : TickCall → Broker) (closing' resolving' : RowOrder),
    tick settings' now broker' closing' resolving' (tick settings now broker closing resolving db) =
      tick settings now broker closing resolving db

theorem mem_dueToClose :
    id ∈ dueToClose now db ↔
      ∃ market, db.markets.get? id = some market ∧ market.DueToClose now := by
  simp [dueToClose, Table.mem_select_ids, Market.DueToClose]

theorem mem_dueToResolve :
    id ∈ dueToResolve now db ↔
      ∃ market, db.markets.get? id = some market ∧ market.DueToResolve now := by
  simp [dueToResolve, Table.mem_select_ids, Market.DueToResolve]

theorem Db.market_of_view {other : Db} (same : db.viewOf id = other.viewOf id) :
    db.markets.get? id = other.markets.get? id := congrArg MarketView.market same

theorem closeLoop_unfailing_iff :
    Unfailing (closeAndDecide settings now broker) (closing.arrange (dueToClose now db)) db ↔
      ∀ id ∈ dueToClose now db, Succeeds (closeAndDecide settings now broker) id db := by
  have nodup : (closing.arrange (dueToClose now db)).Nodup :=
    closing.nodup (Table.select_nodup _ _)
  rw [closeAndDecide_local.unfailing_iff nodup rfl fun _ _ => rfl]
  simp only [(closing.perm _).mem_iff]

theorem resolveLoop_unfailing_iff :
    Unfailing (resolveAndSettle settings now broker) (resolving.arrange (dueToResolve now db)) db ↔
      ∀ id ∈ dueToResolve now db, Succeeds (resolveAndSettle settings now broker) id db := by
  have nodup : (resolving.arrange (dueToResolve now db)).Nodup :=
    resolving.nodup (Table.select_nodup _ _)
  rw [resolveAndSettle_local.unfailing_iff nodup rfl fun _ _ => rfl]
  simp only [(resolving.perm _).mem_iff]

/-- Where every market of a loop can be advanced, no failure stands before one. -/
theorem failuresFirst_of_succeeds {advance : ℕ → Db → Except AppError Db} {ids : List ℕ}
    (succeeds : ∀ id ∈ ids, Succeeds advance id db) : FailuresFirst advance db ids := by
  refine List.pairwise_of_forall_mem_list fun earlier member later laterMember => ⟨?_, ?_⟩
  · exact fun _ => succeeds later laterMember
  · exact fun breaks => absurd (succeeds earlier member) breaks.fails

/-- No exception of the first loop keeps the second from its work. -/
theorem FailureFree.unbroken (failureFree : FailureFree settings now broker closing resolving db) :
    ¬ FirstLoopBreaks settings now broker db := by
  rintro ⟨id, member, breaks⟩
  exact breaks.fails (closeLoop_unfailing_iff.mp failureFree.closes id member)

/-- Without failures nothing that succeeds is visited before one. -/
theorem FailureFree.isolated (failureFree : FailureFree settings now broker closing resolving db) :
    TickIsolated settings now broker closing resolving db := by
  have closes := closeLoop_unfailing_iff.mp failureFree.closes
  have resolves := resolveLoop_unfailing_iff.mp failureFree.resolves
  refine (tick_isolates settings now broker closing resolving db).mpr
    ⟨failuresFirst_of_succeeds ?_, fun breaks => absurd breaks failureFree.unbroken,
      fun _ => failuresFirst_of_succeeds ?_⟩
  · exact fun id member => closes id ((closing.perm _).mem_iff.mp member)
  · exact fun id member => resolves id ((resolving.perm _).mem_iff.mp member)

/-- The first loop does not touch a market that is not due to close. -/
theorem closeLoop_frame (notDue : id ∉ dueToClose now db) :
    (closeLoop settings now broker closing db).viewOf id = db.viewOf id :=
  closeAndDecide_local.sweep_frame (fun member => notDue ((closing.perm _).mem_iff.mp member)) rfl

theorem resolveLoop_frame (notDue : id ∉ dueToResolve now db) :
    (resolveLoop settings now broker resolving db).viewOf id = db.viewOf id :=
  resolveAndSettle_local.sweep_frame (fun member => notDue ((resolving.perm _).mem_iff.mp member))
    rfl

/-- What the second loop finds was due before the tick. -/
theorem due_of_dueToResolve
    (member : id ∈ dueToResolve now (closeLoop settings now broker closing db)) :
    ∃ market, db.markets.get? id = some market ∧ market.Due now := by
  by_cases closes : id ∈ dueToClose now db
  · obtain ⟨market, found, due⟩ := mem_dueToClose.mp closes
    exact ⟨market, found, .inl due⟩
  · obtain ⟨market, found, due⟩ := mem_dueToResolve.mp member
    rw [Db.market_of_view (closeLoop_frame closes)] at found
    exact ⟨market, found, .inr due⟩

/-- With nothing due a tick does nothing. -/
theorem tick_idle (nothing : ∀ id market, db.markets.get? id = some market → ¬ market.Due now) :
    tick settings now broker closing resolving db = db := by
  have nothingCloses : dueToClose now db = [] := List.eq_nil_iff_forall_not_mem.mpr fun id member =>
    have ⟨market, found, due⟩ := mem_dueToClose.mp member
    nothing id market found (.inl due)
  have nothingResolves : dueToResolve now db = [] :=
    List.eq_nil_iff_forall_not_mem.mpr fun id member =>
      have ⟨market, found, due⟩ := mem_dueToResolve.mp member
      nothing id market found (.inr due)
  have idle : closeLoop settings now broker closing db = db := by
    rw [closeLoop, nothingCloses, (closing.perm []).eq_nil]
    rfl
  have unbroken : ¬ FirstLoopBreaks settings now broker db := by
    simp [FirstLoopBreaks, nothingCloses]
  rw [tick_unbroken unbroken, idle, resolveLoop, nothingResolves, (resolving.perm []).eq_nil]
  rfl

theorem FailureFree.done (failureFree : FailureFree settings now broker closing resolving db)
    (market : Market)
    (found : (tick settings now broker closing resolving db).markets.get? id = some market) :
    ¬ market.Due now := by
  have isolated := failureFree.isolated
  have made := @tick_unbroken _ _ _ closing resolving _ failureFree.unbroken
  by_cases resolves : id ∈ dueToResolve now (closeLoop settings now broker closing db)
  · have settled := isolated.settled id resolves
      (resolveLoop_unfailing_iff.mp failureFree.resolves id resolves)
    have status : market.status = .settled := by simpa [Db.viewOf, found] using settled
    simp [Market.Due, Market.DueToClose, Market.DueToResolve, status]
  · have closedFound :
        (closeLoop settings now broker closing db).markets.get? id = some market := by
      rw [← found, made]
      exact (Db.market_of_view (resolveLoop_frame resolves)).symm
    rintro (dueToClose | dueToResolve)
    · by_cases closes : id ∈ FundPolymarket.dueToClose now db
      · have decided := (isolated.decided id closes
          (closeLoop_unfailing_iff.mp failureFree.closes id closes)).1
        have status : market.status = .decided := by simpa [Db.viewOf, closedFound] using decided
        rw [dueToClose.1] at status
        cases status
      · rw [Db.market_of_view (closeLoop_frame closes)] at closedFound
        exact closes (mem_dueToClose.mpr ⟨market, closedFound, dueToClose⟩)
    · exact resolves (mem_dueToResolve.mpr ⟨market, closedFound, dueToResolve⟩)

theorem FailureFree.completes (failureFree : FailureFree settings now broker closing resolving db) :
    CompletesDueWork settings now broker closing resolving db where
  done := fun _ market found => failureFree.done market found
  others := by
    intro id notDue
    have stays : id ∉ dueToResolve now (closeLoop settings now broker closing db) := fun member =>
      have ⟨market, found, due⟩ := due_of_dueToResolve member
      notDue market found due
    have notClosed : id ∉ dueToClose now db := fun member =>
      have ⟨market, found, due⟩ := mem_dueToClose.mp member
      notDue market found (.inl due)
    rw [tick_unbroken failureFree.unbroken, resolveLoop_frame stays, closeLoop_frame notClosed]
  again := fun _ _ _ _ => tick_idle fun _ market found => failureFree.done market found

end Completion

section Reference

variable {env : Env} {db next : Db} {request : Request} {writes : List Write}

/-- The row has a price to be judged against. -/
def Market.HasReference (row : Market) : Prop :=
  ∃ referencePrice, row.referencePrice = some referencePrice ∧ 0 < referencePrice.val

/-- Every market that awaits its verdict has a reference price, and so has every market
with a decision, which has left OPEN. -/
structure Referenced (db : Db) : Prop where
  awaiting : ∀ id row, db.markets.get? id = some row → row.status.awaitsVerdict = true →
    row.HasReference
  decided : ∀ judgement ∈ judgements db, ∃ row,
    db.markets.get? judgement.marketId = some row ∧ row.status ≠ .open ∧ row.HasReference

/-- A close takes a positive price. -/
theorem Commits.close_reference {marketId : ℕ} (exactly : env.broker.QuotesExactly)
    (committed : Commits env db (.closeMarket marketId) writes)
    (applied : applyWrites db writes = .ok next) {later : Market}
    (found : next.markets.get? marketId = some later) : later.HasReference := by
  cases committed with
  | @closeMarket _ market quote referencePrice named before isOpen quoted stored =>
      obtain ⟨positive, scaled⟩ := exactly _ _ quoted
      rw [applyWrites_updateMarket_only applied, Table.get?_update, if_pos rfl, before] at found
      cases found
      exact ⟨referencePrice, rfl,
        (Numeric.val_ofDecimal scaled (orRaise_eq_ok.mp stored)).symm ▸ positive⟩

theorem Commits.awaiting (exactly : env.broker.QuotesExactly)
    (committed : Commits env db request writes) (applied : applyWrites db writes = .ok next)
    (referenced : Referenced db) (id : ℕ) (later : Market)
    (found : next.markets.get? id = some later) (awaits : later.status.awaitsVerdict = true) :
    later.HasReference := by
  rcases (committed.markets applied).origin found with
    ⟨_, isOpen, _⟩ | ⟨row, before, rfl | change⟩
  · rw [isOpen] at awaits
    cases awaits
  · exact referenced.awaiting id later before awaits
  · cases change with
    | close => exact committed.close_reference exactly applied found
    | decide isClosed => exact referenced.awaiting id row before (by rw [isClosed]; rfl)
    | execute executed =>
        -- An approval may find its market in any status; the decision vouches for the price.
        obtain ⟨old, oldFound, _, reference⟩ := referenced.decided _
          (List.mem_map_of_mem (Table.get?_mem_contents executed.found))
        cases before.symm.trans oldFound
        exact reference
    | resolve | settle | cancel => cases awaits

/-- A market past OPEN keeps its reference price. -/
theorem Kept.reference (kept : Kept db next) {id : ℕ} {row : Market}
    (found : db.markets.get? id = some row) (left : row.status ≠ .open)
    (reference : row.HasReference) :
    ∃ later, next.markets.get? id = some later ∧ later.status ≠ .open ∧ later.HasReference := by
  obtain ⟨later, laterFound, laterLeft, samePrice⟩ := kept.markets id row found left
  exact ⟨later, laterFound, laterLeft, by rwa [Market.HasReference, samePrice]⟩

theorem Commits.referenced (exactly : env.broker.QuotesExactly)
    (committed : Commits env db request writes) (applied : applyWrites db writes = .ok next)
    (referenced : Referenced db) : Referenced next := by
  have kept := committed.kept applied
  refine ⟨committed.awaiting exactly applied referenced, fun judgement member => ?_⟩
  have old : judgement ∈ judgements db → ∃ row,
      next.markets.get? judgement.marketId = some row ∧ row.status ≠ .open ∧ row.HasReference := by
    intro earlier
    obtain ⟨row, found, left, reference⟩ := referenced.decided judgement earlier
    exact kept.reference found left reference
  rcases (committed.decisions applied).judged with
    same | ⟨market, decision, added, found, isClosed, _, _⟩
  · exact old (same ▸ member)
  · rw [added, List.mem_append, List.mem_singleton] at member
    rcases member with earlier | rfl
    · exact old earlier
    · exact kept.reference found (by simp [isClosed])
        (referenced.awaiting _ market found (by rw [isClosed]; rfl))

theorem referenced_empty : Referenced Db.empty where
  awaiting := by simp [Db.empty]
  decided := fun _ member => absurd member List.not_mem_nil

/-- The run rule of the reference prices. -/
theorem referenced_stateAfter (events : List Event)
    (exactly : ∀ event ∈ events, event.Trusts Broker.QuotesExactly) :
    Referenced (stateAfter Db.empty events) :=
  @requests_invariant (fun _ _ _ => True) Broker.QuotesExactly Referenced _
    (fun _ _ _ _ _ => trivial)
    (fun _ _ _ _ _ _ sound committed applied held => committed.referenced sound applied held)
    referenced_empty events exactly fun s _ => s.meets_anything

end Reference

section Positions

variable {db next : Db}

/-- Every position has a number of shares that its column holds. -/
def SharesFit (db : Db) : Prop := ∀ p ∈ db.positions.toTable.contents, p.quantity < 2 ^ 31

/-- A statement that puts no larger number into a position. -/
def Write.CountsShares : Write → Prop
  | .insertPosition row => row.quantity < 2 ^ 31
  | .setPosition _ _ quantity _ => quantity < 2 ^ 31
  | _ => True

theorem SharesFit.write {write : Write} (counted : write.CountsShares)
    (applied : applyWrite db write = .ok next) (held : SharesFit db) : SharesFit next := by
  have table := applyWrite_table applied .positions
  rw [SharesFit, show next.positions.toTable = _ from table]
  by_cases other : write.table = .positions
  swap
  · rw [Write.on_of_ne other]
    exact held
  cases write with
  | insertPosition row =>
      intro p member
      rw [Write.on, Table.contents_insert, List.mem_append, List.mem_singleton] at member
      rcases member with old | rfl
      · exact held p old
      · exact counted
  | setPosition id tickerName quantity avgPrice =>
      intro p member
      obtain ⟨row, found⟩ := (Table.mem_contents_iff _ _).mp member
      rw [Write.on, Table.get?_update] at found
      split at found
      · obtain ⟨old, _, rfl⟩ := Option.map_eq_some_iff.mp found
        exact counted
      · exact held p (Table.get?_mem_contents found)
  | _ => cases other

theorem SharesFit.writes {writes : List Write} (counted : ∀ write ∈ writes, write.CountsShares)
    (applied : applyWrites db writes = .ok next) (held : SharesFit db) : SharesFit next := by
  induction writes generalizing db with
  | nil =>
      cases applied
      exact held
  | cons write writes ih =>
      obtain ⟨middle, head, rest⟩ := applyWrites_cons_eq_ok.mp applied
      exact ih (fun later member => counted later (List.mem_cons_of_mem _ member)) rest
        (held.write (counted write List.mem_cons_self) head)

/-- A synchronisation stores what the column takes. -/
theorem syncPositions_counts {fundId : ℕ} {broker : Broker} {writes : List Write}
    (success : syncPositions db fundId broker = .ok writes) :
    ∀ write ∈ writes, write.CountsShares := by
  obtain ⟨snapshot, _, rest⟩ := bind_eq_ok.mp success
  intro write member
  obtain ⟨s, _, written⟩ := forall₂_exists_left (mapM_forall₂ rest) member
  obtain ⟨stored, storedOk, rest⟩ := bind_eq_ok.mp written
  have fits : stored.quantity < 2 ^ 31 := by
    obtain ⟨_, _, storedOk⟩ := bind_eq_ok.mp storedOk
    obtain ⟨quantity, quantityOk, storedOk⟩ := bind_eq_ok.mp storedOk
    obtain ⟨_, _, same⟩ := bind_eq_ok.mp storedOk
    cases same
    obtain ⟨within, rfl⟩ := storeInteger_eq_ok.mp quantityOk
    exact within.2
  split at rest
  · cases rest
    exact fits
  · obtain ⟨_, _, same⟩ := bind_eq_ok.mp rest
    cases same
    exact fits

theorem Commits.sharesFit {env : Env} {request : Request} {writes : List Write}
    (committed : Commits env db request writes) (applied : applyWrites db writes = .ok next)
    (held : SharesFit db) : SharesFit next := by
  by_cases untouched : .positions ∉ request.tables
  · have same : next.positions.toTable = db.positions.toTable :=
      committed.frame applied .positions untouched
    rwa [SharesFit, same]
  · cases committed with
    | syncFund synced => exact held.writes (syncPositions_counts synced) applied
    | _ => exact absurd (by simp [Request.tables]) untouched

theorem sharesFit_stateAfter (events : List Event) : SharesFit (stateAfter Db.empty events) :=
  @requests_invariant (fun _ _ _ => True) (fun _ => True) SharesFit _
    (fun _ _ _ _ _ => trivial)
    (fun _ _ _ _ _ _ _ committed applied held => committed.sharesFit applied held)
    (fun _ member => absurd member List.not_mem_nil) events
    (fun _ _ => trusts_anything _) fun s _ => s.meets_anything

end Positions

section Services

variable {settings : Settings} {now : Time} {db : Db} {marketId : ℕ} {market : Market}

/-- The broker has a quote for the ticker, whose price and name the columns hold as they
are. -/
def Broker.Answers (broker : Broker) (ticker : String) : Prop :=
  ∃ quote, broker.getQuote ticker = .ok quote ∧ 0 < quote.price ∧ Scaled 4 quote.price ∧
    quote.price < 10 ^ 14 ∧ ∀ name, quote.name = some name → FitsText 100 name

/-- The notional buys a number of shares that the quantity columns hold. -/
def Market.Affordable (market : Market) (broker : Broker) : Prop :=
  ∀ quote, broker.getQuote market.ticker = .ok quote →
    market.notionalKrw.val < 2 ^ 31 * quote.price

theorem store_price {price : ℚ} (positive : 0 < price) (scaled : Scaled 4 price)
    (fits : price < 10 ^ 14) : ∃ stored, store 18 4 price = .ok stored := by
  obtain ⟨stored, storedOk⟩ := @Numeric.exists_ofDecimal 18 4 price scaled
    (by rw [abs_of_pos positive]; norm_num; exact fits)
  exact ⟨stored, orRaise_eq_ok.mpr storedOk⟩

theorem quotedName_succeeds {quote : Quote}
    (fits : ∀ name, quote.name = some name → FitsText 100 name) :
    ∃ name, quotedName market quote = .ok name := by
  rw [quotedName]
  split
  · cases given : quote.name with
    | none => exact ⟨none, rfl⟩
    | some name => exact ⟨some name, map_eq_ok.mpr ⟨name, (fits name given).unchanged, rfl⟩⟩
  · exact ⟨none, rfl⟩

theorem positionQuantity_lt (held : SharesFit db) (fundId : ℕ) (ticker : String) :
    positionQuantity db fundId ticker < 2 ^ 31 := by
  rw [positionQuantity]
  split
  · rename_i p search
    exact held p (List.mem_of_find?_eq_some search)
  · norm_num

/-- The sized number of shares is one that the quantity columns hold. -/
theorem sizeOrder_lt {broker : Broker} {quote : Quote} {action : Outcome} {sized : Sizing}
    (quoted : broker.getQuote market.ticker = .ok quote) (positive : 0 < quote.price)
    (affordable : market.Affordable broker) (held : SharesFit db)
    (success : sizeOrder db market action broker = .ok sized) (clear : sized.reasons = []) :
    sized.quantity < 2 ^ 31 := by
  have least := (sizeOrder_eq_ok success).2.1 clear
  by_cases buys : action = .buy
  · obtain ⟨other, otherQuoted, rest⟩ := bind_eq_ok.mp success
    rw [quoted] at otherQuoted
    cases otherQuoted
    obtain ⟨quantity, divided, same⟩ := bind_eq_ok.mp ((if_pos buys).symm.trans rest)
    cases same
    have floor := floordiv_eq (orRaise_eq_ok.mp divided) least
    rw [floor, Int.floor_lt, div_lt_iff₀ positive]
    push_cast
    exact affordable quote quoted
  · rw [(sizeOrder_eq_ok success).2.2 buys]
    exact positionQuantity_lt held _ _

/-- An order is sized at any price that a column holds, and so are its quantity and its
limit price. -/
theorem sizing_succeeds {broker : Broker} (answers : broker.Answers market.ticker)
    (affordable : market.Affordable broker) (held : SharesFit db) (consensus : Consensus)
    (action : Outcome) :
    ∃ sized, sizing settings db market consensus action broker = .ok sized ∧
      (∃ limitPrice, storedLimitPrice (skipReasons settings db consensus action sized) sized =
        .ok limitPrice) ∧
      ∃ quantity, storedQuantity (skipReasons settings db consensus action sized) sized =
        .ok quantity := by
  obtain ⟨quote, quoted, positive, scaled, fits, _⟩ := answers
  obtain ⟨stored, storedOk⟩ := store_price positive scaled fits
  obtain ⟨sized, sizedOk⟩ : ∃ sized,
      sizing settings db market consensus action broker = .ok sized := by
    rw [sizing]
    split
    swap
    · exact ⟨_, rfl⟩
    by_cases buys : action = .buy
    · have quotient : |market.notionalKrw.val / quote.price| < 10 ^ Decimal.prec := by
        have notional := market.notionalKrw.abs_val_lt
        have least := scaled.unit_le positive
        rw [abs_div, abs_of_pos positive, div_lt_iff₀ positive, Decimal.prec]
        norm_num at notional least ⊢
        linarith
      obtain ⟨quantity, divided⟩ := Decimal.exists_floordiv positive.ne' quotient
      exact ⟨⟨quantity, some quote.price, _⟩, bind_eq_ok.mpr ⟨quote, quoted, (if_pos buys).trans
        (bind_eq_ok.mpr ⟨quantity, orRaise_eq_ok.mpr divided, rfl⟩)⟩⟩
    · exact ⟨_, bind_eq_ok.mpr ⟨quote, quoted, if_neg buys⟩⟩
  refine ⟨sized, sizedOk, ?_⟩
  by_cases goes : skipReasons settings db consensus action sized = []
  · obtain ⟨_, ordered, clear⟩ := sizing_goes sizedOk goes
    obtain ⟨other, otherQuoted, limit⟩ := (sizeOrder_eq_ok ordered).1
    rw [quoted] at otherQuoted
    cases otherQuoted
    rw [goes]
    refine ⟨⟨some stored, ?_⟩, (store_quantity ((sizeOrder_eq_ok ordered).2.1 clear)).mpr
      (sizeOrder_lt quoted positive affordable held ordered clear)⟩
    rw [storedLimitPrice, if_pos rfl, limit]
    exact map_eq_ok.mpr ⟨stored, storedOk, rfl⟩
  · rw [storedLimitPrice, storedQuantity, if_neg goes, if_neg goes]
    exact ⟨⟨none, rfl⟩, 0, rfl⟩

/-- A closed market without a decision gets one. -/
theorem buildDecision_succeeds {broker : Broker} (answers : broker.Answers market.ticker)
    (isClosed : market.status = .closed)
    (affordable : market.Affordable broker) (held : SharesFit db)
    (fresh : ∀ decision ∈ db.decisions.contents, decision.marketId ≠ marketId)
    (small : stakedTotal db marketId < 10 ^ 16)
    (few : participantCount (loadStakes db marketId) < 2 ^ 31) :
    ∃ writes, buildDecision settings db marketId market broker = .ok writes := by
  have cents : CentStakes (positiveStakes (loadStakes db marketId)) :=
    positiveStakes_cents (loadStakes_scaled db marketId)
      (lt_trans (show pool _ < 10 ^ 16 from small) (by norm_num))
  have total : Decimal.sum (allOutcomes.map (stakeByOutcome (loadStakes db marketId))) =
      stakedTotal db marketId := total_exact cents
  obtain ⟨consensus, computed, totalStake, participants⟩ : ∃ consensus,
      getConsensus db marketId = .ok consensus ∧ consensus.totalStake = stakedTotal db marketId ∧
        consensus.participantCount = participantCount (loadStakes db marketId) := by
    by_cases staked : 0 < stakedTotal db marketId
    · exact ⟨_, computeConsensus_eq staked, total, rfl⟩
    · exact ⟨_, computeConsensus_none (total ▸ staked), total, rfl⟩
  obtain ⟨sized, sizedOk, ⟨limit, limitOk⟩, quantity, quantityOk⟩ := @sizing_succeeds settings db
    market _ answers affordable held consensus (consensus.leadingOutcome.getD .hold)
  obtain ⟨stored, storedOk⟩ : ∃ stored, store 18 2 consensus.totalStake = .ok stored := by
    obtain ⟨stored, stored_eq⟩ := @Numeric.exists_ofDecimal 18 2 _
      (stakedTotal_scaled db marketId)
      (by rw [abs_of_nonneg (show 0 ≤ stakedTotal db marketId from cents.pool_nonneg)]
          norm_num
          exact small)
    exact ⟨stored, orRaise_eq_ok.mpr (totalStake ▸ stored_eq)⟩
  have counted : storeCount consensus.participantCount = .ok consensus.participantCount :=
    storeCount_eq_ok.mpr ⟨participants ▸ few, rfl⟩
  refine ⟨[.insertDecision (newDecision marketId (consensus.leadingOutcome.getD .hold) consensus
    stored consensus.participantCount quantity limit
    (skipReasons settings db consensus (consensus.leadingOutcome.getD .hold) sized)),
    .updateMarket marketId Market.decide], ?_⟩
  rw [buildDecision, raiseIf_bind_eq_ok, search_none fresh]
  exact ⟨not_not.mpr isClosed, bind_eq_ok.mpr ⟨consensus, computed, bind_eq_ok.mpr ⟨sized, sizedOk,
    bind_eq_ok.mpr ⟨stored, storedOk, bind_eq_ok.mpr ⟨_, counted, bind_eq_ok.mpr ⟨quantity,
      quantityOk, bind_eq_ok.mpr ⟨limit, limitOk, rfl⟩⟩⟩⟩⟩⟩⟩

/-- A market that is due and has no decision is closed and decided. -/
theorem closeAndDecide_succeeds {broker : TickCall → Broker}
    (answers : ∀ call, (broker call).Answers market.ticker)
    (affordable : market.Affordable (broker (.build marketId))) (held : SharesFit db)
    (found : db.markets.get? marketId = some market) (isOpen : market.status = .open)
    (fresh : ∀ decision ∈ db.decisions.contents, decision.marketId ≠ marketId)
    (small : stakedTotal db marketId < 10 ^ 16)
    (few : participantCount (loadStakes db marketId) < 2 ^ 31) :
    Succeeds (closeAndDecide settings now broker) marketId db := by
  obtain ⟨quote, quoted, positive, scaled, fits, named⟩ := answers (.close marketId)
  obtain ⟨referencePrice, stored⟩ := store_price positive scaled fits
  obtain ⟨name, nameOk⟩ := @quotedName_succeeds market quote named
  have closes : closeMarket marketId market (broker (.close marketId)) now = .ok
      [.updateMarket marketId fun row => row.close name referencePrice now] :=
    raiseIf_bind_eq_ok.mpr ⟨not_not.mpr isOpen, bind_eq_ok.mpr ⟨quote, quoted,
      bind_eq_ok.mpr ⟨referencePrice, stored, bind_eq_ok.mpr ⟨name, nameOk, rfl⟩⟩⟩⟩
  obtain ⟨closed, applied⟩ := applyWrites_unconstrained db fun write member =>
    ((close_local now broker).within found closes write member).unconstrained
  have markets := applyWrites_updateMarket_only applied
  have decisions : closed.decisions = db.decisions := applyWrites_table applied .decisions
  have bets : closed.bets.toTable = db.bets.toTable := applyWrites_table applied .bets
  have positions : closed.positions.toTable = db.positions.toTable :=
    applyWrites_table applied .positions
  have closedFound : closed.markets.get? marketId =
      some (market.close name referencePrice now) := by
    rw [markets, Table.get?_update, if_pos rfl, found]
    rfl
  have sameStakes : loadStakes closed marketId = loadStakes db marketId := by
    rw [loadStakes, loadStakes, Db.betsOf, Db.betsOf, bets]
  obtain ⟨writes, builds⟩ := @buildDecision_succeeds settings closed marketId
    (market.close name referencePrice now) _ (answers (.build marketId)) rfl affordable
    (by rwa [SharesFit, positions]) (decisions ▸ fresh) (by rwa [stakedTotal, sameStakes])
    (by rwa [sameStakes])
  obtain ⟨final, built⟩ := applyWrites_unconstrained closed fun write member =>
    ((build_local settings broker).within closedFound builds write member).unconstrained
  exact ⟨final, bind_eq_ok.mpr ⟨market, getMarket_eq_ok.mpr found, bind_eq_ok.mpr ⟨closed,
    bind_eq_ok.mpr ⟨_, closes, applied⟩, bind_eq_ok.mpr ⟨_, getMarket_eq_ok.mpr closedFound,
      bind_eq_ok.mpr ⟨writes, builds, built⟩⟩⟩⟩⟩

/-- What a settlement pays fits its column when the pool does. -/
theorem payouts_lt {stakes : List Stake} {winningOutcome : Outcome} {payouts : List (ℕ × ℚ)}
    {rakeBps : ℤ} (cents : CentStakes stakes) (small : pool stakes < 10 ^ 16)
    (settled : settleParimutuel stakes winningOutcome rakeBps = .ok payouts) :
    ∀ entry ∈ payouts, |entry.2| < 10 ^ 16 := by
  intro entry member
  have conserves := settleParimutuel_conserves cents settled
  have part : entry.2 ≤ Tally.total payouts :=
    List.single_le_sum (fun x listed => by
      obtain ⟨other, otherMember, rfl⟩ := List.mem_map.mp listed
      exact conserves.cents.nonneg other otherMember) _ (List.mem_map_of_mem member)
  rw [abs_of_nonneg (conserves.cents.nonneg entry member)]
  linarith [conserves.kept, conserves.total]

/-- A due market with a reference price is judged and settled. -/
theorem resolveAndSettle_succeeds {broker : TickCall → Broker}
    (answers : ∀ call, (broker call).Answers market.ticker) (rakeNonneg : 0 ≤ settings.rakeBps)
    (rakeBelow : settings.rakeBps < 10000) (nonneg : StakesNonneg db)
    (small : marketPool db marketId < 10 ^ 16) (found : db.markets.get? marketId = some market)
    (between : market.status = .closed ∨ market.status = .decided ∨ market.status = .executed)
    (reference : market.HasReference) :
    Succeeds (resolveAndSettle settings now broker) marketId db := by
  obtain ⟨referencePrice, referenced, referencePos⟩ := reference
  obtain ⟨quote, quoted, positive, scaled, fits, _⟩ := answers (.resolve marketId)
  obtain ⟨resolutionPrice, stored⟩ := store_price positive scaled fits
  have referenceFits : referencePrice.val < 10 ^ 14 := by
    have within := referencePrice.abs_val_lt
    rw [abs_of_pos referencePos] at within
    norm_num at within ⊢
    exact within
  obtain ⟨verdict, judged⟩ : ∃ verdict, resolveOutcome referencePrice.val quote.price
      market.buyThresholdPct.val market.sellThresholdPct.val = .ok verdict :=
    ⟨_, resolveOutcome_eq referencePos (q_computedReturn referencePrice.val_scaled scaled
      referencePos referenceFits (by rwa [abs_of_pos positive]))⟩
  have resolves : resolveMarket marketId market (broker (.resolve marketId)) now = .ok
      [.updateMarket marketId fun row => row.resolve resolutionPrice verdict.1 now] :=
    raiseIf_bind_eq_ok.mpr ⟨by tauto, bind_eq_ok.mpr ⟨referencePrice, orRaise_eq_ok.mpr referenced,
      bind_eq_ok.mpr ⟨quote, quoted, bind_eq_ok.mpr ⟨verdict, judged,
        bind_eq_ok.mpr ⟨resolutionPrice, stored, rfl⟩⟩⟩⟩⟩
  obtain ⟨resolved, applied⟩ := applyWrites_unconstrained db fun write member =>
    ((resolve_local now broker).within found resolves write member).unconstrained
  have bets : resolved.bets.toTable = db.bets.toTable := applyWrites_table applied .bets
  have resolvedFound : resolved.markets.get? marketId =
      some (market.resolve resolutionPrice verdict.1 now) := by
    rw [applyWrites_updateMarket_only applied, Table.get?_update, if_pos rfl, found]
    rfl
  have stakes : loadStakes resolved marketId = loadStakes db marketId := by
    rw [loadStakes, loadStakes, Db.betsOf, Db.betsOf, bets]
  have cents := loadStakes_cents nonneg (small.trans (by norm_num))
  obtain ⟨payouts, settled⟩ := @settleParimutuel_succeeds _ verdict.1 _ cents rakeNonneg rakeBelow
  have payable : Payable settings marketId resolved payouts := by
    refine ⟨⟨_, resolvedFound, rfl, verdict.1, rfl, by rwa [stakes]⟩, ?_,
      payouts_lt cents (by rwa [loadStakes_pool]) settled⟩
    exact marketBets_nonneg (by rwa [StakesNonneg, bets]) marketId
  obtain ⟨final, settles, _⟩ := payable.settles now
  exact ⟨final, bind_eq_ok.mpr ⟨market, getMarket_eq_ok.mpr found, bind_eq_ok.mpr ⟨resolved,
    bind_eq_ok.mpr ⟨_, resolves, applied⟩, settles⟩⟩⟩

end Services

section Reachable

variable {settings : Settings} {now : Time} {broker : TickCall → Broker}
  {closing resolving : RowOrder} {db : Db}

/-- What the services take from outside: positive quotes with at most four decimals, one
for every market that is due, a rake in range, and pools, shares and numbers of bettors that
the columns hold. -/
structure Provided (settings : Settings) (now : Time) (broker : TickCall → Broker) (db : Db) :
    Prop where
  rakeNonneg : 0 ≤ settings.rakeBps
  rakeBelow : settings.rakeBps < 10000
  exactly : ∀ call, (broker call).QuotesExactly
  answers : ∀ id market, db.markets.get? id = some market → market.Due now →
    ∀ call, (broker call).Answers market.ticker
  pools : ∀ id market, db.markets.get? id = some market → market.Due now →
    marketPool db id < 10 ^ 16
  affordable : ∀ id market, db.markets.get? id = some market → market.DueToClose now →
    market.Affordable (broker (.build id))
  participants : ∀ id market, db.markets.get? id = some market → market.DueToClose now →
    participantCount (loadStakes db id) < 2 ^ 31

/-- What the first loop leaves for the second. -/
structure LeftToResolve (db closed : Db) : Prop where
  referenced : Referenced closed
  bets : closed.bets.toTable = db.bets.toTable
  tickers : ∀ id market, db.markets.get? id = some market → ∃ later,
    closed.markets.get? id = some later ∧ later.ticker = market.ticker

theorem MarketChange.ticker {env : Env} {request : Request} {id : ℕ} {row later : Market}
    (change : MarketChange env db request id row later) : later.ticker = row.ticker := by
  cases change <;> rfl

theorem closeLoop_leaves (exactly : ∀ call, (broker call).QuotesExactly)
    (referenced : Referenced db) :
    LeftToResolve db (closeLoop settings now broker closing db) := by
  refine closeLoop_induction closing
    ⟨referenced, rfl, fun _ market found => ⟨market, found, rfl⟩⟩ ?_
  intro call marketId request state next asked committed left
  obtain ⟨writes, commits, applied⟩ := committed.commits
  refine ⟨commits.referenced (exactly call) applied left.referenced, ?_, ?_⟩
  · have untouched : .bets ∉ request.tables := by
      rcases asked with rfl | rfl <;> simp [Request.tables]
    exact (commits.frame applied .bets untouched).trans left.bets
  · intro id market found
    obtain ⟨middle, middleFound, same⟩ := left.tickers id market found
    obtain ⟨later, laterFound, rfl | change⟩ := (commits.markets applied).kept middleFound
    · exact ⟨later, laterFound, same⟩
    · exact ⟨later, laterFound, change.ticker.trans same⟩

theorem stakedTotal_eq_marketPool (nonneg : StakesNonneg db) (marketId : ℕ) :
    stakedTotal db marketId = marketPool db marketId := by
  have rows : ∀ s ∈ loadStakes db marketId, 0 ≤ s.amount := by
    intro s member
    obtain ⟨row, rowMember, rfl⟩ := List.mem_map.mp member
    exact nonneg row.2 (betsOf_mem rowMember)
  rw [stakedTotal, positiveStakes, pool_positive rows, loadStakes_pool]

/-- Where every market has its reference price, nothing but the world outside fails. -/
theorem Provided.failureFree (provided : Provided settings now broker db)
    (referenced : Referenced db) (nonneg : StakesNonneg db) (held : SharesFit db) :
    FailureFree settings now broker closing resolving db := by
  constructor
  · refine closeLoop_unfailing_iff.mpr fun id member => ?_
    obtain ⟨market, found, isOpen, closesAt⟩ := mem_dueToClose.mp member
    have due : market.Due now := .inl ⟨isOpen, closesAt⟩
    refine closeAndDecide_succeeds (provided.answers id market found due)
      (provided.affordable id market found ⟨isOpen, closesAt⟩) held found isOpen ?_ ?_
      (provided.participants id market found ⟨isOpen, closesAt⟩)
    · rintro decision listed rfl
      obtain ⟨row, rowFound, left, _⟩ := referenced.decided _ (List.mem_map_of_mem listed)
      cases found.symm.trans rowFound
      exact left isOpen
    · rw [stakedTotal_eq_marketPool nonneg]
      exact provided.pools id market found due
  · refine resolveLoop_unfailing_iff.mpr fun id member => ?_
    obtain ⟨referenced, bets, tickers⟩ := @closeLoop_leaves settings now broker closing db
      provided.exactly referenced
    obtain ⟨market, found, due⟩ := due_of_dueToResolve member
    obtain ⟨later, laterFound, between, resolveAt⟩ := mem_dueToResolve.mp member
    obtain ⟨same, sameFound, ticker⟩ := tickers id market found
    cases laterFound.symm.trans sameFound
    have awaits : later.status.awaitsVerdict = true := by
      rcases between with status | status | status <;> rw [status] <;> rfl
    refine resolveAndSettle_succeeds (ticker ▸ provided.answers id market found due)
      provided.rakeNonneg provided.rakeBelow (by rwa [StakesNonneg, bets]) ?_ laterFound between
      (referenced.awaiting id later laterFound awaits)
    rw [marketPool, bets]
    exact provided.pools id market found due

/-- In every reachable state a tick in which no service call fails completes the due work
once and for all, and with quotes, a rake and pools as they should be none fails. -/
theorem tick_completes_due_work (events : List Event) (settings : Settings) (now : Time)
    (broker : TickCall → Broker) (closing resolving : RowOrder) :
    (FailureFree settings now broker closing resolving (stateAfter Db.empty events) →
      CompletesDueWork settings now broker closing resolving (stateAfter Db.empty events)) ∧
    ((∀ event ∈ events, event.Trusts Broker.QuotesExactly) →
      Provided settings now broker (stateAfter Db.empty events) →
      FailureFree settings now broker closing resolving (stateAfter Db.empty events)) :=
  ⟨FailureFree.completes, fun exactly provided =>
    provided.failureFree (referenced_stateAfter events exactly)
      (stakesNonneg_stateAfter stakesNonneg_empty events) (sharesFit_stateAfter events)⟩

/-- One tick closes, decides, resolves and settles a market that is overdue. -/
theorem tick_completes_due_work_overdue :
    CompletesDueWork {} (desk.now + 2) (fun _ => desk.broker) .insertion .insertion
        (stateAfter Db.empty openedMarket) ∧
      ((tick {} (desk.now + 2) (fun _ => desk.broker) .insertion .insertion
        (stateAfter Db.empty openedMarket)).markets.get? 1).map Market.status = some .settled := by
  obtain ⟨completes, succeeds⟩ := tick_completes_due_work openedMarket {} (desk.now + 2)
    (fun _ => desk.broker) .insertion .insertion
  refine ⟨completes (succeeds ?_ ?_), by decide +kernel⟩
  · intro event member
    exact pendingDecision_trusts desk_quotesExactly event (List.mem_append_left _ member)
  · have small : ∀ row ∈ (stateAfter Db.empty openedMarket).markets.rows,
        marketPool (stateAfter Db.empty openedMarket) row.1 < 10 ^ 16 ∧
          row.2.notionalKrw.val < 2 ^ 31 ∧
          participantCount (loadStakes (stateAfter Db.empty openedMarket) row.1) < 2 ^ 31 := by
      decide +kernel
    have listed := fun id market found => small (id, market) ((Table.mem_rows_iff _ _ _).mpr found)
    refine ⟨by decide, by decide, fun _ => desk_quotesExactly, fun _ market _ _ _ => ?_,
      fun id market found _ => (listed id market found).1, ?_,
      fun id market found _ => (listed id market found).2.2⟩
    · obtain ⟨positive, scaled⟩ := desk_quotesExactly market.ticker _ rfl
      exact ⟨_, rfl, positive, scaled, by norm_num [desk], by simp⟩
    · intro id market found _ quote quoted
      cases quoted
      have notional := (listed id market found).2.1
      norm_num [desk] at notional ⊢
      linarith

end Reachable

end FundPolymarket
