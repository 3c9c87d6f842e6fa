import FundPolymarket.StoredStakes

set_option autoImplicit false

/- When an allocation in whole cents is accepted: what it needs is a matter of the amounts
and of the sum of the balance and the old stakes. -/
namespace FundPolymarket

open Decimal (Numeric Scaled)

/-- What an allocation needs where the balance and the old stakes together are `owned`. -/
structure Acceptable (settings : Settings) (owned : ℚ) (allocation : Allocation) : Prop where
  nonempty : allocation.cleaned ≠ []
  minStake : ∀ entry ∈ allocation.cleaned, settings.minStake ≤ entry.2
  covered : allocation.total ≤ Decimal.fix owned
  withinRatio : ∃ maxAllowed,
    q (Decimal.mul (Decimal.fix owned) settings.maxStakeRatio) 2 .halfEven = .ok maxAllowed ∧
      allocation.total ≤ maxAllowed
  storable : allocation.total < 10 ^ 16

section Amounts

variable {allocation : Allocation}

theorem entry_lt_of_total (storable : allocation.total < 10 ^ 16) {entry : Outcome × ℚ}
    (member : entry ∈ allocation.cleaned) : entry.2 < 10 ^ 16 := by
  by_contra large
  have fixed : Decimal.fix (10 ^ 16) = 10 ^ 16 :=
    Decimal.fix_of_cents ⟨10 ^ 18, by norm_num⟩ (by norm_num)
  have reached : 10 ^ 16 ≤ allocation.total := by
    refine Decimal.le_foldl_add_of_mem fixed (by norm_num) le_rfl ?_
      (List.mem_map_of_mem (f := Prod.snd) member) (not_lt.mp large)
    intro x listed
    obtain ⟨other, otherMember, rfl⟩ := List.mem_map.mp listed
    exact (cleaned_pos otherMember).le
  linarith

theorem total_scaled (cents : ∀ entry ∈ allocation.entries, Scaled 2 entry.2) :
    Scaled 2 allocation.total := by
  refine Decimal.scaled_foldl_add Scaled.zero fun x listed => ?_
  obtain ⟨entry, member, rfl⟩ := List.mem_map.mp listed
  exact cents entry (List.mem_filter.mp member).1

theorem total_lt_of_stored {stored : Points}
    (result : Numeric.ofDecimal 18 2 allocation.total = some stored) :
    allocation.total < 10 ^ 16 := by
  have below := Numeric.lt_of_ofDecimal (total_nonneg allocation) result
  norm_num at below ⊢
  exact below

end Amounts

section Flush

/-- Bets of new and distinct keys can all be inserted. -/
theorem applyWrites_insertBets {db : Db} {bets : List Bet}
    (fresh : ∀ bet ∈ bets, ∀ old ∈ db.bets.contents, old.key ≠ bet.key)
    (distinct : (bets.map Bet.key).Nodup) :
    ∃ next, applyWrites db (bets.map Write.insertBet) = .ok next := by
  refine applyWrites_insertAll Db.bets (fun now bet inserted insertOk => ?_) fresh distinct
  exact ⟨_, bind_eq_ok.mpr ⟨inserted, orRaise_eq_ok.mpr insertOk, rfl⟩, rfl⟩

variable {db : Db} {marketId memberId : ℕ}

/-- Once the old rows are gone, the rows of an allocation break no constraint. -/
theorem applyWrites_allocation {refund : List LedgerEntry} {bets : List Bet} {lock : LedgerEntry}
    (owned : ∀ bet ∈ bets, bet.marketId = marketId ∧ bet.memberId = memberId)
    (outcomes : (bets.map Bet.outcome).Nodup) :
    ∃ next, applyWrites db (refund.map Write.insertLedger ++
      (existingBets db marketId memberId).map (fun row => Write.deleteBet row.1) ++
      bets.map Write.insertBet ++ [.insertLedger lock]) = .ok next := by
  have free : ∀ write ∈ refund.map Write.insertLedger ++
      (existingBets db marketId memberId).map (fun row => Write.deleteBet row.1),
        write.unconstrained = true := by
    intro write member
    rcases List.mem_append.mp member with insert | delete
    · obtain ⟨entry, _, rfl⟩ := List.mem_map.mp insert
      rfl
    · obtain ⟨row, _, rfl⟩ := List.mem_map.mp delete
      rfl
  obtain ⟨cleared, clearOk⟩ := applyWrites_unconstrained db free
  have others := cleared_bets clearOk
  have keys : bets.map Bet.key = (bets.map Bet.outcome).map fun outcome =>
      (marketId, memberId, outcome) := by
    rw [List.map_map]
    refine List.map_congr_left fun bet member => ?_
    rw [Bet.key, (owned bet member).1, (owned bet member).2]
    rfl
  have fresh : ∀ bet ∈ bets, ∀ old ∈ cleared.bets.contents, old.key ≠ bet.key := by
    intro bet member old oldMember same
    rw [others, List.mem_filter] at oldMember
    have ids := Prod.ext_iff.mp same
    have owner := (Prod.ext_iff.mp ids.2).1
    have mine := owned bet member
    have excluded := oldMember.2
    simp only [Bet.key] at ids owner
    simp [ids.1, owner, mine.1, mine.2] at excluded
  have distinct : (bets.map Bet.key).Nodup := by
    rw [keys]
    exact outcomes.map fun _ _ same => (Prod.ext_iff.mp (Prod.ext_iff.mp same).2).2
  obtain ⟨next, insertOk⟩ := applyWrites_insertBets fresh distinct
  exact ⟨{ next with ledger := next.ledger.insert lock }, by
    rw [applyWrites_append, applyWrites_append, clearOk]
    simp only [bind, Except.bind, insertOk]
    rfl⟩

end Flush

section Accepted

variable {env : Env} {db : Db} {market : Market} {marketId memberId : ℕ} {allocation : Allocation}
  {rationale : Option String}

theorem available_eq (nonneg : StakesNonneg db) (marketId memberId : ℕ) :
    Decimal.add (getBalance db memberId) (previousTotal db marketId memberId) =
      Decimal.fix (accountOn db marketId memberId) := by
  rw [previousTotal_eq nonneg]
  rfl

theorem Commits.acceptable (nonneg : StakesNonneg db) {writes : List Write}
    (committed : Commits env db (.putAllocation marketId memberId allocation rationale) writes) :
    Acceptable env.settings (accountOn db marketId memberId) allocation := by
  cases committed with
  | putAllocation found checked refunded stakes locked =>
      have passed := checkAllocation_eq_ok checked
      obtain ⟨_, _, _, stored, storedOk, _⟩ := lock_eq_ok locked
      have covers := passed.covers
      have within := passed.withinRatio
      rw [Covers, available_eq nonneg] at covers
      rw [available_eq nonneg] at within
      exact ⟨passed.nonempty, passed.minStake, covers, within, total_lt_of_stored storedOk⟩

/-- The rationale goes into every row, and there is one. -/
theorem Commits.rationale_free {writes : List Write}
    (committed : Commits env db (.putAllocation marketId memberId allocation rationale) writes) :
    ∀ text ∈ rationale, FreeText text := by
  cases committed with
  | putAllocation found checked refunded stakes locked =>
      obtain ⟨entry, member⟩ := List.exists_mem_of_ne_nil _ (checkAllocation_eq_ok checked).nonempty
      obtain ⟨bet, _, inserted⟩ := forall₂_exists_left (mapM_forall₂ stakes).flip member
      obtain ⟨_, _, rest⟩ := bind_eq_ok.mp inserted
      obtain ⟨_, checkedText, _⟩ := bind_eq_ok.mp rest
      exact checkText_eq_ok.mp checkedText

theorem checkAllocation_of_acceptable (nonneg : StakesNonneg db) (isOpen : market.status = .open)
    (inTime : env.now < market.closesAt)
    (acceptable : Acceptable env.settings (accountOn db marketId memberId) allocation) :
    checkAllocation env.settings db marketId market memberId allocation env.now = .ok () := by
  have enough : ¬ ∃ entry ∈ allocation.cleaned, entry.2 < env.settings.minStake := by
    rintro ⟨entry, member, less⟩
    exact absurd (acceptable.minStake entry member) (not_le.mpr less)
  obtain ⟨maxAllowed, quantized, within⟩ := acceptable.withinRatio
  rw [← available_eq nonneg] at quantized
  refine raiseIf_bind_eq_ok.mpr ⟨not_not.mpr isOpen, raiseIf_bind_eq_ok.mpr
    ⟨not_le.mpr inTime, raiseIf_bind_eq_ok.mpr ⟨acceptable.nonempty, raiseIf_bind_eq_ok.mpr
      ⟨enough, raiseIf_bind_eq_ok.mpr ⟨?_, bind_eq_ok.mpr
        ⟨maxAllowed, quantized, raiseIf_eq_ok.mpr (not_lt.mpr within)⟩⟩⟩⟩⟩⟩
  rw [available_eq nonneg]
  exact not_lt.mpr acceptable.covered

/-- The old stakes can be refunded where their total fits the ledger. -/
theorem previousRefund_stores (nonneg : StakesNonneg db)
    (refundable : staked (ownBets db marketId memberId) < 10 ^ 16) :
    ∃ refund, previousRefund db marketId memberId = .ok refund := by
  rw [previousRefund]
  split
  · rename_i positive
    obtain ⟨stored, storedOk⟩ := @Numeric.exists_ofDecimal 18 2 (previousTotal db marketId memberId)
      (previousTotal_scaled nonneg marketId memberId) (by
        rw [abs_of_pos positive, previousTotal_eq nonneg]
        norm_num
        exact refundable)
    exact ⟨_, bind_eq_ok.mpr ⟨_, bind_eq_ok.mpr ⟨stored, orRaise_eq_ok.mpr storedOk, rfl⟩, rfl⟩⟩
  · exact ⟨[], rfl⟩

theorem newBets_store (marketId memberId : ℕ) (free : ∀ text ∈ rationale, FreeText text)
    (cents : ∀ entry ∈ allocation.entries, Scaled 2 entry.2)
    (storable : allocation.total < 10 ^ 16) :
    ∃ bets, allocation.cleaned.mapM (newBet marketId memberId rationale) = .ok bets := by
  refine exists_mapM_eq_ok fun entry member => ?_
  obtain ⟨stored, storedOk⟩ := @Numeric.exists_ofDecimal 18 2 entry.2
    (cents entry (List.mem_filter.mp member).1) (by
      rw [abs_of_pos (cleaned_pos member)]
      norm_num
      exact entry_lt_of_total storable member)
  exact ⟨_, bind_eq_ok.mpr ⟨stored, orRaise_eq_ok.mpr storedOk, bind_eq_ok.mpr
    ⟨(), checkText_eq_ok.mpr free, rfl⟩⟩⟩

theorem lock_stores (marketId memberId : ℕ) (cents : ∀ entry ∈ allocation.entries, Scaled 2 entry.2)
    (storable : allocation.total < 10 ^ 16) (memo : Option String) :
    ∃ lock, record memberId .betLock (-allocation.total) (some marketId) memo = .ok lock := by
  obtain ⟨stored, storedOk⟩ := @Numeric.exists_ofDecimal 18 2 (-allocation.total)
    (total_scaled cents).neg (by
      rw [abs_neg, abs_of_nonneg (total_nonneg allocation)]
      norm_num
      exact storable)
  exact ⟨_, bind_eq_ok.mpr ⟨stored, orRaise_eq_ok.mpr storedOk, rfl⟩⟩

/-- What is acceptable is accepted. -/
theorem putAllocation_accepted (nonneg : StakesNonneg db)
    (found : db.markets.get? marketId = some market) (isOpen : market.status = .open)
    (inTime : env.now < market.closesAt)
    (refundable : staked (ownBets db marketId memberId) < 10 ^ 16)
    (cents : ∀ entry ∈ allocation.entries, Scaled 2 entry.2)
    (acceptable : Acceptable env.settings (accountOn db marketId memberId) allocation)
    (free : ∀ text ∈ rationale, FreeText text) :
    (serve env (.putAllocation marketId memberId allocation rationale) db).result = .ok () := by
  have checked := checkAllocation_of_acceptable nonneg isOpen inTime acceptable
  obtain ⟨refund, refunded⟩ := previousRefund_stores nonneg refundable
  obtain ⟨bets, stakes⟩ := newBets_store marketId memberId free cents acceptable.storable
  obtain ⟨lock, locked⟩ := lock_stores marketId memberId cents acceptable.storable
    (some s!"마켓 #{marketId} 베팅")
  have news := newBets_eq_ok stakes
  have outcomes : bets.map Bet.outcome = allocation.cleaned.map Prod.fst :=
    forall₂_map_eq news fun _ _ _ new => new.outcome_eq
  have owned : ∀ bet ∈ bets, bet.marketId = marketId ∧ bet.memberId = memberId := by
    intro bet member
    have new := newBets_mem news member
    exact ⟨new.1, new.2.1⟩
  have distinct : (bets.map Bet.outcome).Nodup :=
    outcomes ▸ allocation.nodup.sublist (List.filter_sublist.map _)
  obtain ⟨next, applied⟩ := @applyWrites_allocation db marketId memberId refund bets lock owned
    distinct
  refine (committed_of_handle ?_ applied).returned
  exact congrArg Handled.ofService (bind_eq_ok.mpr ⟨market, orRaise_eq_ok.mpr found,
    bind_eq_ok.mpr ⟨(), checked, bind_eq_ok.mpr ⟨refund, refunded, bind_eq_ok.mpr ⟨bets, stakes,
      bind_eq_ok.mpr ⟨lock, locked, rfl⟩⟩⟩⟩⟩)

end Accepted

end FundPolymarket
