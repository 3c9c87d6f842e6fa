import FundPolymarket.Accounts

set_option autoImplicit false

/- Replacing an allocation: what the refund, the new stakes and the lock amount to. -/
namespace FundPolymarket

open Decimal (Numeric Scaled)

/-- No stake is negative. -/
def StakesNonneg (db : Db) : Prop := ∀ bet ∈ db.bets.contents, 0 ≤ bet.stake.val

/-- The balance and the old stakes cover an allocation. -/
def Covers (db : Db) (marketId memberId : ℕ) (allocation : Allocation) : Prop :=
  allocation.total ≤ Decimal.add (getBalance db memberId) (previousTotal db marketId memberId)

/-- What the checks of `place_allocation` establish. -/
structure AllocationChecked (settings : Settings) (db : Db) (marketId : ℕ) (market : Market)
    (memberId : ℕ) (allocation : Allocation) (now : Time) : Prop where
  isOpen : market.status = .open
  inTime : now < market.closesAt
  nonempty : allocation.cleaned ≠ []
  minStake : ∀ entry ∈ allocation.cleaned, settings.minStake ≤ entry.2
  covers : Covers db marketId memberId allocation
  withinRatio : ∃ maxAllowed,
    q (Decimal.mul (Decimal.add (getBalance db memberId) (previousTotal db marketId memberId))
      settings.maxStakeRatio) 2 .halfEven = .ok maxAllowed ∧ allocation.total ≤ maxAllowed

theorem checkAllocation_eq_ok {settings : Settings} {db : Db} {marketId : ℕ} {market : Market}
    {memberId : ℕ} {allocation : Allocation} {now : Time}
    (success : checkAllocation settings db marketId market memberId allocation now = .ok ()) :
    AllocationChecked settings db marketId market memberId allocation now := by
  obtain ⟨isOpen, rest⟩ := raiseIf_bind_eq_ok.mp success
  obtain ⟨inTime, rest⟩ := raiseIf_bind_eq_ok.mp rest
  obtain ⟨nonempty, rest⟩ := raiseIf_bind_eq_ok.mp rest
  obtain ⟨minStake, rest⟩ := raiseIf_bind_eq_ok.mp rest
  obtain ⟨covers, rest⟩ := raiseIf_bind_eq_ok.mp rest
  obtain ⟨maxAllowed, quantized, rest⟩ := bind_eq_ok.mp rest
  have within := raiseIf_eq_ok.mp rest
  push Not at minStake
  exact ⟨not_not.mp isOpen, not_le.mp inTime, nonempty, minStake, not_lt.mp covers,
    maxAllowed, quantized, not_lt.mp within⟩

section Bounds

/-- The stored points are below `10 ^ 16`. -/
theorem points_lt (points : Points) : points.val < 10 ^ 16 := by
  have bound := lt_of_abs_lt points.abs_val_lt
  norm_num at bound ⊢
  exact bound

theorem length_le_of_nodup_outcomes {outcomes : List Outcome} (nodup : outcomes.Nodup) :
    outcomes.length ≤ 3 :=
  (nodup.subperm fun outcome _ => mem_allOutcomes outcome).length_le

theorem sum_lt_of_short {values : List ℚ} (short : values.length ≤ 3)
    (small : ∀ x ∈ values, x < 10 ^ 16) : values.sum < 10 ^ 26 := by
  have bound : values.sum ≤ values.length • (10 ^ 16 : ℚ) :=
    List.sum_le_card_nsmul values _ fun x member => (small x member).le
  have length : (values.length : ℚ) ≤ 3 := by exact_mod_cast short
  rw [nsmul_eq_mul] at bound
  linarith

end Bounds

section Previous

variable {db : Db}

/-- A member has at most one row for each outcome. -/
theorem existing_outcomes_nodup (db : Db) (marketId memberId : ℕ) :
    ((existingBets db marketId memberId).map fun row => row.2.outcome).Nodup := by
  have mine : ((ownBets db marketId memberId).map Bet.key).Nodup :=
    db.bets.contents_unique.sublist (List.Sublist.map Bet.key List.filter_sublist)
  rw [← existingBets_values, List.map_map] at mine
  refine List.Nodup.of_map (fun outcome => (marketId, memberId, outcome)) ?_
  rw [List.map_map]
  refine (List.map_congr_left ?_).symm ▸ mine
  intro row member
  obtain ⟨_, market, owner⟩ := existingBets_mem member
  simp [Bet.key, market, owner]

theorem existing_length (db : Db) (marketId memberId : ℕ) :
    (existingBets db marketId memberId).length ≤ 3 := by
  have outcomes := length_le_of_nodup_outcomes (existing_outcomes_nodup db marketId memberId)
  rwa [List.length_map] at outcomes

/-- The old stakes add up exactly. -/
theorem previousTotal_eq (nonneg : StakesNonneg db) (marketId memberId : ℕ) :
    previousTotal db marketId memberId = staked (ownBets db marketId memberId) := by
  have values : (existingBets db marketId memberId).map (fun row => row.2.stake.val) =
      ((existingBets db marketId memberId).map Prod.snd).map fun bet => bet.stake.val := by
    rw [List.map_map]
    rfl
  rw [previousTotal, Decimal.sum_exact, values, existingBets_values]
  · rfl
  · intro x member
    obtain ⟨row, _, rfl⟩ := List.mem_map.mp member
    exact row.2.stake.val_scaled
  · intro x member
    obtain ⟨row, rowMember, rfl⟩ := List.mem_map.mp member
    exact nonneg row.2 (existingBets_mem rowMember).1
  · refine sum_lt_of_short (by simpa using existing_length db marketId memberId) ?_
    intro x member
    obtain ⟨row, _, rfl⟩ := List.mem_map.mp member
    exact points_lt row.2.stake

theorem previousTotal_nonneg (nonneg : StakesNonneg db) (marketId memberId : ℕ) :
    0 ≤ previousTotal db marketId memberId := by
  rw [previousTotal_eq nonneg]
  exact staked_nonneg fun bet member => nonneg bet (List.mem_filter.mp member).1

theorem previousTotal_scaled (nonneg : StakesNonneg db) (marketId memberId : ℕ) :
    Scaled 2 (previousTotal db marketId memberId) := by
  rw [previousTotal_eq nonneg]
  exact staked_scaled _

end Previous

section Moves

variable {db : Db} {marketId memberId : ℕ} {allocation : Allocation}

theorem refund_recorded {refund : List LedgerEntry}
    (success : previousRefund db marketId memberId = .ok refund) :
    ∀ entry ∈ refund, Recorded memberId .betRefund (previousTotal db marketId memberId)
      (some marketId) entry := by
  unfold previousRefund at success
  split at success
  · obtain ⟨entry, recordedOk, same⟩ := bind_eq_ok.mp success
    cases same
    intro listed member
    rw [List.mem_singleton.mp member]
    exact record_eq_ok recordedOk
  · cases success
    intro listed member
    cases member

/-- The refund is what was staked before. -/
theorem previousRefund_eq_ok {refund : List LedgerEntry} (nonneg : StakesNonneg db)
    (success : previousRefund db marketId memberId = .ok refund) :
    amounts refund = previousTotal db marketId memberId := by
  have recorded := refund_recorded success
  unfold previousRefund at success
  split at success
  · obtain ⟨entry, _, same⟩ := bind_eq_ok.mp success
    cases same
    have row := recorded entry (List.mem_singleton_self entry)
    rw [amounts_singleton, row.exact (previousTotal_scaled nonneg marketId memberId)]
  · rename_i notPositive
    cases success
    exact le_antisymm (previousTotal_nonneg nonneg marketId memberId) (not_lt.mp notPositive)

/-- A new bet row and the entry of the allocation that it stores. -/
structure NewBet (marketId memberId : ℕ) (entry : Outcome × ℚ) (bet : Bet) : Prop where
  marketId_eq : bet.marketId = marketId
  memberId_eq : bet.memberId = memberId
  outcome_eq : bet.outcome = entry.1
  stored : Numeric.ofDecimal 18 2 entry.2 = some bet.stake

theorem newBets_eq_ok {rationale : Option String} {bets : List Bet}
    (success : allocation.cleaned.mapM (newBet marketId memberId rationale) = .ok bets) :
    List.Forall₂ (NewBet marketId memberId) allocation.cleaned bets := by
  refine (mapM_forall₂ success).imp fun entry bet newOk => ?_
  obtain ⟨stake, stored, rest⟩ := bind_eq_ok.mp newOk
  obtain ⟨_, _, same⟩ := bind_eq_ok.mp rest
  cases same
  exact ⟨rfl, rfl, rfl, orRaise_eq_ok.mp stored⟩

theorem cleaned_pos {entry : Outcome × ℚ} (member : entry ∈ allocation.cleaned) : 0 < entry.2 := by
  simpa using (List.mem_filter.mp member).2

theorem cleaned_length (allocation : Allocation) : allocation.cleaned.length ≤ 3 := by
  have outcomes : (allocation.cleaned.map Prod.fst).Nodup :=
    allocation.nodup.sublist (List.filter_sublist.map _)
  simpa using length_le_of_nodup_outcomes outcomes

theorem total_nonneg (allocation : Allocation) : 0 ≤ allocation.total := by
  refine Decimal.sum_nonneg fun x member => ?_
  obtain ⟨entry, entryMember, rfl⟩ := List.mem_map.mp member
  exact (cleaned_pos entryMember).le

theorem newBets_mem {bets : List Bet}
    (news : List.Forall₂ (NewBet marketId memberId) allocation.cleaned bets) {bet : Bet}
    (member : bet ∈ bets) :
    bet.marketId = marketId ∧ bet.memberId = memberId ∧ 0 ≤ bet.stake.val := by
  obtain ⟨entry, entryMember, new⟩ := forall₂_exists_left news member
  exact ⟨new.marketId_eq, new.memberId_eq,
    Numeric.val_nonneg_of_ofDecimal (cleaned_pos entryMember).le new.stored⟩

/-- With whole cents the new stakes add up to the lock. -/
theorem staked_newBets {bets : List Bet}
    (news : List.Forall₂ (NewBet marketId memberId) allocation.cleaned bets)
    (cents : ∀ entry ∈ allocation.cleaned, Scaled 2 entry.2) :
    staked bets = allocation.total := by
  have exactly : bets.map (fun bet => bet.stake.val) = allocation.cleaned.map Prod.snd :=
    forall₂_map_eq news fun entry member bet new =>
      Numeric.val_ofDecimal (cents entry member) new.stored
  rw [staked, Allocation.total, Decimal.sum_exact, exactly]
  · intro x member
    obtain ⟨entry, entryMember, rfl⟩ := List.mem_map.mp member
    exact cents entry entryMember
  · intro x member
    obtain ⟨entry, entryMember, rfl⟩ := List.mem_map.mp member
    exact (cleaned_pos entryMember).le
  · refine sum_lt_of_short (by simpa using cleaned_length allocation) fun x member => ?_
    rw [← exactly] at member
    obtain ⟨bet, _, rfl⟩ := List.mem_map.mp member
    exact points_lt bet.stake

/-- The lock takes the stored total off the balance. -/
theorem lock_eq_ok {memo : Option String} {lock : LedgerEntry}
    (success : record memberId .betLock (-allocation.total) (some marketId) memo = .ok lock) :
    lock.memberId = memberId ∧ lock.marketId = some marketId ∧ lock.entryType = .betLock ∧
      ∃ stored : Points, Numeric.ofDecimal 18 2 allocation.total = some stored ∧
        lock.amount.val = -stored.val := by
  have recorded := record_eq_ok success
  obtain ⟨stored, storedOk, mirrored⟩ := Numeric.ofDecimal_neg recorded.stored
  exact ⟨recorded.memberId_eq, recorded.marketId_eq, recorded.entryType_eq, stored, storedOk,
    mirrored⟩

/-- What a member locks is covered by the balance and the refund. -/
theorem lock_covered {stored : Points} (nonneg : StakesNonneg db)
    (solvent : 0 ≤ getBalance db memberId) (covers : Covers db marketId memberId allocation)
    (storedOk : Numeric.ofDecimal 18 2 allocation.total = some stored) :
    stored.val ≤ getBalance db memberId + previousTotal db marketId memberId := by
  have previous := previousTotal_nonneg nonneg marketId memberId
  have cents : Scaled 2 (getBalance db memberId + previousTotal db marketId memberId) :=
    (amounts_scaled _).add (previousTotal_scaled nonneg marketId memberId)
  by_cases small : getBalance db memberId + previousTotal db marketId memberId < 10 ^ 26
  · have exactly := Decimal.fix_of_cents cents
      (by rwa [abs_of_nonneg (add_nonneg solvent previous)])
    rw [Covers, Decimal.add, exactly] at covers
    exact Numeric.val_ofDecimal_le cents (total_nonneg allocation) covers storedOk
  · have bound := points_lt stored
    linarith [not_lt.mp small]

end Moves

/-- What a committed allocation has done: the entries it added and the bets that
replace the old ones. -/
structure Reallocated (db : Db) (marketId memberId : ℕ) (allocation : Allocation) (next : Db)
    (entries : List LedgerEntry) (bets : List Bet) : Prop where
  ledger : next.ledger.contents = db.ledger.contents ++ entries
  own : ∀ entry ∈ entries, entry.memberId = memberId ∧ entry.marketId = some marketId ∧
    (entry.entryType = .betRefund ∨ entry.entryType = .betLock)
  bets_eq : next.bets.contents = (db.bets.contents.filter fun bet =>
    !decide (bet.marketId = marketId ∧ bet.memberId = memberId)) ++ bets
  news : ∀ bet ∈ bets, bet.marketId = marketId ∧ bet.memberId = memberId ∧ 0 ≤ bet.stake.val
  covered : Covers db marketId memberId allocation → 0 ≤ getBalance db memberId →
    0 ≤ getBalance db memberId + amounts entries
  balanced : (∀ entry ∈ allocation.cleaned, Scaled 2 entry.2) →
    amounts entries + staked bets = staked (ownBets db marketId memberId)

/-- The refund, the new bets and the lock, written to a state with the same old bets. -/
theorem Reallocated.of_rows {db next : Db} {marketId memberId : ℕ} {allocation : Allocation}
    {rationale memo : Option String} {refund : List LedgerEntry} {bets : List Bet}
    {lock : LedgerEntry} (nonneg : StakesNonneg db)
    (refunded : previousRefund db marketId memberId = .ok refund)
    (stakedOk : allocation.cleaned.mapM (newBet marketId memberId rationale) = .ok bets)
    (locked : record memberId .betLock (-allocation.total) (some marketId) memo = .ok lock)
    (applied : applyWrites db (refund.map Write.insertLedger ++
      (existingBets db marketId memberId).map (fun row => Write.deleteBet row.1) ++
      bets.map Write.insertBet ++ [.insertLedger lock]) = .ok next) :
    Reallocated db marketId memberId allocation next (refund ++ [lock]) bets := by
  have ledger := applyWrites_ledger applied
  rw [allocation_rows] at ledger
  have refundSum := previousRefund_eq_ok nonneg refunded
  obtain ⟨lockMember, lockMarket, lockType, stored, storedOk, lockAmount⟩ := lock_eq_ok locked
  have news := newBets_eq_ok stakedOk
  refine ⟨ledger, ?_, allocation_bets applied, fun bet member => newBets_mem news member, ?_, ?_⟩
  · intro entry member
    rcases List.mem_append.mp member with old | new
    · have row := refund_recorded refunded entry old
      exact ⟨row.memberId_eq, row.marketId_eq, .inl row.entryType_eq⟩
    · rw [List.mem_singleton.mp new]
      exact ⟨lockMember, lockMarket, .inr lockType⟩
  · intro covers solvent
    have bound := lock_covered nonneg solvent covers storedOk
    rw [amounts_append, amounts_singleton, refundSum, lockAmount]
    linarith
  · intro cents
    have exactly := staked_newBets news cents
    have lockCents : Scaled 2 allocation.total := exactly ▸ staked_scaled bets
    rw [amounts_append, amounts_singleton, refundSum, lockAmount,
      Numeric.val_ofDecimal lockCents storedOk, previousTotal_eq nonneg, exactly]
    ring

theorem Commits.reallocated {env : Env} {db next : Db} {marketId memberId : ℕ}
    {allocation : Allocation} {rationale : Option String} {writes : List Write}
    (nonneg : StakesNonneg db)
    (committed : Commits env db (.putAllocation marketId memberId allocation rationale) writes)
    (applied : applyWrites db writes = .ok next) :
    ∃ entries bets, Reallocated db marketId memberId allocation next entries bets ∧
      Covers db marketId memberId allocation := by
  cases committed with
  | putAllocation found checked refunded staked locked =>
      exact ⟨_, _, .of_rows nonneg refunded staked locked applied,
        (checkAllocation_eq_ok checked).covers⟩

section Own

variable {db next : Db} {marketId memberId : ℕ} {allocation : Allocation}
  {entries : List LedgerEntry} {bets : List Bet}

/-- All stakes of a member. -/
def memberStakes (db : Db) (memberId : ℕ) : ℚ :=
  staked (db.bets.contents.filter fun bet => bet.memberId = memberId)

theorem Reallocated.balance (reallocated : Reallocated db marketId memberId allocation next entries
    bets) : getBalance next memberId = getBalance db memberId + amounts entries := by
  have all : (entries.filter fun entry => entry.memberId = memberId) = entries := by
    apply List.filter_eq_self.mpr
    intro entry member
    simp [(reallocated.own entry member).1]
  rw [getBalance_append reallocated.ledger, all]

theorem Reallocated.balance_others (reallocated : Reallocated db marketId memberId allocation next
    entries bets) {other : ℕ} (differs : other ≠ memberId) :
    getBalance next other = getBalance db other := by
  have none : (entries.filter fun entry => entry.memberId = other) = [] := by
    apply List.filter_eq_nil_iff.mpr
    intro entry member
    simp [(reallocated.own entry member).1, differs.symm]
  rw [getBalance_append reallocated.ledger, none, amounts_nil, add_zero]

theorem Reallocated.stakes (reallocated : Reallocated db marketId memberId allocation next entries
    bets) :
    memberStakes next memberId + staked (ownBets db marketId memberId) =
      memberStakes db memberId + staked bets := by
  have news : (bets.filter fun bet => bet.memberId = memberId) = bets := by
    apply List.filter_eq_self.mpr
    intro bet member
    simp [(reallocated.news bet member).2.1]
  have split := staked_filter_add (db.bets.contents.filter fun bet => bet.memberId = memberId)
    fun bet => decide (bet.marketId = marketId ∧ bet.memberId = memberId)
  rw [List.filter_filter, List.filter_filter] at split
  have mine : (db.bets.contents.filter fun bet =>
      decide (bet.marketId = marketId ∧ bet.memberId = memberId) &&
        decide (bet.memberId = memberId)) = ownBets db marketId memberId := by
    apply List.filter_congr
    intro bet _
    by_cases owner : bet.memberId = memberId <;> simp [owner]
  rw [memberStakes, reallocated.bets_eq, List.filter_append, news, staked_append,
    List.filter_filter, memberStakes, ← split, mine]
  have others : (db.bets.contents.filter fun bet => decide (bet.memberId = memberId) &&
      !decide (bet.marketId = marketId ∧ bet.memberId = memberId)) =
      db.bets.contents.filter fun bet =>
        !decide (bet.marketId = marketId ∧ bet.memberId = memberId) &&
          decide (bet.memberId = memberId) := by
    apply List.filter_congr
    intro bet _
    exact Bool.and_comm _ _
  rw [others]
  ring

theorem Reallocated.nonneg (reallocated : Reallocated db marketId memberId allocation next entries
    bets) (nonneg : StakesNonneg db) : StakesNonneg next := by
  intro bet member
  rw [reallocated.bets_eq] at member
  rcases List.mem_append.mp member with old | new
  · exact nonneg bet (List.mem_filter.mp old).1
  · exact (reallocated.news bet new).2.2

/-- With whole cents an allocation moves points between the balance and the stakes. -/
theorem Reallocated.conserves
    (reallocated : Reallocated db marketId memberId allocation next entries bets)
    (cents : ∀ entry ∈ allocation.entries, Scaled 2 entry.2) :
    getBalance next memberId + memberStakes next memberId =
      getBalance db memberId + memberStakes db memberId := by
  have balanced := reallocated.balanced fun entry member =>
    cents entry (List.mem_filter.mp member).1
  rw [reallocated.balance]
  linarith [reallocated.stakes]

end Own

end FundPolymarket
