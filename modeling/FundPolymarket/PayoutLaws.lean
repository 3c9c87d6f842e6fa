import FundPolymarket.DecimalQuotients
import FundPolymarket.Payouts

set_option autoImplicit false

/- The laws of a settlement over stakes in whole cents: the pool is conserved, payouts
are proportional up to a cent, and when winners keep their principal. -/
namespace FundPolymarket

open Decimal (Scaled unitRoundoff)

/-- What a member has staked in rows that count. -/
def ownStake (stakes : List Stake) (memberId : ℕ) : ℚ :=
  pool (stakes.filter fun s => s.memberId = memberId ∧ 0 < s.amount)

/-- The basis points of the losing pool, truncated to cents. -/
def exactRake (stakes : List Stake) (winningOutcome : Outcome) (rakeBps : ℤ) : ℚ :=
  (⌊(pool (positiveStakes stakes) - pool (winners stakes winningOutcome)) * rakeBps / 10000 *
    10 ^ 2⌋ : ℚ) / 10 ^ 2

/-- What a settlement hands out to its winners. -/
def handedOut (stakes : List Stake) (winningOutcome : Outcome) (rakeBps : ℤ) : ℚ :=
  pool (positiveStakes stakes) - exactRake stakes winningOutcome rakeBps

section Positive

variable (stakes : List Stake) (winningOutcome : Outcome) (rakeBps : ℤ)

/-- Rows that are not positive take no part in a settlement. -/
theorem settleParimutuel_positiveStakes :
    settleParimutuel (positiveStakes stakes) winningOutcome rakeBps =
      settleParimutuel stakes winningOutcome rakeBps := by
  have total : totalPool (positiveStakes stakes) = totalPool stakes := by
    simp only [totalPool, positiveStakes, List.filter_filter, Bool.and_self]
  have refunded : refunds (positiveStakes stakes) = refunds stakes := by
    simp only [refunds, positiveStakes, List.filter_filter, Bool.and_self]
  rw [settleParimutuel, settleParimutuel, winningPool, rake, winningPool,
    winners_positiveStakes, total, refunded]
  rfl

end Positive

section Laws

variable {stakes : List Stake} {winningOutcome : Outcome} {rakeBps : ℤ}

/-- Below ten billion points the rake is exact before it is truncated. -/
theorem rake_positiveStakes (cents : CentStakes (positiveStakes stakes))
    (small : pool (positiveStakes stakes) < 10 ^ 10) (lower : 0 ≤ rakeBps)
    (upper : rakeBps < 10000) :
    rake (positiveStakes stakes) winningOutcome rakeBps =
      .ok (exactRake stakes winningOutcome rakeBps) := by
  have below := winners_pool_le cents winningOutcome
  have winnersNonneg := (winners_cents cents winningOutcome).pool_nonneg
  have losingScaled : Scaled 2 (pool (positiveStakes stakes) -
      pool (winners (positiveStakes stakes) winningOutcome)) :=
    cents.pool_scaled.sub (winners_cents cents winningOutcome).pool_scaled
  obtain ⟨rakedNonneg, raked_le⟩ := raked_le (sub_nonneg.mpr below) lower upper
  rw [rake, losingPool_eq cents, q, Decimal.quantize_down rakedNonneg]
  · rw [winners_positiveStakes] at below winnersNonneg losingScaled ⊢
    set losing : ℚ := pool (positiveStakes stakes) - pool (winners stakes winningOutcome)
      with losingDef
    have losingNonneg : 0 ≤ losing := sub_nonneg.mpr below
    have bpsNonneg : (0 : ℚ) ≤ rakeBps := by exact_mod_cast lower
    have bps_le : (rakeBps : ℚ) ≤ 10000 := by exact_mod_cast upper.le
    have product_le : losing * rakeBps ≤ 10 ^ 10 * 10000 := by
      gcongr
      linarith
    obtain ⟨n, n_eq⟩ := losingScaled
    have product_eq : Decimal.mul losing rakeBps = losing * rakeBps := by
      apply Decimal.fix_of_cents ⟨n * rakeBps, by rw [n_eq]; push_cast; ring⟩
      rw [abs_of_nonneg (mul_nonneg losingNonneg bpsNonneg)]
      linarith
    have quotient_eq : Decimal.div (losing * rakeBps) 10000 = losing * rakeBps / 10000 := by
      have scaled : Scaled 6 (losing * rakeBps / 10000) :=
        ⟨n * rakeBps, by rw [n_eq]; push_cast; ring⟩
      apply Decimal.fix_of_scaled scaled
      rw [abs_of_nonneg (div_nonneg (mul_nonneg losingNonneg bpsNonneg) (by norm_num))]
      norm_num [Decimal.prec]
      linarith
    rw [product_eq, quotient_eq]
    rfl
  · norm_num [Decimal.prec]
    linarith

/-- A settlement with a winner pays `winnings`. -/
theorem settleParimutuel_eq_winnings (cents : CentStakes (positiveStakes stakes))
    (small : pool (positiveStakes stakes) < 10 ^ 10) (lower : 0 ≤ rakeBps)
    (upper : rakeBps < 10000) (somebody : 0 < pool (winners stakes winningOutcome)) :
    Distributes (positiveStakes stakes) winningOutcome
        (handedOut stakes winningOutcome rakeBps) ∧
      settleParimutuel stakes winningOutcome rakeBps =
        .ok (winnings (handedOut stakes winningOutcome rakeBps)
          (winners stakes winningOutcome)) := by
  rw [← winners_positiveStakes] at somebody
  obtain ⟨amount, raked, distributes, settled⟩ :=
    settleParimutuel_winnings cents lower upper somebody
  rw [rake_positiveStakes cents small lower upper] at raked
  cases raked
  rw [settleParimutuel_positiveStakes, winners_positiveStakes] at settled
  exact ⟨distributes, settled⟩

theorem winners_nil_iff (cents : CentStakes (positiveStakes stakes)) :
    winners stakes winningOutcome = [] ↔ ¬ 0 < pool (winners stakes winningOutcome) := by
  constructor
  · intro nobody
    simp [nobody, pool]
  · intro empty
    rw [List.eq_nil_iff_forall_not_mem]
    intro s member
    have nonneg := (winners_cents cents winningOutcome).nonneg
    rw [winners_positiveStakes] at nonneg
    exact empty (pool_pos_of_mem nonneg member (winners_pos member))

/-- The remainder goes to a winner. -/
theorem payRemainder_members {remainder : ℚ} {winning : List Stake} {payouts : List (ℕ × ℚ)}
    (listed : ∀ memberId ∈ payouts.map Prod.fst, ∃ s ∈ winning, s.memberId = memberId) :
    ∀ memberId ∈ (payRemainder remainder winning payouts).map Prod.fst,
      ∃ s ∈ winning, s.memberId = memberId := by
  intro memberId key
  rw [payRemainder] at key
  split at key
  · rename_i top chosen
    split at key
    · rcases (Tally.mem_keys_add _ _ _ _).mp key with same | key
      · exact ⟨top, topWinner_mem chosen, same.symm⟩
      · exact listed _ key
    · exact listed _ key
  · exact listed _ key

/-- Whoever appears in the winnings has a winning stake. -/
theorem winnings_members {distributable : ℚ} {winning : List Stake} {entry : ℕ × ℚ}
    (paid : entry ∈ winnings distributable winning) : ∃ s ∈ winning, s.memberId = entry.1 := by
  refine payRemainder_members (fun memberId member => ?_) _ (List.mem_map_of_mem paid)
  rw [tallied, Tally.mem_keys_ofList, List.map_map, List.mem_map] at member
  exact member

/-- Whoever appears in the payouts of a settlement has a stake that counts. -/
theorem settleParimutuel_members {payouts : List (ℕ × ℚ)}
    (success : settleParimutuel stakes winningOutcome rakeBps = .ok payouts) {memberId : ℕ}
    (listed : memberId ∈ payouts.map Prod.fst) :
    ∃ s ∈ stakes, s.memberId = memberId ∧ 0 < s.amount := by
  obtain ⟨_, rest⟩ := raiseIf_bind_eq_ok.mp success
  split at rest
  · cases rest
    rw [refunds, Tally.mem_keys_ofList, List.map_map, List.mem_map] at listed
    obtain ⟨s, kept, owner⟩ := listed
    obtain ⟨member, positive⟩ := List.mem_filter.mp kept
    exact ⟨s, member, owner, of_decide_eq_true positive⟩
  · obtain ⟨amount, _, rest⟩ := bind_eq_ok.mp rest
    obtain ⟨paid, shared, same⟩ := bind_eq_ok.mp rest
    cases same
    have winning : ∀ other ∈ (Tally.ofList paid).map Prod.fst,
        ∃ s ∈ winners stakes winningOutcome, s.memberId = other := by
      intro other member
      rw [Tally.mem_keys_ofList] at member
      obtain ⟨entry, entryMember, rfl⟩ := List.mem_map.mp member
      obtain ⟨s, won, shareOk⟩ := forall₂_exists_left (mapM_forall₂ shared) entryMember
      obtain ⟨part, _, same⟩ := bind_eq_ok.mp shareOk
      cases same
      exact ⟨s, won, rfl⟩
    obtain ⟨s, won, owner⟩ := payRemainder_members winning memberId listed
    exact ⟨s, (List.mem_filter.mp won).1, owner, winners_pos won⟩

theorem settleParimutuel_eq_refunds (lower : 0 ≤ rakeBps) (upper : rakeBps < 10000)
    (nobody : winners stakes winningOutcome = []) :
    settleParimutuel stakes winningOutcome rakeBps = .ok (refunds stakes) := by
  rw [settleParimutuel, raiseIf_bind_eq_ok]
  refine ⟨by omega, ?_⟩
  rw [winningPool, nobody, if_pos (by simp [Decimal.sum])]
  rfl

/-- A settlement with the rake in range always goes through. -/
theorem settleParimutuel_succeeds (cents : CentStakes stakes) (lower : 0 ≤ rakeBps)
    (upper : rakeBps < 10000) : ∃ payouts, settleParimutuel stakes winningOutcome rakeBps =
      .ok payouts := by
  by_cases nobody : winners stakes winningOutcome = []
  · exact ⟨_, settleParimutuel_eq_refunds lower upper nobody⟩
  · obtain ⟨s, won⟩ := List.exists_mem_of_ne_nil _ nobody
    obtain ⟨_, _, _, settled⟩ := settleParimutuel_winnings cents lower upper
      (pool_pos_of_mem (winners_cents cents winningOutcome).nonneg won (winners_pos won))
    exact ⟨_, settled⟩

theorem get_refunds (cents : CentStakes (positiveStakes stakes)) (memberId : ℕ) :
    Tally.get (refunds stakes) memberId = ownStake stakes memberId := by
  have own : (((stakes.filter fun s => 0 < s.amount).map fun s => (s.memberId, s.amount)).filter
      fun entry => entry.1 = memberId).map Prod.snd =
        (stakes.filter fun s => s.memberId = memberId ∧ 0 < s.amount).map Stake.amount := by
    rw [List.filter_map, List.map_map, List.filter_filter]
    simp only [Function.comp_def, Bool.decide_and]
  have part : CentStakes (stakes.filter fun s => s.memberId = memberId ∧ 0 < s.amount) := by
    have filtered := (cents.filter fun s => s.memberId = memberId).1
    rw [positiveStakes, List.filter_filter] at filtered
    simpa only [Bool.decide_and] using filtered
  rw [refunds, Tally.get_ofList, own, part.sum_eq, ownStake]

/-- Without a winner everybody gets the own stakes back; otherwise the whole pool but for
the rake goes to winners, and nobody pays in. -/
theorem settlement_conserves_pool (cents : ∀ s ∈ stakes, Scaled 2 s.amount)
    (small : pool (positiveStakes stakes) < 10 ^ 10) (lower : 0 ≤ rakeBps)
    (upper : rakeBps < 10000) :
    ∃ payouts, settleParimutuel stakes winningOutcome rakeBps = .ok payouts ∧
      (payouts.map Prod.fst).Nodup ∧
      (winners stakes winningOutcome = [] →
        ∀ memberId, Tally.get payouts memberId = ownStake stakes memberId) ∧
      (winners stakes winningOutcome ≠ [] →
        Tally.total payouts =
            pool (positiveStakes stakes) - exactRake stakes winningOutcome rakeBps ∧
          ∀ entry ∈ payouts,
            0 ≤ entry.2 ∧ ∃ s ∈ winners stakes winningOutcome, s.memberId = entry.1) := by
  have positiveCents := positiveStakes_cents cents (by linarith)
  by_cases nobody : winners stakes winningOutcome = []
  · have settled := settleParimutuel_eq_refunds lower upper nobody
    exact ⟨refunds stakes, settled, Tally.nodup_ofList _, fun _ => get_refunds positiveCents,
      fun somebody => absurd nobody somebody⟩
  · have somebody := not_not.mp (mt (winners_nil_iff positiveCents).mpr nobody)
    obtain ⟨distributes, settled⟩ :=
      settleParimutuel_eq_winnings positiveCents small lower upper somebody
    have conserved := settled
    rw [← settleParimutuel_positiveStakes] at conserved
    have conserves := settleParimutuel_conserves positiveCents conserved
    refine ⟨_, settled, conserves.members, fun empty => absurd empty nobody, fun _ => ⟨?_, ?_⟩⟩
    · have kept : withheld (positiveStakes stakes) winningOutcome rakeBps =
          exactRake stakes winningOutcome rakeBps := by
        rw [withheld, winningPool_eq positiveCents, winners_positiveStakes,
          if_neg (not_le.mpr somebody), rake_positiveStakes positiveCents small lower upper]
        rfl
      have total := conserves.total
      rw [kept] at total
      linarith
    · intro entry paid
      exact ⟨conserves.cents.nonneg entry paid, winnings_members paid⟩

theorem settlement_conserves_pool_raked :
    ∃ payouts, settleParimutuel [⟨1, .buy, 100⟩, ⟨2, .sell, 50⟩, ⟨3, .sell, -5⟩] .buy 250 =
        .ok payouts ∧ Tally.total payouts = 14875 / 100 := by
  obtain ⟨payouts, settled, _, _, paid⟩ :=
    @settlement_conserves_pool [⟨1, .buy, 100⟩, ⟨2, .sell, 50⟩, ⟨3, .sell, -5⟩] .buy 250
      (by decide +kernel) (by decide +kernel) (by decide) (by decide)
  exact ⟨payouts, settled, (paid (by decide +kernel)).1.trans (by decide +kernel)⟩

/-- The payouts of winners against their exact parts of what is handed out. -/
structure Proportional (distributable : ℚ) (winning : List Stake) (top : Stake)
    (payout : Stake → ℚ) : Prop where
  receiver : top ∈ winning
  largest : ∀ s ∈ winning, s.amount ≤ top.amount
  others : ∀ s ∈ winning, s ≠ top →
    exactShare distributable (pool winning) s - 1 / 100 ≤ payout s ∧
      payout s ≤ exactShare distributable (pool winning) s
  remainder : payout top ≤ exactShare distributable (pool winning) top + winning.length / 100
  ordered : ∀ s ∈ winning, ∀ other ∈ winning, other.amount < s.amount → payout other ≤ payout s
  alike : ∀ s ∈ winning, ∀ other ∈ winning, s ≠ top → other ≠ top → s.amount = other.amount →
    payout s = payout other

/-- The exact parts add up to the whole. -/
theorem exactShare_sum {distributable : ℚ} {winning : List Stake} (somebody : 0 < pool winning) :
    (winning.map (exactShare distributable (pool winning))).sum = distributable := by
  have parts : ∀ (total : ℚ) (rows : List Stake),
      (rows.map (exactShare distributable total)).sum = distributable * pool rows / total := by
    intro total rows
    induction rows with
    | nil => simp [pool]
    | cons s rest ih =>
        rw [List.map_cons, List.sum_cons, ih, exactShare, pool, pool, List.map_cons, List.sum_cons]
        ring
  rw [parts, mul_div_cancel_right₀ _ somebody.ne']

/-- Truncation loses at most a cent a winner. -/
theorem remainder_le {distributable total : ℚ} {winning : List Stake}
    (each : ∀ s ∈ winning,
      exactShare distributable total s - 1 / 100 ≤ truncatedShare distributable total s) :
    (winning.map (exactShare distributable total)).sum ≤
      truncatedTotal distributable total winning + winning.length / 100 := by
  induction winning with
  | nil => simp [truncatedTotal]
  | cons s rest ih =>
      have head := each s (by simp)
      have tail := ih fun other member => each other (by simp [member])
      rw [truncatedTotal] at tail ⊢
      rw [List.map_cons, List.sum_cons, List.map_cons, List.sum_cons, List.length_cons]
      push_cast
      linarith

/-- Payouts are proportional up to a cent and ordered like the stakes. -/
theorem payouts_proportional (cents : ∀ s ∈ stakes, Scaled 2 s.amount)
    (small : pool (positiveStakes stakes) < 10 ^ 10) (lower : 0 ≤ rakeBps)
    (upper : rakeBps < 10000)
    (distinct : ((winners stakes winningOutcome).map Stake.memberId).Nodup)
    (somebody : winners stakes winningOutcome ≠ []) :
    ∃ payouts top, settleParimutuel stakes winningOutcome rakeBps = .ok payouts ∧
      topWinner (winners stakes winningOutcome) = some top ∧
      Proportional (handedOut stakes winningOutcome rakeBps) (winners stakes winningOutcome) top
        fun s => Tally.get payouts s.memberId := by
  have positiveCents := positiveStakes_cents cents (by linarith)
  have winnersCents := winners_cents positiveCents winningOutcome
  have poolPos := not_not.mp (mt (winners_nil_iff positiveCents).mpr somebody)
  obtain ⟨distributes, settled⟩ :=
    settleParimutuel_eq_winnings positiveCents small lower upper poolPos
  obtain ⟨top, chosen⟩ := exists_topWinner somebody
  have nonneg := distributes.nonneg positiveCents
  have winnersSmall := winners_pool_le positiveCents winningOutcome
  have distributableSmall := distributes.upper
  have below := truncated_cents positiveCents distributes
  have payout_eq := fun s => @get_winnings _ _ _ top s positiveCents distributes
  rw [winners_positiveStakes] at winnersCents winnersSmall below payout_eq
  replace payout_eq := fun s member => payout_eq s distinct chosen member
  replace below := (below poolPos).2.2
  set distributable := handedOut stakes winningOutcome rakeBps
  set winning := winners stakes winningOutcome
  have bounds : ∀ s ∈ winning,
      exactShare distributable (pool winning) s - 1 / 100 ≤
          truncatedShare distributable (pool winning) s ∧
        truncatedShare distributable (pool winning) s ≤
          exactShare distributable (pool winning) s := fun s member =>
    truncatedShare_bounds distributes.scaled winnersCents.pool_scaled (winnersCents.scaled s member)
      nonneg poolPos (winnersCents.nonneg s member) (amount_le_pool winnersCents.nonneg member)
      (by linarith) (by linarith)
  have mono : ∀ s ∈ winning, ∀ other, s.amount ≤ other.amount →
      truncatedShare distributable (pool winning) s ≤
        truncatedShare distributable (pool winning) other := fun s member other le =>
    truncatedShare_mono nonneg poolPos (winnersCents.nonneg s member) le
  refine ⟨_, top, settled, chosen, topWinner_mem chosen,
    fun s member => amount_le_topWinner chosen member, ?_, ?_, ?_, ?_⟩
  · intro s member notTop
    rw [payout_eq s member, if_neg notTop, add_zero]
    exact bounds s member
  · have most := remainder_le fun s member => (bounds s member).1
    rw [exactShare_sum poolPos] at most
    rw [payout_eq top (topWinner_mem chosen), if_pos rfl]
    linarith [(bounds top (topWinner_mem chosen)).2]
  · intro s member other otherMember less
    have notTop : other ≠ top := by
      rintro rfl
      exact absurd (amount_le_topWinner chosen member) (not_le.mpr less)
    have share_le := mono other otherMember s less.le
    rw [payout_eq s member, payout_eq other otherMember, if_neg notTop, add_zero]
    split
    · linarith
    · linarith
  · intro s member other otherMember notTop otherNotTop same
    rw [payout_eq s member, payout_eq other otherMember, if_neg notTop, if_neg otherNotTop]
    rw [le_antisymm (mono s member other same.le) (mono other otherMember s same.ge)]

theorem payouts_proportional_uneven :
    ∃ payouts top, settleParimutuel [⟨1, .buy, 100⟩, ⟨2, .buy, 50⟩, ⟨3, .sell, 70⟩] .buy 100 =
        .ok payouts ∧ topWinner [⟨1, .buy, 100⟩, ⟨2, .buy, 50⟩] = some top ∧
      Proportional (21930 / 100) [⟨1, .buy, 100⟩, ⟨2, .buy, 50⟩] top
        fun s => Tally.get payouts s.memberId := by
  have winners_eq : winners [⟨1, .buy, 100⟩, ⟨2, .buy, 50⟩, ⟨3, .sell, 70⟩] .buy =
      [⟨1, .buy, 100⟩, ⟨2, .buy, 50⟩] := by decide +kernel
  have handedOut_eq : handedOut [⟨1, .buy, 100⟩, ⟨2, .buy, 50⟩, ⟨3, .sell, 70⟩] .buy 100 =
      21930 / 100 := by decide +kernel
  rw [← winners_eq, ← handedOut_eq]
  exact payouts_proportional (by decide +kernel) (by decide +kernel) (by decide) (by decide)
    (by decide +kernel) (by decide +kernel)

end Laws

section Principal

variable {stakes : List Stake} {winningOutcome : Outcome} {rakeBps : ℤ}

/-- Every winning row brings its member at least its own amount. -/
def KeepsPrincipal (stakes : List Stake) (winningOutcome : Outcome) (rakeBps : ℤ) : Prop :=
  ∃ payouts, settleParimutuel stakes winningOutcome rakeBps = .ok payouts ∧
    ∀ s ∈ stakes, s.outcome = winningOutcome → s.amount ≤ Tally.get payouts s.memberId

/-- An amount in whole cents. -/
def centCount (amount : ℚ) : ℕ := ⌊amount * 10 ^ 2⌋.toNat

/-- Another stake comes before this one when the remainder is handed out. -/
def Stake.Beaten (s : Stake) (stakes : List Stake) : Prop :=
  ∃ other ∈ stakes,
    s.amount < other.amount ∨ s.amount = other.amount ∧ other.memberId < s.memberId

/-- Nobody wins; or the context holds the pool and there is a losing stake to win from, or
every stake that comes after another one recovers when it is divided by the pool. -/
def LossFree (stakes : List Stake) (winningOutcome : Outcome) : Prop :=
  (∀ s ∈ stakes, s.outcome ≠ winningOutcome) ∨
    pool stakes < 10 ^ 24 ∧
      ((∃ s ∈ stakes, s.outcome ≠ winningOutcome) ∨
        ∀ s ∈ stakes, s.Beaten stakes →
          Decimal.Recovers (centCount s.amount) (centCount (pool stakes)))

/-- The rows of a market: positive amounts in whole cents, one row a member and outcome. -/
structure PlainStakes (stakes : List Stake) : Prop where
  positive : ∀ s ∈ stakes, 0 < s.amount
  cents : ∀ s ∈ stakes, Scaled 2 s.amount
  rows : (stakes.map fun s => (s.memberId, s.outcome)).Nodup

namespace PlainStakes

theorem centStakes (plain : PlainStakes stakes) (small : pool stakes < 10 ^ 24) :
    CentStakes stakes :=
  ⟨plain.cents, fun s member => (plain.positive s member).le, small⟩

theorem mem_winners (plain : PlainStakes stakes) {s : Stake} :
    s ∈ winners stakes winningOutcome ↔ s ∈ stakes ∧ s.outcome = winningOutcome := by
  rw [winners, List.mem_filter, decide_eq_true_eq]
  constructor
  · rintro ⟨member, right, _⟩
    exact ⟨member, right⟩
  · rintro ⟨member, right⟩
    exact ⟨member, right, plain.positive s member⟩

/-- A member with one row an outcome has one winning row. -/
theorem distinct (plain : PlainStakes stakes) (winningOutcome : Outcome) :
    ((winners stakes winningOutcome).map Stake.memberId).Nodup := by
  have own : ((winners stakes winningOutcome).map fun s => (s.memberId, s.outcome)).Nodup :=
    plain.rows.sublist (List.filter_sublist.map _)
  refine List.Nodup.map_on ?_ (List.Nodup.of_map _ own)
  intro s member other otherMember same
  refine List.inj_on_of_nodup_map own member otherMember ?_
  rw [same, (plain.mem_winners.mp member).2, (plain.mem_winners.mp otherMember).2]

/-- Without a losing row all rows win. -/
theorem winners_eq_self (plain : PlainStakes stakes)
    (noLoser : ¬ ∃ s ∈ stakes, s.outcome ≠ winningOutcome) :
    winners stakes winningOutcome = stakes := by
  rw [winners, List.filter_eq_self]
  intro s member
  rw [decide_eq_true_eq]
  exact ⟨not_not.mp fun loses => noLoser ⟨s, member, loses⟩, plain.positive s member⟩

end PlainStakes

/-- A truncated value covers a whole number of cents when the value does. -/
theorem le_truncatedShare_iff {distributable total : ℚ} {s : Stake} (scaled : Scaled 2 s.amount) :
    s.amount ≤ truncatedShare distributable total s ↔
      s.amount ≤ Decimal.mul distributable (Decimal.div s.amount total) := by
  obtain ⟨n, n_eq⟩ := scaled
  rw [truncatedShare]
  generalize Decimal.mul distributable (Decimal.div s.amount total) = value
  rw [n_eq, div_le_div_iff_of_pos_right (by norm_num), div_le_iff₀ (by norm_num)]
  rw [Int.cast_le, Int.le_floor]

/-- A losing row leaves more than a rounding can take from any winner. -/
theorem le_share_of_loser {distributable : ℚ} {s : Stake} (cents : CentStakes stakes)
    (distributes : Distributes stakes winningOutcome distributable)
    (more : pool (winners stakes winningOutcome) + 1 / 10 ^ 2 ≤ distributable)
    (member : s ∈ winners stakes winningOutcome) :
    s.amount ≤ truncatedShare distributable (pool (winners stakes winningOutcome)) s := by
  have winnersCents := winners_cents cents winningOutcome
  have staked := winnersCents.nonneg s member
  have poolPos := pool_pos_of_mem winnersCents.nonneg member (winners_pos member)
  have small : distributable < 10 ^ 24 := distributes.upper.trans_lt cents.small
  rw [le_truncatedShare_iff (winnersCents.scaled s member)]
  have deficitBound := lt_deficit
  have nonneg := distributes.nonneg cents
  have covers : pool (winners stakes winningOutcome) ≤ distributable * deficit := by
    have scaled : distributable * (1 - 1 / 10 ^ 26) ≤ distributable * deficit := by gcongr
    linarith
  calc
    s.amount = pool (winners stakes winningOutcome) * s.amount /
        pool (winners stakes winningOutcome) := by
      rw [mul_div_cancel_left₀ _ poolPos.ne']
    _ ≤ distributable * deficit * s.amount / pool (winners stakes winningOutcome) := by gcongr
    _ = distributable * s.amount / pool (winners stakes winningOutcome) * deficit := by ring
    _ ≤ _ := le_mul_div nonneg poolPos staked

/-- With a losing row, at least a cent more than the winners' pool is handed out. -/
theorem more_than_winners {amount : ℚ} (plain : PlainStakes stakes) (small : pool stakes < 10 ^ 24)
    (lower : 0 ≤ rakeBps) (upper : rakeBps < 10000)
    (raked : rake stakes winningOutcome rakeBps = .ok amount)
    (loser : ∃ s ∈ stakes, s.outcome ≠ winningOutcome) :
    pool (winners stakes winningOutcome) + 1 / 10 ^ 2 ≤ pool stakes - amount := by
  have cents := plain.centStakes small
  obtain ⟨s, member, loses⟩ := loser
  obtain ⟨rakeScaled, _, rake_le⟩ := rake_le cents lower upper raked
  have losing : s.amount ≤ pool stakes - pool (winners stakes winningOutcome) := by
    have split := pool_filter_add stakes fun s => s.outcome = winningOutcome ∧ 0 < s.amount
    have rest := (cents.filter fun s => !decide (s.outcome = winningOutcome ∧ 0 < s.amount)).1
    have part := amount_le_pool rest.nonneg
      (List.mem_filter.mpr ⟨member, by simp [loses]⟩)
    rw [winners]
    linarith
  have positive := plain.positive s member
  have cent : Scaled 2 (1 / 10 ^ 2) := ⟨1, by norm_num⟩
  have left : amount + 1 / 10 ^ 2 ≤ pool stakes - pool (winners stakes winningOutcome) := by
    refine (rakeScaled.add cent).le_of_lt_add
      (cents.pool_scaled.sub (winners_cents cents winningOutcome).pool_scaled) ?_
    linarith
  linarith

/-- Where all rows win, no share is above its stake. -/
theorem share_le_amount {winning : List Stake} {s : Stake} (cents : CentStakes winning)
    (member : s ∈ winning) (positive : 0 < s.amount) :
    truncatedShare (pool winning) (pool winning) s ≤ s.amount := by
  have poolPos := pool_pos_of_mem cents.nonneg member positive
  have upper := (mul_div_le poolPos.le poolPos positive.le).2
  rw [mul_comm (pool winning), mul_div_cancel_right₀ _ poolPos.ne'] at upper
  have slackBound := slack_lt
  have below : s.amount < 10 ^ 24 := (amount_le_pool cents.nonneg member).trans_lt cents.small
  have near : slack * s.amount ≤ (1 + 1 / 10 ^ 26) * s.amount := by gcongr
  refine (truncatedShare_scaled _ _ _).le_of_lt_add (cents.scaled s member) ?_
  have floor_le := Int.floor_le
    (Decimal.mul (pool winning) (Decimal.div s.amount (pool winning)) * 10 ^ 2)
  rw [truncatedShare, div_lt_iff₀ (by norm_num)]
  refine lt_of_le_of_lt floor_le ?_
  linarith

/-- The remainder makes up for what truncation has taken from its receiver. -/
theorem top_keeps {winning : List Stake} {top : Stake}
    (below : ∀ s ∈ winning, truncatedShare (pool winning) (pool winning) s ≤ s.amount)
    (member : top ∈ winning) :
    top.amount ≤ truncatedShare (pool winning) (pool winning) top +
      (pool winning - truncatedTotal (pool winning) (pool winning) winning) := by
  have gaps : (winning.map fun s =>
      s.amount - truncatedShare (pool winning) (pool winning) s).sum +
        truncatedTotal (pool winning) (pool winning) winning = pool winning := by
    rw [truncatedTotal, ← List.sum_map_add]
    simp only [sub_add_cancel]
    rfl
  have own : top.amount - truncatedShare (pool winning) (pool winning) top ≤
      (winning.map fun s => s.amount - truncatedShare (pool winning) (pool winning) s).sum := by
    apply List.single_le_sum
    · intro gap listed
      obtain ⟨s, staked, rfl⟩ := List.mem_map.mp listed
      exact sub_nonneg.mpr (below s staked)
    · exact List.mem_map.mpr ⟨top, member, rfl⟩
  linarith

/-- Without a winner there is no principal to keep. -/
theorem keepsPrincipal_of_no_winner (plain : PlainStakes stakes) (lower : 0 ≤ rakeBps)
    (upper : rakeBps < 10000) (loses : ∀ s ∈ stakes, s.outcome ≠ winningOutcome) :
    KeepsPrincipal stakes winningOutcome rakeBps := by
  have nobody : winners stakes winningOutcome = [] := by
    refine List.eq_nil_iff_forall_not_mem.mpr fun s wins => ?_
    obtain ⟨member, right⟩ := plain.mem_winners.mp wins
    exact loses s member right
  exact ⟨_, settleParimutuel_eq_refunds lower upper nobody,
    fun s member right => absurd right (loses s member)⟩

/-- Only the receiver of the remainder comes before all others. -/
theorem PlainStakes.beaten_iff (plain : PlainStakes stakes) {top s : Stake}
    (noLoser : ¬ ∃ s ∈ stakes, s.outcome ≠ winningOutcome) (chosen : topWinner stakes = some top)
    (member : s ∈ stakes) : s.Beaten stakes ↔ s ≠ top := by
  constructor
  · rintro ⟨other, otherMember, ahead⟩ rfl
    rcases topWinner_first chosen otherMember with less | ⟨same, first⟩
    · rcases ahead with more | ⟨equal, _⟩ <;> linarith
    · rcases ahead with more | ⟨_, earlier⟩
      · exact more.ne' same
      · omega
  · intro differs
    refine ⟨top, topWinner_mem chosen, ?_⟩
    rcases topWinner_first chosen member with less | ⟨same, first⟩
    · exact .inl less
    · refine .inr ⟨same, lt_of_le_of_ne first fun sameMember => differs ?_⟩
      have ids := plain.distinct winningOutcome
      rw [plain.winners_eq_self noLoser] at ids
      exact List.inj_on_of_nodup_map ids member (topWinner_mem chosen) sameMember.symm

/-- A positive amount in cents is its count of cents. -/
theorem centCount_spec {amount : ℚ} (scaled : Scaled 2 amount) (positive : 0 < amount) :
    (centCount amount / 10 ^ 2 : ℚ) = amount ∧ 0 < centCount amount := by
  obtain ⟨n, rfl⟩ := scaled
  have numerator : (0 : ℚ) < n := by
    have := mul_pos positive (show (0 : ℚ) < 10 ^ 2 by norm_num)
    rwa [div_mul_cancel₀ _ (by norm_num)] at this
  have some : 0 < n := by exact_mod_cast numerator
  have count : centCount (n / 10 ^ 2) = n.toNat := by
    rw [centCount, div_mul_cancel₀ _ (by norm_num), Int.floor_intCast]
  have whole : ((n.toNat : ℕ) : ℚ) = n := by
    have back : (n.toNat : ℤ) = n := Int.toNat_of_nonneg some.le
    exact_mod_cast congrArg (Int.cast : ℤ → ℚ) back
  rw [count, whole]
  exact ⟨rfl, by omega⟩

/-- A stake that is divided by the pool and multiplied by it again keeps its cents where it
recovers. -/
theorem PlainStakes.recovers_iff (plain : PlainStakes stakes) (small : pool stakes < 10 ^ 24)
    {s : Stake} (member : s ∈ stakes) :
    s.amount ≤ Decimal.mul (pool stakes) (Decimal.div s.amount (pool stakes)) ↔
      Decimal.Recovers (centCount s.amount) (centCount (pool stakes)) := by
  have cents := plain.centStakes small
  have positive := plain.positive s member
  have part := amount_le_pool cents.nonneg member
  obtain ⟨amount_eq, some⟩ := centCount_spec (plain.cents s member) positive
  obtain ⟨pool_eq, _⟩ := centCount_spec cents.pool_scaled (positive.trans_le part)
  have counts : centCount s.amount ≤ centCount (pool stakes) := by
    rw [← amount_eq, ← pool_eq, div_le_div_iff_of_pos_right (by norm_num)] at part
    exact_mod_cast part
  have fits : centCount s.amount ≤ 10 ^ 27 := by
    have below := part.trans_lt small
    rw [← amount_eq, div_lt_iff₀ (by norm_num)] at below
    have inCents : (centCount s.amount : ℚ) < (10 ^ 27 : ℕ) := below.trans (by norm_num)
    exact (by exact_mod_cast inCents : centCount s.amount < 10 ^ 27).le
  have recovers := @Decimal.le_mul_div_iff _ _ 2 some counts fits
  rwa [amount_eq, pool_eq] at recovers

/-- With a winner, it is the shares, and the remainder, that keep the principal or do not. -/
theorem keepsPrincipal_iff_shares (plain : PlainStakes stakes) (small : pool stakes < 10 ^ 24)
    (lower : 0 ≤ rakeBps) (upper : rakeBps < 10000)
    (somebody : winners stakes winningOutcome ≠ []) :
    ∃ amount top, rake stakes winningOutcome rakeBps = .ok amount ∧
      topWinner (winners stakes winningOutcome) = some top ∧
      Distributes stakes winningOutcome (pool stakes - amount) ∧
      (KeepsPrincipal stakes winningOutcome rakeBps ↔
        ∀ s ∈ winners stakes winningOutcome, s.amount ≤
          truncatedShare (pool stakes - amount) (pool (winners stakes winningOutcome)) s +
            if s = top then pool stakes - amount - truncatedTotal (pool stakes - amount)
              (pool (winners stakes winningOutcome)) (winners stakes winningOutcome)
            else 0) := by
  have cents := plain.centStakes small
  obtain ⟨top, chosen⟩ := exists_topWinner somebody
  have topMember := topWinner_mem chosen
  have poolPos := pool_pos_of_mem (winners_cents cents winningOutcome).nonneg topMember
    (winners_pos topMember)
  obtain ⟨amount, raked, distributes, settled⟩ :=
    settleParimutuel_winnings cents lower upper poolPos
  refine ⟨amount, top, raked, chosen, distributes, ?_⟩
  simp only [KeepsPrincipal, settled, Except.ok.injEq, exists_eq_left', ← and_imp,
    ← plain.mem_winners]
  refine forall₂_congr fun s member => ?_
  rw [get_winnings cents distributes (plain.distinct winningOutcome) chosen member]

/-- Where all rows win and nothing is raked, every winner but the receiver has its share. -/
theorem covers_iff_recovers (plain : PlainStakes stakes) (small : pool stakes < 10 ^ 24)
    (noLoser : ¬ ∃ s ∈ stakes, s.outcome ≠ winningOutcome) {top : Stake}
    (chosen : topWinner stakes = some top) :
    (∀ s ∈ stakes, s.amount ≤ truncatedShare (pool stakes) (pool stakes) s +
        if s = top then pool stakes - truncatedTotal (pool stakes) (pool stakes) stakes else 0) ↔
      ∀ s ∈ stakes, s.Beaten stakes →
        Decimal.Recovers (centCount s.amount) (centCount (pool stakes)) := by
  have share_le := fun s member =>
    share_le_amount (s := s) (plain.centStakes small) member (plain.positive s member)
  refine forall₂_congr fun s member => ?_
  rw [plain.beaten_iff noLoser chosen member]
  by_cases isTop : s = top
  · have kept := top_keeps share_le (topWinner_mem chosen)
    simp only [isTop, ↓reduceIte, ne_eq, not_true_eq_false, false_implies, iff_true]
    exact kept
  · simp only [isTop, ↓reduceIte, add_zero, ne_eq, not_false_eq_true, true_implies]
    rw [le_truncatedShare_iff (plain.cents s member), plain.recovers_iff small member]

/-- Winners keep their principal exactly when somebody else loses, or when every stake but
that of the receiver survives its division by the pool. -/
theorem keepsPrincipal_iff (plain : PlainStakes stakes) (lower : 0 ≤ rakeBps)
    (upper : rakeBps < 10000) (small : pool stakes < 10 ^ 24) :
    KeepsPrincipal stakes winningOutcome rakeBps ↔ LossFree stakes winningOutcome := by
  by_cases loses : ∀ s ∈ stakes, s.outcome ≠ winningOutcome
  · exact iff_of_true (keepsPrincipal_of_no_winner plain lower upper loses) (.inl loses)
  · have cents := plain.centStakes small
    have somebody : winners stakes winningOutcome ≠ [] := by
      push Not at loses
      obtain ⟨s, member, right⟩ := loses
      exact List.ne_nil_of_mem (plain.mem_winners.mpr ⟨member, right⟩)
    obtain ⟨amount, top, raked, chosen, distributes, keeps_iff⟩ :=
      keepsPrincipal_iff_shares plain small lower upper somebody
    rw [keeps_iff, LossFree, or_iff_right loses, and_iff_right small]
    by_cases loser : ∃ s ∈ stakes, s.outcome ≠ winningOutcome
    · have more := more_than_winners plain small lower upper raked loser
      have poolPos := pool_pos_of_mem (winners_cents cents winningOutcome).nonneg
        (topWinner_mem chosen) (winners_pos (topWinner_mem chosen))
      have below := (truncated_cents cents distributes poolPos).2.2
      refine iff_of_true (fun s member => ?_) (.inl loser)
      have share_le := le_share_of_loser cents distributes more member
      split <;> linarith
    · have all := plain.winners_eq_self loser
      obtain ⟨_, rakeNonneg, rake_le⟩ := rake_le cents lower upper raked
      have nothing : amount = 0 := by
        rw [all, sub_self, zero_mul] at rake_le
        exact le_antisymm rake_le rakeNonneg
      rw [all] at chosen ⊢
      rw [nothing, sub_zero]
      rw [covers_iff_recovers plain small loser chosen, or_iff_right loser]

/-- The winners' principal is safe in the loss-free settlements, and below `10 ^ 24` points
in no others. -/
theorem winners_keep_principal (plain : PlainStakes stakes) (lower : 0 ≤ rakeBps)
    (upper : rakeBps < 10000) :
    (LossFree stakes winningOutcome → KeepsPrincipal stakes winningOutcome rakeBps) ∧
      (pool stakes < 10 ^ 24 → KeepsPrincipal stakes winningOutcome rakeBps →
        LossFree stakes winningOutcome) := by
  constructor
  · intro lossFree
    rcases lossFree with loses | ⟨small, safe⟩
    · exact keepsPrincipal_of_no_winner plain lower upper loses
    · exact (keepsPrincipal_iff plain lower upper small).mpr (.inr ⟨small, safe⟩)
  · intro small keeps
    exact (keepsPrincipal_iff plain lower upper small).mp keeps

theorem winners_keep_principal_loser :
    KeepsPrincipal [⟨1, .buy, 100⟩, ⟨2, .buy, 100⟩, ⟨3, .buy, 100⟩, ⟨4, .sell, 1⟩] .buy 9999 :=
  (winners_keep_principal
    ⟨by decide +kernel, by decide +kernel, by decide +kernel⟩ (by decide) (by decide)).1
    (.inr ⟨by decide +kernel, .inl ⟨⟨4, .sell, 1⟩, by simp, by decide⟩⟩)

/-- Three equal winners and no loser: two of them lose a cent. -/
theorem principal_lost_equal_winners :
    PlainStakes [⟨1, .buy, 100⟩, ⟨2, .buy, 100⟩, ⟨3, .buy, 100⟩] ∧
      ¬ KeepsPrincipal [⟨1, .buy, 100⟩, ⟨2, .buy, 100⟩, ⟨3, .buy, 100⟩] .buy 0 := by
  refine ⟨⟨by decide +kernel, by decide +kernel, by decide +kernel⟩, ?_⟩
  rintro ⟨payouts, settled, keeps⟩
  have computed : settleParimutuel [⟨1, .buy, 100⟩, ⟨2, .buy, 100⟩, ⟨3, .buy, 100⟩] .buy 0 =
      .ok [(1, 10002 / 100), (2, 9999 / 100), (3, 9999 / 100)] := by decide +kernel
  rw [computed] at settled
  cases settled
  exact absurd (keeps ⟨2, .buy, 100⟩ (by simp) rfl) (by decide +kernel)

end Principal

end FundPolymarket
