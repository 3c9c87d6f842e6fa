import FundPolymarket.Parimutuel

set_option autoImplicit false

/- What each member gets from a settlement: the truncated shares and the remainder in
closed form, and their distance from the exact shares. -/
namespace FundPolymarket

open Decimal (Scaled unitRoundoff)

/-- A winner's exact part of what is handed out. -/
def exactShare (distributable pool : ℚ) (s : Stake) : ℚ := distributable * s.amount / pool

/-- The part in the arithmetic of the context, truncated to hundredths. -/
def truncatedShare (distributable pool : ℚ) (s : Stake) : ℚ :=
  (⌊Decimal.mul distributable (Decimal.div s.amount pool) * 10 ^ 2⌋ : ℚ) / 10 ^ 2

/-- Everything that the winners' truncated shares add up to. -/
def truncatedTotal (distributable pool : ℚ) (winning : List Stake) : ℚ :=
  (winning.map (truncatedShare distributable pool)).sum

theorem truncatedShare_scaled (distributable pool : ℚ) (s : Stake) :
    Scaled 2 (truncatedShare distributable pool s) := ⟨_, rfl⟩

section TopWinner

variable {winning : List Stake} {top : Stake}

theorem topWinner_mem (chosen : topWinner winning = some top) : top ∈ winning :=
  List.maxOn?_mem chosen

theorem exists_topWinner (somebody : winning ≠ []) : ∃ top, topWinner winning = some top :=
  Option.isSome_iff_exists.mp (List.isSome_maxOn?_iff.mpr somebody)

/-- The receiver of the remainder has staked most, and of several such it is the member with
the smallest id. -/
theorem topWinner_first (chosen : topWinner winning = some top) {s : Stake} (member : s ∈ winning) :
    s.amount < top.amount ∨ s.amount = top.amount ∧ top.memberId ≤ s.memberId := by
  rw [topWinner] at chosen
  have ordered := List.le_apply_get_maxOn?_of_mem
    (f := fun s : Stake => toLex (s.amount, -(s.memberId : ℤ))) member
  rw [Option.get_of_eq_some _ chosen] at ordered
  rcases Prod.Lex.toLex_le_toLex.mp ordered with less | ⟨same, later⟩
  · exact .inl less
  · exact .inr ⟨same, Int.ofNat_le.mp (neg_le_neg_iff.mp later)⟩

/-- Nobody has staked more than the receiver of the remainder. -/
theorem amount_le_topWinner (chosen : topWinner winning = some top) {s : Stake}
    (member : s ∈ winning) : s.amount ≤ top.amount := by
  rcases topWinner_first chosen member with less | ⟨same, _⟩
  · exact less.le
  · exact same.le

end TopWinner

section Shares

variable {distributable total : ℚ} {winning : List Stake}

theorem share_eq {s : Stake} (distributableNonneg : 0 ≤ distributable) (totalPos : 0 < total)
    (small : distributable < 10 ^ 24) (staked : 0 ≤ s.amount) (part : s.amount ≤ total) :
    share distributable total s = .ok (s.memberId, truncatedShare distributable total s) := by
  obtain ⟨valueNonneg, value_le⟩ := mul_div_le distributableNonneg totalPos staked
  have ratio : s.amount / total ≤ 1 := (div_le_one totalPos).mpr part
  have fits : Decimal.mul distributable (Decimal.div s.amount total) * 10 ^ 2 <
      10 ^ Decimal.prec := by
    have slackBound := slack_lt
    have slackNonneg : 0 ≤ slack := by norm_num [slack, unitRoundoff]
    calc
      Decimal.mul distributable (Decimal.div s.amount total) * 10 ^ 2
        ≤ distributable * slack / total * s.amount * 10 ^ 2 := by gcongr
      _ = distributable * slack * (s.amount / total) * 10 ^ 2 := by ring
      _ ≤ distributable * slack * 1 * 10 ^ 2 := by gcongr
      _ ≤ 10 ^ 24 * 2 * 1 * 10 ^ 2 := by
          gcongr
          linarith
      _ < 10 ^ Decimal.prec := by norm_num [Decimal.prec]
  rw [share, q, Decimal.quantize_down valueNonneg fits]
  rfl

theorem shares_eq (distributableNonneg : 0 ≤ distributable) (totalPos : 0 < total)
    (small : distributable < 10 ^ 24) (staked : ∀ s ∈ winning, 0 ≤ s.amount)
    (part : ∀ s ∈ winning, s.amount ≤ total) :
    winning.mapM (share distributable total) =
      .ok (winning.map fun s => (s.memberId, truncatedShare distributable total s)) := by
  induction winning with
  | nil => rfl
  | cons s rest ih =>
      exact mapM_eq_ok_cons.mpr ⟨_, _,
        share_eq distributableNonneg totalPos small (staked s (by simp)) (part s (by simp)),
        ih (fun other member => staked other (by simp [member]))
          fun other member => part other (by simp [member]), rfl⟩

theorem truncatedShare_nonneg {s : Stake} (distributableNonneg : 0 ≤ distributable)
    (totalPos : 0 < total) (staked : 0 ≤ s.amount) : 0 ≤ truncatedShare distributable total s := by
  have valueNonneg := (mul_div_le distributableNonneg totalPos staked).1
  have floorNonneg := Int.floor_nonneg.mpr (mul_nonneg valueNonneg (by norm_num : (0 : ℚ) ≤ 10 ^ 2))
  exact div_nonneg (by exact_mod_cast floorNonneg) (by norm_num)

theorem truncatedShare_le_total {s : Stake} (distributableNonneg : 0 ≤ distributable)
    (totalPos : 0 < total) (staked : ∀ s ∈ winning, 0 ≤ s.amount) (member : s ∈ winning) :
    truncatedShare distributable total s ≤ truncatedTotal distributable total winning := by
  apply List.single_le_sum
  · intro amount listed
    obtain ⟨other, otherMember, rfl⟩ := List.mem_map.mp listed
    exact truncatedShare_nonneg distributableNonneg totalPos (staked other otherMember)
  · exact List.mem_map_of_mem member

/-- Bigger stakes have bigger shares: every step of the arithmetic keeps the order. -/
theorem truncatedShare_mono {s other : Stake} (distributableNonneg : 0 ≤ distributable)
    (totalPos : 0 < total) (staked : 0 ≤ s.amount) (le : s.amount ≤ other.amount) :
    truncatedShare distributable total s ≤ truncatedShare distributable total other := by
  have ratio : 0 ≤ s.amount / total := div_nonneg staked totalPos.le
  have quotient : Decimal.div s.amount total ≤ Decimal.div other.amount total :=
    Decimal.fix_mono ratio (div_le_div_of_nonneg_right le totalPos.le)
  have product : Decimal.mul distributable (Decimal.div s.amount total) ≤
      Decimal.mul distributable (Decimal.div other.amount total) :=
    Decimal.fix_mono (mul_nonneg distributableNonneg (Decimal.fix_nonneg ratio))
      (mul_le_mul_of_nonneg_left quotient distributableNonneg)
  have floors : ⌊Decimal.mul distributable (Decimal.div s.amount total) * 10 ^ 2⌋ ≤
      ⌊Decimal.mul distributable (Decimal.div other.amount total) * 10 ^ 2⌋ :=
    Int.floor_le_floor (by linarith)
  exact div_le_div_of_nonneg_right (by exact_mod_cast floors) (by norm_num)

end Shares

section Settled

variable {stakes : List Stake} {winningOutcome : Outcome} {rakeBps : ℤ}

/-- The winners' shares before the remainder, grouped per member. -/
def tallied (distributable : ℚ) (winning : List Stake) : List (ℕ × ℚ) :=
  Tally.ofList
    (winning.map fun s => (s.memberId, truncatedShare distributable (pool winning) s))

/-- What a settlement with a winner pays. -/
def winnings (distributable : ℚ) (winning : List Stake) : List (ℕ × ℚ) :=
  payRemainder (distributable - Tally.total (tallied distributable winning)) winning
    (tallied distributable winning)

theorem amount_le_pool {winning : List Stake} (nonneg : ∀ s ∈ winning, 0 ≤ s.amount) {s : Stake}
    (member : s ∈ winning) : s.amount ≤ pool winning := by
  apply List.single_le_sum
  · intro amount listed
    obtain ⟨other, staked, rfl⟩ := List.mem_map.mp listed
    exact nonneg other staked
  · exact List.mem_map_of_mem member

theorem winners_cents (cents : CentStakes stakes) (winningOutcome : Outcome) :
    CentStakes (winners stakes winningOutcome) := (cents.filter _).1

theorem pool_pos_of_mem {winning : List Stake} (nonneg : ∀ s ∈ winning, 0 ≤ s.amount) {s : Stake}
    (member : s ∈ winning) (positive : 0 < s.amount) : 0 < pool winning :=
  positive.trans_le (amount_le_pool nonneg member)

theorem rake_eq_ok (cents : CentStakes stakes) (lower : 0 ≤ rakeBps) (upper : rakeBps < 10000) :
    ∃ amount, rake stakes winningOutcome rakeBps = .ok amount := by
  have below := winners_pool_le cents winningOutcome
  have winnersNonneg := (winners_cents cents winningOutcome).pool_nonneg
  have small := cents.small
  obtain ⟨rakedNonneg, raked_le⟩ := raked_le (sub_nonneg.mpr below) lower upper
  rw [rake, losingPool_eq cents, q, Decimal.quantize_down rakedNonneg]
  · exact ⟨_, rfl⟩
  · norm_num [Decimal.prec]
    linarith

/-- What the shares of a settlement are taken from. -/
structure Distributes (stakes : List Stake) (winningOutcome : Outcome) (distributable : ℚ) :
    Prop where
  scaled : Scaled 2 distributable
  lower : pool (winners stakes winningOutcome) ≤ distributable
  upper : distributable ≤ pool stakes

/-- A settlement with a winner always goes through. -/
theorem settleParimutuel_winnings (cents : CentStakes stakes) (lower : 0 ≤ rakeBps)
    (upper : rakeBps < 10000) (somebody : 0 < pool (winners stakes winningOutcome)) :
    ∃ amount, rake stakes winningOutcome rakeBps = .ok amount ∧
      Distributes stakes winningOutcome (pool stakes - amount) ∧
      settleParimutuel stakes winningOutcome rakeBps =
        .ok (winnings (pool stakes - amount) (winners stakes winningOutcome)) := by
  obtain ⟨amount, raked⟩ : ∃ amount, rake stakes winningOutcome rakeBps = .ok amount :=
    rake_eq_ok cents lower upper
  obtain ⟨rakeScaled, rakeNonneg, rake_le⟩ := rake_bounds cents lower upper raked
  have winnersCents := winners_cents cents winningOutcome
  have small := cents.small
  set distributable : ℚ := pool stakes - amount with distributableDef
  have nonneg : 0 ≤ distributable := by linarith [winnersCents.pool_nonneg]
  have scaled : Scaled 2 distributable := cents.pool_scaled.sub rakeScaled
  have distributable_eq : Decimal.sub (totalPool stakes) amount = distributable := by
    rw [totalPool_eq cents]
    exact Decimal.sub_exact cents.pool_scaled rakeScaled (by linarith) (by linarith)
  have shared := shares_eq nonneg somebody (by linarith) winnersCents.nonneg
    fun s member => amount_le_pool winnersCents.nonneg member
  obtain ⟨sharedCents, below⟩ :=
    shares_le nonneg scaled (by linarith) somebody winnersCents.nonneg shared
  obtain ⟨tallyCents, tallyTotal⟩ := Tally.cents_ofList sharedCents (by linarith)
  have remainder_eq : Decimal.sub distributable
      (Decimal.sum ((tallied distributable (winners stakes winningOutcome)).map Prod.snd)) =
        distributable - Tally.total (tallied distributable (winners stakes winningOutcome)) := by
    have tallyNonneg := tallyCents.total_nonneg
    rw [← tallyTotal] at below
    rw [tallied, tallyCents.sum_eq (by linarith)]
    exact Decimal.sub_exact scaled tallyCents.total_scaled below (by linarith)
  refine ⟨amount, raked, ⟨scaled, by linarith, by linarith⟩, ?_⟩
  have inRange : ¬ (rakeBps < 0 ∨ 10000 ≤ rakeBps) := by omega
  rw [settleParimutuel, raiseIf_bind_eq_ok]
  refine ⟨inRange, ?_⟩
  rw [winningPool_eq cents, if_neg (not_le.mpr somebody), raked]
  simp only [bind_eq_ok, Except.ok.injEq, exists_eq_left', distributable_eq, shared]
  exact congrArg Except.ok (congrArg
    (payRemainder · (winners stakes winningOutcome) (tallied distributable _)) remainder_eq)

theorem Distributes.nonneg {distributable : ℚ} (cents : CentStakes stakes)
    (distributes : Distributes stakes winningOutcome distributable) : 0 ≤ distributable :=
  (winners_cents cents winningOutcome).pool_nonneg.trans distributes.lower

/-- The shares before the remainder do not overspend. -/
theorem truncated_cents {distributable : ℚ} (cents : CentStakes stakes)
    (distributes : Distributes stakes winningOutcome distributable)
    (somebody : 0 < pool (winners stakes winningOutcome)) :
    Tally.Cents (tallied distributable (winners stakes winningOutcome)) ∧
      Tally.total (tallied distributable (winners stakes winningOutcome)) =
        truncatedTotal distributable (pool (winners stakes winningOutcome))
          (winners stakes winningOutcome) ∧
      truncatedTotal distributable (pool (winners stakes winningOutcome))
        (winners stakes winningOutcome) ≤ distributable := by
  have winnersCents := winners_cents cents winningOutcome
  have nonneg := distributes.nonneg cents
  have small : distributable < 10 ^ 24 := distributes.upper.trans_lt cents.small
  have shared := shares_eq nonneg somebody small winnersCents.nonneg
    fun s member => amount_le_pool winnersCents.nonneg member
  obtain ⟨sharedCents, below⟩ :=
    shares_le nonneg distributes.scaled small somebody winnersCents.nonneg shared
  obtain ⟨tallyCents, tallyTotal⟩ := Tally.cents_ofList sharedCents (by linarith)
  have total_eq : Tally.total ((winners stakes winningOutcome).map fun s => (s.memberId,
      truncatedShare distributable (pool (winners stakes winningOutcome)) s)) =
        truncatedTotal distributable (pool (winners stakes winningOutcome))
          (winners stakes winningOutcome) := by
    rw [Tally.total, List.map_map]
    rfl
  rw [total_eq] at tallyTotal below
  exact ⟨tallyCents, tallyTotal, below⟩

end Settled

section Distinct

variable {stakes : List Stake} {winningOutcome : Outcome} {distributable : ℚ} {top s : Stake}

theorem filter_member {winning : List Stake} (distinct : (winning.map Stake.memberId).Nodup)
    (member : s ∈ winning) :
    (winning.filter fun other => other.memberId = s.memberId) = [s] := by
  induction winning with
  | nil => cases member
  | cons head tail ih =>
      rw [List.map_cons, List.nodup_cons] at distinct
      rcases List.mem_cons.mp member with rfl | inTail
      · have nobody : (tail.filter fun other => other.memberId = s.memberId) = [] := by
          rw [List.filter_eq_nil_iff]
          intro other listed
          rw [decide_eq_true_eq]
          exact fun same => distinct.1 (same ▸ List.mem_map_of_mem listed)
        rw [List.filter_cons_of_pos (by simp), nobody]
      · have differs : head.memberId ≠ s.memberId :=
          fun same => distinct.1 (same ▸ List.mem_map_of_mem inTail)
        rw [List.filter_cons_of_neg (by simpa using differs)]
        exact ih distinct.2 inTail

/-- A winner with one row holds exactly the share of that row. -/
theorem get_tallied (cents : CentStakes stakes)
    (distributes : Distributes stakes winningOutcome distributable)
    (distinct : ((winners stakes winningOutcome).map Stake.memberId).Nodup)
    (member : s ∈ winners stakes winningOutcome) :
    Tally.get (tallied distributable (winners stakes winningOutcome)) s.memberId =
      truncatedShare distributable (pool (winners stakes winningOutcome)) s := by
  have winnersCents := winners_cents cents winningOutcome
  have nonneg := distributes.nonneg cents
  have somebody := pool_pos_of_mem winnersCents.nonneg member (winners_pos member)
  have small : distributable < 10 ^ 24 := distributes.upper.trans_lt cents.small
  have below := (truncated_cents cents distributes somebody).2.2
  have shareNonneg := truncatedShare_nonneg nonneg somebody (winnersCents.nonneg s member)
  have share_le := truncatedShare_le_total nonneg somebody winnersCents.nonneg member
  have own : (((winners stakes winningOutcome).map fun other => (other.memberId,
      truncatedShare distributable (pool (winners stakes winningOutcome)) other)).filter
        fun entry => entry.1 = s.memberId).map Prod.snd =
      [truncatedShare distributable (pool (winners stakes winningOutcome)) s] := by
    have alone := filter_member distinct member
    rw [List.filter_map, List.map_map]
    exact congrArg (List.map (truncatedShare distributable _)) alone
  rw [tallied, Tally.get_ofList, own]
  rw [Decimal.sum_exact] <;> simp [truncatedShare_scaled, shareNonneg]
  linarith

/-- A winner with one row gets the truncated share, and the receiver the remainder. -/
theorem get_winnings (cents : CentStakes stakes)
    (distributes : Distributes stakes winningOutcome distributable)
    (distinct : ((winners stakes winningOutcome).map Stake.memberId).Nodup)
    (chosen : topWinner (winners stakes winningOutcome) = some top)
    (member : s ∈ winners stakes winningOutcome) :
    Tally.get (winnings distributable (winners stakes winningOutcome)) s.memberId =
      truncatedShare distributable (pool (winners stakes winningOutcome)) s +
        if s = top then distributable - truncatedTotal distributable
          (pool (winners stakes winningOutcome)) (winners stakes winningOutcome)
        else 0 := by
  have winnersCents := winners_cents cents winningOutcome
  have somebody := pool_pos_of_mem winnersCents.nonneg member (winners_pos member)
  have small : distributable < 10 ^ 24 := distributes.upper.trans_lt cents.small
  obtain ⟨tallyCents, tallyTotal, below⟩ := truncated_cents cents distributes somebody
  have held := get_tallied cents distributes distinct member
  have same_iff : top.memberId = s.memberId ↔ s = top := by
    refine ⟨fun same => ?_, fun same => same ▸ rfl⟩
    exact List.inj_on_of_nodup_map distinct member (topWinner_mem chosen) same.symm
  have remainderScaled : Scaled 2 (distributable - truncatedTotal distributable
      (pool (winners stakes winningOutcome)) (winners stakes winningOutcome)) := by
    rw [← tallyTotal]
    exact distributes.scaled.sub tallyCents.total_scaled
  rw [winnings, payRemainder, chosen, tallyTotal]
  dsimp only
  split
  · rename_i something
    rw [Tally.get_add, held]
    by_cases isTop : s = top
    · rw [if_pos (same_iff.mpr isTop), if_pos isTop]
      have share_le := truncatedShare_le_total (distributes.nonneg cents) somebody
        winnersCents.nonneg member
      exact Decimal.add_exact (truncatedShare_scaled _ _ s) remainderScaled
        (truncatedShare_nonneg (distributes.nonneg cents) somebody (winnersCents.nonneg s member))
        something.le (by linarith)
    · rw [if_neg (fun same => isTop (same_iff.mp same)), if_neg isTop, add_zero]
  · rename_i nothing
    have closed : distributable - truncatedTotal distributable
        (pool (winners stakes winningOutcome)) (winners stakes winningOutcome) = 0 := by
      linarith [not_lt.mp nothing]
    rw [held, closed, ite_self, add_zero]

end Distinct

section Bounds

variable {distributable total amount : ℚ}

/-- The least that two rounded operations leave. -/
def deficit : ℚ := (1 - unitRoundoff) ^ 2

theorem lt_deficit : 1 - 1 / 10 ^ 26 < deficit := by norm_num [deficit, unitRoundoff]

theorem le_mul_div (distributableNonneg : 0 ≤ distributable) (totalPos : 0 < total)
    (staked : 0 ≤ amount) :
    distributable * amount / total * deficit ≤
      Decimal.mul distributable (Decimal.div amount total) := by
  have exactNonneg : 0 ≤ distributable * (amount / total) :=
    mul_nonneg distributableNonneg (div_nonneg staked totalPos.le)
  rw [mul_div_assoc]
  exact ((Decimal.near_mul_div distributable amount total).le_mul_pow exactNonneg).1

/-- The rounding of a share is far below a hundredth part of the total's units. -/
theorem abs_mul_div_sub_lt (distributableNonneg : 0 ≤ distributable) (totalPos : 0 < total)
    (staked : 0 ≤ amount) (part : amount ≤ total) (small : distributable < 10 ^ 10) :
    |Decimal.mul distributable (Decimal.div amount total) - distributable * amount / total| <
      1 / 10 ^ 15 := by
  have upper := (mul_div_le distributableNonneg totalPos staked).2
  have lower := le_mul_div distributableNonneg totalPos staked
  have slackBound := slack_lt
  have deficitBound := lt_deficit
  have exactNonneg : 0 ≤ distributable * amount / total :=
    div_nonneg (mul_nonneg distributableNonneg staked) totalPos.le
  have exact_lt : distributable * amount / total < 10 ^ 10 := by
    refine lt_of_le_of_lt ?_ small
    rw [mul_div_assoc]
    exact mul_le_of_le_one_right distributableNonneg ((div_le_one totalPos).mpr part)
  have upper_eq : distributable * slack / total * amount =
      distributable * amount / total * slack := by ring
  rw [upper_eq] at upper
  have above : distributable * amount / total * slack ≤
      distributable * amount / total * (1 + 1 / 10 ^ 26) := by gcongr
  have beneath : distributable * amount / total * (1 - 1 / 10 ^ 26) ≤
      distributable * amount / total * deficit := by gcongr
  rw [abs_lt]
  constructor <;> linarith

/-- A truncated share is the exact share rounded down, or one cent less where the exact
share is a whole number of cents. -/
theorem truncatedShare_bounds {s : Stake} (scaled : Scaled 2 distributable)
    (totalScaled : Scaled 2 total) (stakeScaled : Scaled 2 s.amount)
    (distributableNonneg : 0 ≤ distributable) (totalPos : 0 < total) (staked : 0 ≤ s.amount)
    (part : s.amount ≤ total) (totalSmall : total < 10 ^ 10) (small : distributable < 10 ^ 10) :
    exactShare distributable total s - 1 / 100 ≤ truncatedShare distributable total s ∧
      truncatedShare distributable total s ≤ exactShare distributable total s := by
  have near := abs_mul_div_sub_lt distributableNonneg totalPos staked part small
  obtain ⟨d, d_eq⟩ := scaled
  obtain ⟨w, w_eq⟩ := totalScaled
  obtain ⟨a, a_eq⟩ := stakeScaled
  have wPos : 0 < w := by
    rw [w_eq] at totalPos
    exact_mod_cast (div_pos_iff_of_pos_right (by norm_num : (0 : ℚ) < 10 ^ 2)).mp totalPos
  have wRatPos : (0 : ℚ) < w := by exact_mod_cast wPos
  have w_lt : (w : ℚ) < 10 ^ 12 := by
    rw [w_eq] at totalSmall
    linarith
  have exact_eq : exactShare distributable total s * 10 ^ 2 = ((d * a : ℤ) : ℚ) / w := by
    rw [exactShare, d_eq, w_eq, a_eq]
    push_cast
    field_simp
  have close : |Decimal.mul distributable (Decimal.div s.amount total) * 10 ^ 2 -
      ((d * a : ℤ) : ℚ) / w| < (1 : ℚ) / w := by
    rw [← exact_eq, ← sub_mul, abs_mul, abs_of_pos (by norm_num : (0 : ℚ) < 10 ^ 2)]
    calc
      |Decimal.mul distributable (Decimal.div s.amount total) - exactShare distributable total s| *
          10 ^ 2 < 1 / 10 ^ 15 * 10 ^ 2 := by
            rw [exactShare]
            gcongr
      _ ≤ 1 / 10 ^ 12 := by norm_num
      _ ≤ (1 : ℚ) / w := one_div_le_one_div_of_le wRatPos w_lt.le
  obtain ⟨low, high⟩ := Decimal.floor_near_quotient wPos close
  rw [← exact_eq] at low high
  rw [truncatedShare, le_div_iff₀ (by norm_num), div_le_iff₀ (by norm_num)]
  have cent : (exactShare distributable total s - 1 / 100) * 10 ^ 2 =
      exactShare distributable total s * 10 ^ 2 - 1 := by ring
  exact ⟨cent.trans_le low, high⟩

end Bounds

end FundPolymarket
