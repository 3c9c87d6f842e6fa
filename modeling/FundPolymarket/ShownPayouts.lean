import FundPolymarket.Apportionment
import FundPolymarket.PayoutLaws
import FundPolymarket.Resumption

set_option autoImplicit false

/- The payout column splits a member's payout over the member's bets. Every row is
rounded on its own, and nothing is done about what the rows then miss. -/
namespace FundPolymarket

open Apportionment (AddUp RoundsUp addUp_iff addUp_zero cutOff floor_part fract_part part_eq
  residue residue_bounds rounded)
open Decimal (Numeric Scaled unitRoundoff)
open RelativeError (Near growth)

/-- A bet's part of the payout, in cents. -/
def exactPart (memberTotal memberPayout : ℚ) (bet : Bet) : ℚ :=
  memberPayout * bet.stake.val / memberTotal * 10 ^ 2

/-- The part in the arithmetic of the context. -/
def computedPart (memberTotal memberPayout : ℚ) (bet : Bet) : ℚ :=
  Decimal.div (Decimal.mul memberPayout bet.stake.val) memberTotal * 10 ^ 2

/-- The part goes up a cent: it is past the half of a cent, or at the half of an odd one. -/
def GoesUp (memberTotal memberPayout : ℚ) (bet : Bet) : Prop :=
  1 / 2 < computedPart memberTotal memberPayout bet - ⌊exactPart memberTotal memberPayout bet⌋ ∨
    computedPart memberTotal memberPayout bet - ⌊exactPart memberTotal memberPayout bet⌋ = 1 / 2 ∧
      ⌊exactPart memberTotal memberPayout bet⌋ % 2 = 1

instance (memberTotal memberPayout : ℚ) : DecidablePred (GoesUp memberTotal memberPayout) :=
  fun _ => inferInstanceAs (Decidable (_ ∨ _))

/-- As many parts go up a cent as whole cents are cut off from all of them. -/
def SplitsEvenly (memberPayout : ℚ) (bets : List Bet) : Prop :=
  (bets.countP (GoesUp (staked bets) memberPayout) : ℚ) =
    cutOff (exactPart (staked bets) memberPayout) bets

instance (memberPayout : ℚ) (bets : List Bet) : Decidable (SplitsEvenly memberPayout bets) :=
  inferInstanceAs (Decidable (_ = _))

/-- An amount in whole cents. -/
def wholeCents (amount : ℚ) : ℤ := ⌊amount * 10 ^ 2⌋

/-- The nearest cent above a part, in units of `1 / total`, whose product has more digits than
the context. Product and quotient have 28 digits, and half a unit of the last digit of the
quotient counts as the half of a cent. -/
def RoundsUpInContext (award total stake : ℤ) : Prop :=
  let below := award * stake / total
  let units : ℤ := 10 ^ (Decimal.prec - 1 - Nat.log 10 ((2 * below + 1).natAbs / 2))
  let past := units * (2 * Decimal.fixInt (award * stake) - (2 * below + 1) * total)
  total < past ∨ |past| ≤ total ∧ below % 2 = 1

instance (award total stake : ℤ) : Decidable (RoundsUpInContext award total stake) :=
  inferInstanceAs (Decidable (_ ∨ _))

/-- A part goes up, by its remainder where the context holds the product. -/
def PartGoesUp (award total stake : ℤ) : Prop :=
  if |award * stake| < 10 ^ 27 then RoundsUp award total stake
  else RoundsUpInContext award total stake

instance (award total : ℤ) : DecidablePred (PartGoesUp award total) :=
  fun _ => inferInstanceAs (Decidable (ite _ _ _))

/-- The rows of a member show what the member is awarded: there is one row at most, or the
parts, each rounded to the nearest cent, add up. Beyond the digits of the context as many
parts have to go up as whole cents are left over. -/
def ShowsAward (award : ℚ) (bets : List Bet) : Prop :=
  let stakes := bets.map fun bet => bet.stake.units
  bets.length ≤ 1 ∨
    if |wholeCents award| * stakes.sum < 10 ^ 27 then AddUp (wholeCents award) stakes
    else stakes.sum * stakes.countP (PartGoesUp (wholeCents award) stakes.sum) =
      (stakes.map (residue (wholeCents award) stakes.sum)).sum

instance (award : ℚ) (bets : List Bet) : Decidable (ShowsAward award bets) :=
  inferInstanceAs (Decidable (_ ∨ _))

section Part

variable {memberTotal memberPayout : ℚ} {bet : Bet}

/-- A rounded product over a total, against the exact part. -/
theorem computedPart_near (memberTotal memberPayout : ℚ) (bet : Bet) :
    |computedPart memberTotal memberPayout bet - exactPart memberTotal memberPayout bet| ≤
      |exactPart memberTotal memberPayout bet| * (3 * unitRoundoff) := by
  have near : Near unitRoundoff 2 (exactPart memberTotal memberPayout bet)
      (computedPart memberTotal memberPayout bet) :=
    (Decimal.near_div_mul memberPayout bet.stake.val memberTotal).mul_right (10 ^ 2)
  have grown : growth unitRoundoff 2 ≤ 3 * unitRoundoff := by norm_num [growth, unitRoundoff]
  exact (near.abs_sub_le Decimal.roundoff).trans
    (mul_le_mul_of_nonneg_left grown (abs_nonneg _))

/-- A part that its column can hold is computed to less than half a cent. -/
theorem computedPart_close
    (fits : |(Decimal.halfEven (computedPart memberTotal memberPayout bet) : ℚ)| < 10 ^ 18) :
    |computedPart memberTotal memberPayout bet - exactPart memberTotal memberPayout bet| <
      1 / 2 := by
  have nearest := Decimal.abs_halfEven_sub_le (computedPart memberTotal memberPayout bet)
  have error := computedPart_near memberTotal memberPayout bet
  generalize computedPart memberTotal memberPayout bet = value at fits nearest error ⊢
  generalize exactPart memberTotal memberPayout bet = part at error ⊢
  have valueSize : |value| ≤ |(Decimal.halfEven value : ℚ)| + |Decimal.halfEven value - value| := by
    have triangle := abs_sub (Decimal.halfEven value : ℚ) (Decimal.halfEven value - value)
    rwa [sub_sub_cancel] at triangle
  have partSize : |part| ≤ |value| + |value - part| := by
    have triangle := abs_sub value (value - part)
    rwa [sub_sub_cancel] at triangle
  have unit_eq : unitRoundoff = 5 / 10 ^ 28 := rfl
  rw [unit_eq] at error
  linarith

/-- A part that is stored is computed to less than half a cent. -/
theorem computedPart_close_of_stored (totalPos : 0 < memberTotal) {shown : ℚ} {stored : Points}
    (split : shownPayout memberTotal memberPayout bet.stake.val = .ok shown)
    (kept : store 18 2 shown = .ok stored) :
    stored.units = Decimal.halfEven (computedPart memberTotal memberPayout bet) ∧
      |computedPart memberTotal memberPayout bet - exactPart memberTotal memberPayout bet| <
        1 / 2 := by
  rw [shownPayout, if_pos totalPos] at split
  have quantized := (Decimal.quantize_eq_some.mp (orRaise_eq_ok.mp split)).2
  have units : stored.units = Decimal.halfEven (computedPart memberTotal memberPayout bet) := by
    have shownUnits := Numeric.ofDecimal_units (orRaise_eq_ok.mp kept)
    rw [quantized, div_mul_cancel₀ _ (by norm_num), Decimal.halfUp_intCast] at shownUnits
    exact shownUnits
  have fits : |(stored.units : ℚ)| < 10 ^ 18 := by
    have bounded : |stored.units| < 10 ^ 18 := by
      rw [Int.abs_eq_natAbs]
      exact_mod_cast stored.bounded
    exact_mod_cast bounded
  exact ⟨units, computedPart_close (units ▸ fits)⟩

/-- What is stored for a row is the cent below its part, or the next. -/
theorem shownPayout_rounded (totalNonneg : 0 ≤ memberTotal) {shown : ℚ} {stored : Points}
    (split : shownPayout memberTotal memberPayout bet.stake.val = .ok shown)
    (kept : store 18 2 shown = .ok stored) :
    stored.val = (rounded (exactPart memberTotal memberPayout)
      (GoesUp memberTotal memberPayout) bet : ℚ) / 10 ^ 2 := by
  rcases totalNonneg.eq_or_lt with nothing | totalPos
  · rw [← nothing] at split ⊢
    rw [shownPayout, if_neg (lt_irrefl 0)] at split
    cases split
    rw [Numeric.val_ofDecimal Scaled.zero (orRaise_eq_ok.mp kept)]
    norm_num [rounded, GoesUp, exactPart, computedPart, Decimal.div, Decimal.fix]
  obtain ⟨units, near⟩ := computedPart_close_of_stored totalPos split kept
  obtain ⟨above, below⟩ := abs_lt.mp near
  have low := Int.floor_le (exactPart memberTotal memberPayout bet)
  have high := Int.lt_floor_add_one (exactPart memberTotal memberPayout bet)
  rw [Numeric.val, units, rounded, Decimal.halfEven_near_integer
    (n := ⌊exactPart memberTotal memberPayout bet⌋) (by linarith) (by linarith)]
  rfl

/-- A row that has the whole stake shows the whole payout. -/
theorem shownPayout_whole (totalPos : 0 < bet.stake.val) (cents : Scaled 2 memberPayout) {shown : ℚ}
    {stored : Points} (split : shownPayout bet.stake.val memberPayout bet.stake.val = .ok shown)
    (kept : store 18 2 shown = .ok stored) : stored.val = memberPayout := by
  obtain ⟨units, near⟩ := computedPart_close_of_stored totalPos split kept
  obtain ⟨award, rfl⟩ := cents
  have whole : exactPart bet.stake.val (award / 10 ^ 2) bet = award := by
    rw [exactPart, mul_div_assoc, div_self totalPos.ne', mul_one, div_mul_cancel₀ _ (by norm_num)]
  obtain ⟨above, below⟩ := abs_lt.mp (whole ▸ near)
  rw [Numeric.val, units, Decimal.halfEven_near_integer (n := award) (by linarith) (by linarith),
    if_neg (by
      rintro (more | ⟨half, _⟩)
      · linarith
      · linarith)]
  norm_num

end Part

section Residues

variable {bets : List Bet} {bet : Bet} {award : ℤ}

theorem units_nonneg {points : Points} (nonneg : 0 ≤ points.val) : 0 ≤ points.units := by
  rw [Numeric.val, le_div_iff₀ (by norm_num), zero_mul] at nonneg
  exact_mod_cast nonneg

theorem staked_units (bets : List Bet) :
    staked bets = ((bets.map fun bet => bet.stake.units).sum : ℤ) / 10 ^ 2 := by
  have each : (bets.map fun bet => bet.stake.val) =
      bets.map fun bet => (bet.stake.units : ℚ) * (10 ^ 2)⁻¹ := by
    refine List.map_congr_left fun bet _ => ?_
    rw [Numeric.val, div_eq_mul_inv]
  rw [staked, each, List.sum_map_mul_right, Int.cast_list_sum, List.map_map, div_eq_mul_inv]
  rfl

/-- Three stakes at most. -/
theorem sum_units_lt (few : bets.length ≤ 3) :
    (bets.map fun bet => bet.stake.units).sum < 10 ^ 19 := by
  have bound : (bets.map fun bet => bet.stake.units).sum ≤
      (bets.map fun bet => bet.stake.units).length • (10 ^ 18 : ℤ) := by
    refine List.sum_le_card_nsmul _ _ fun x listed => ?_
    obtain ⟨bet, _, rfl⟩ := List.mem_map.mp listed
    have within := bet.stake.bounded
    omega
  rw [List.length_map, nsmul_eq_mul] at bound
  have count : (bets.length : ℤ) ≤ 3 := by exact_mod_cast few
  linarith

variable {total : ℤ}

/-- The exact part of a row, in cents. -/
theorem exactPart_cents (positive : 0 < total) (award : ℤ) (bet : Bet) :
    exactPart (total / 10 ^ 2) (award / 10 ^ 2) bet = award * bet.stake.units / total := by
  have nonzero : (total : ℚ) ≠ 0 := by exact_mod_cast positive.ne'
  rw [exactPart, Numeric.val]
  field_simp

/-- The part that the code computes, before the quotient is rounded. -/
theorem computedPart_cents (award total : ℤ) (bet : Bet) :
    computedPart (total / 10 ^ 2) (award / 10 ^ 2) bet =
      Decimal.fix (Decimal.fixInt (award * bet.stake.units) / total / 10 ^ 2) * 10 ^ 2 := by
  have product : (award / 10 ^ 2 : ℚ) * bet.stake.val = (award * bet.stake.units : ℤ) / 10 ^ 4 := by
    rw [Numeric.val]
    push_cast
    ring
  rw [computedPart, Decimal.mul, product, Decimal.fix_div_pow, Decimal.div]
  congr 2
  generalize Decimal.fixInt (award * bet.stake.units) = units
  ring

/-- Twenty-eight digits of the points, in cents. -/
theorem abs_fix_cents_le (x : ℚ) :
    |Decimal.fix (x / 10 ^ 2) * 10 ^ 2 - x| ≤ |x| * unitRoundoff := by
  have rounding := Decimal.abs_fix_sub_le (x / 10 ^ 2)
  have shifted : Decimal.fix (x / 10 ^ 2) * 10 ^ 2 - x =
      (Decimal.fix (x / 10 ^ 2) - x / 10 ^ 2) * 10 ^ 2 := by ring
  rw [abs_div, abs_of_pos (by norm_num : (0 : ℚ) < 10 ^ 2)] at rounding
  rw [shifted, abs_mul, abs_of_pos (by norm_num : (0 : ℚ) < 10 ^ 2)]
  linarith

/-- A part is kept to less than half of what its remainder can be off the half of a cent. -/
theorem abs_fix_part_lt (positive : 0 < total) (small : |award * bet.stake.units| < 10 ^ 27) :
    |Decimal.fix ((award * bet.stake.units / total : ℚ) / 10 ^ 2) * 10 ^ 2 -
      (award * bet.stake.units / total : ℚ)| < 1 / (2 * (total : ℚ)) := by
  have totalPos : (0 : ℚ) < total := by exact_mod_cast positive
  have size : |(award * bet.stake.units : ℚ)| < 10 ^ 27 := by exact_mod_cast small
  have bounded : |(award * bet.stake.units / total : ℚ)| < 10 ^ 27 / total := by
    rw [abs_div, abs_of_pos totalPos]
    exact div_lt_div_of_pos_right size totalPos
  have scale : (10 : ℚ) ^ 27 / total * unitRoundoff = 1 / (2 * total) := by
    rw [Decimal.unitRoundoff]
    field_simp
    norm_num
  rw [← scale]
  exact (abs_fix_cents_le _).trans_lt
    (mul_lt_mul_of_pos_right bounded (by norm_num [Decimal.unitRoundoff]))

/-- A half of a cent is a whole number of thousandths, which the context holds. -/
theorem fix_middle {whole : ℤ} (bounded : |(whole + 1 / 2 : ℚ)| < 10 ^ 27) :
    Decimal.fix ((whole + 1 / 2 : ℚ) / 10 ^ 2) = (whole + 1 / 2) / 10 ^ 2 := by
  have thousandths : Scaled 3 ((whole + 1 / 2 : ℚ) / 10 ^ 2) := by
    refine ⟨5 * (2 * whole + 1), ?_⟩
    push_cast
    ring
  refine Decimal.fix_of_scaled thousandths ?_
  rw [abs_div, abs_of_pos (by norm_num : (0 : ℚ) < 10 ^ 2)]
  norm_num [Decimal.prec] at bounded ⊢
  linarith

/-- Rounding to 28 digits does not take a part across the half of a cent. -/
theorem computedPart_half (positive : 0 < total)
    (small : |award * bet.stake.units| < 10 ^ 27) :
    (1 / 2 < computedPart (total / 10 ^ 2) (award / 10 ^ 2) bet -
          (award * bet.stake.units / total : ℤ) ↔
        total < 2 * residue award total bet.stake.units) ∧
      (computedPart (total / 10 ^ 2) (award / 10 ^ 2) bet -
          (award * bet.stake.units / total : ℤ) = 1 / 2 ↔
        2 * residue award total bet.stake.units = total) := by
  have totalPos : (0 : ℚ) < total := by exact_mod_cast positive
  have part := @part_eq award total positive bet.stake.units
  have size : |(award * bet.stake.units : ℚ)| < 10 ^ 27 := by exact_mod_cast small
  have bounded : |(award * bet.stake.units / total : ℚ)| < 10 ^ 27 := by
    rw [abs_div, abs_of_pos totalPos]
    exact (div_le_self (abs_nonneg _) (by exact_mod_cast positive)).trans_lt size
  have error : |Decimal.fix ((award * bet.stake.units / total : ℚ) / 10 ^ 2) * 10 ^ 2 -
      (award * bet.stake.units / total : ℚ)| < 1 / (2 * (total : ℚ)) :=
    abs_fix_part_lt positive small
  have kept : Decimal.fixInt (award * bet.stake.units) = award * bet.stake.units :=
    Decimal.fixInt_of_small (small.trans (by norm_num [Decimal.prec]))
  rw [computedPart_cents, kept]
  push_cast
  rw [part] at bounded error ⊢
  generalize residue award total bet.stake.units = remainder at bounded error ⊢
  generalize (award * bet.stake.units / total : ℤ) = whole at bounded error ⊢
  have unit : 1 / (2 * (total : ℚ)) * (2 * total) = 1 := by field_simp
  have rest : (remainder : ℚ) / total * (2 * total) = 2 * remainder := by field_simp
  obtain ⟨above, below⟩ := abs_lt.mp error
  rcases lt_trichotomy (2 * remainder) total with less | half | more
  · have gap : (2 * remainder + 1 : ℚ) ≤ total := by exact_mod_cast less
    have low : (remainder : ℚ) / total + 1 / (2 * total) ≤ 1 / 2 := by
      rw [← mul_le_mul_iff_left₀ (show (0 : ℚ) < 2 * total by positivity), add_mul, unit, rest]
      linarith
    refine ⟨⟨fun up => ?_, fun up => absurd up less.not_gt⟩,
      ⟨fun up => ?_, fun up => absurd up less.ne⟩⟩ <;> linarith
  · have middle : (remainder : ℚ) / total = 1 / 2 := by
      rw [div_eq_div_iff totalPos.ne' (by norm_num), one_mul, mul_comm]
      exact_mod_cast half
    rw [middle] at bounded ⊢
    rw [fix_middle bounded, div_mul_cancel₀ _ (by norm_num), add_sub_cancel_left]
    exact ⟨⟨fun up => absurd up (lt_irrefl _), fun up => absurd half up.ne'⟩,
      ⟨fun _ => half, fun _ => rfl⟩⟩
  · have gap : (total + 1 : ℚ) ≤ 2 * remainder := by exact_mod_cast more
    have high : 1 / 2 ≤ (remainder : ℚ) / total - 1 / (2 * total) := by
      rw [← mul_le_mul_iff_left₀ (show (0 : ℚ) < 2 * total by positivity), sub_mul, unit, rest]
      linarith
    refine ⟨⟨fun _ => more, fun _ => by linarith⟩,
      ⟨fun tie => ?_, fun tie => absurd tie more.ne'⟩⟩
    linarith

/-- A part with a long product is far from zero, and a part that fits its column from the
end of the context. -/
theorem half_range (positive : 0 < total) (few : total < 10 ^ 19)
    (long : 10 ^ 27 ≤ |award * bet.stake.units|)
    (fits : |exactPart (total / 10 ^ 2) (award / 10 ^ 2) bet| < 10 ^ 19) :
    0 < (2 * (award * bet.stake.units / total) + 1).natAbs / 2 ∧
      (2 * (award * bet.stake.units / total) + 1).natAbs / 2 < 10 ^ 25 := by
  have split := Int.mul_ediv_add_emod (award * bet.stake.units) total
  have lower := Int.emod_nonneg (award * bet.stake.units) positive.ne'
  have upper := Int.emod_lt_of_pos (award * bet.stake.units) positive
  have bounded : |award * bet.stake.units| < 10 ^ 19 * total := by
    have totalPos : (0 : ℚ) < total := by exact_mod_cast positive
    rw [exactPart_cents positive, abs_div, abs_of_pos totalPos, div_lt_iff₀ totalPos] at fits
    exact_mod_cast fits
  generalize award * bet.stake.units = product at long bounded split lower upper ⊢
  generalize product / total = below at split ⊢
  generalize product % total = remainder at split lower upper
  obtain ⟨least, most⟩ := abs_lt.mp bounded
  have notZero : below ≠ 0 := by
    rintro rfl
    rw [abs_of_nonneg (by omega)] at long
    omega
  have notBefore : below ≠ -1 := by
    rintro rfl
    rw [abs_of_nonpos (by omega)] at long
    omega
  have high : below < 10 ^ 19 := by
    by_contra large
    nlinarith
  have low : -10 ^ 19 - 1 ≤ below := by
    by_contra large
    nlinarith
  omega

/-- Product and quotient are rounded to 28 digits, which is as far as the half of a cent is
away at most. -/
theorem computedPart_half_inContext (positive : 0 < total)
    (some : 0 < (2 * (award * bet.stake.units / total) + 1).natAbs / 2)
    (small : (2 * (award * bet.stake.units / total) + 1).natAbs / 2 < 10 ^ 25) :
    GoesUp (total / 10 ^ 2) (award / 10 ^ 2) bet ↔
      RoundsUpInContext award total bet.stake.units := by
  have totalPos : (0 : ℚ) < total := by exact_mod_cast positive
  obtain ⟨above, below⟩ := Decimal.fix_half some small
    (Decimal.fixInt (award * bet.stake.units) / total)
  rw [GoesUp, exactPart_cents positive, floor_part positive, computedPart_cents]
  simp only [RoundsUpInContext]
  generalize Nat.log 10 ((2 * (award * bet.stake.units / total) + 1).natAbs / 2) = digits
    at above below ⊢
  generalize award * bet.stake.units / total = q at above below ⊢
  generalize Decimal.fixInt (award * bet.stake.units) = product at above below ⊢
  generalize Decimal.prec - 1 - digits = span at above below ⊢
  have doubled : (0 : ℚ) < 2 * 10 ^ span * total := by positivity
  have slack : 1 / (2 * (10 : ℚ) ^ span) * (2 * 10 ^ span * total) = total := by field_simp
  have scaled : (product / total : ℚ) * (2 * 10 ^ span * total) = 2 * 10 ^ span * product := by
    field_simp
  have past : (q + 1 / 2 + 1 / (2 * 10 ^ span) < (product / total : ℚ)) ↔
      total < 10 ^ span * (2 * product - (2 * q + 1) * total) := by
    rw [← mul_lt_mul_iff_left₀ doubled, scaled, add_mul, slack, ← @Int.cast_lt ℚ]
    push_cast
    constructor <;> intro less <;> linarith
  have short : ((product / total : ℚ) < q + 1 / 2 - 1 / (2 * 10 ^ span)) ↔
      10 ^ span * (2 * product - (2 * q + 1) * total) < -total := by
    rw [← mul_lt_mul_iff_left₀ doubled, scaled, sub_mul, slack, ← @Int.cast_lt ℚ]
    push_cast
    constructor <;> intro less <;> linarith
  rw [past] at above
  rw [short] at below
  rw [lt_sub_iff_add_lt', above, abs_le]
  refine or_congr_right' fun notPast => and_congr_left' ?_
  rw [sub_eq_iff_eq_add']
  constructor
  · intro half
    exact ⟨not_lt.mp fun less => (below.mpr less).ne half, not_lt.mp notPast⟩
  · rintro ⟨low, high⟩
    exact le_antisymm (not_lt.mp (mt above.mp high.not_gt)) (not_lt.mp (mt below.mp low.not_gt))

theorem goesUp_iff (positive : 0 < total) (few : total < 10 ^ 19)
    (fits : |exactPart (total / 10 ^ 2) (award / 10 ^ 2) bet| < 10 ^ 19) :
    GoesUp (total / 10 ^ 2) (award / 10 ^ 2) bet ↔ PartGoesUp award total bet.stake.units := by
  rw [PartGoesUp]
  split_ifs with small
  · obtain ⟨past, half⟩ := computedPart_half positive small
    rw [GoesUp, exactPart_cents positive, floor_part positive, past, half]
  · obtain ⟨some, within⟩ := half_range positive few (not_lt.mp small) fits
    exact computedPart_half_inContext positive some within

/-- Of no payout nothing is cut off. -/
theorem splitsEvenly_zero (bets : List Bet) : SplitsEvenly 0 bets := by
  have parts : exactPart (staked bets) 0 = fun _ => 0 := by
    funext bet
    simp [exactPart]
  have computed : computedPart (staked bets) 0 = fun _ => 0 := by
    funext bet
    simp [computedPart, Decimal.mul, Decimal.div, Decimal.fix]
  have up : bets.countP (GoesUp (staked bets) 0) = 0 := by
    rw [List.countP_eq_zero]
    intro bet _
    norm_num [GoesUp, parts, computed]
  rw [SplitsEvenly, up, cutOff, parts]
  simp

/-- The parts split evenly where as many go up as whole cents are left over. -/
theorem splitsEvenly_iff (positive : 0 < (bets.map fun bet => bet.stake.units).sum)
    (few : (bets.map fun bet => bet.stake.units).sum < 10 ^ 19)
    (fits : ∀ bet ∈ bets, |exactPart (staked bets) (award / 10 ^ 2) bet| < 10 ^ 19) :
    SplitsEvenly (award / 10 ^ 2) bets ↔
      (bets.map fun bet => bet.stake.units).sum * (bets.map fun bet => bet.stake.units).countP
          (PartGoesUp award (bets.map fun bet => bet.stake.units).sum) =
        ((bets.map fun bet => bet.stake.units).map
          (residue award (bets.map fun bet => bet.stake.units).sum)).sum := by
  rw [staked_units] at fits
  rw [SplitsEvenly, staked_units]
  generalize (bets.map fun bet => bet.stake.units).sum = total at positive few fits ⊢
  have nonzero : (total : ℚ) ≠ 0 := by exact_mod_cast positive.ne'
  have ups : bets.countP (GoesUp (total / 10 ^ 2) (award / 10 ^ 2)) =
      (bets.map fun bet => bet.stake.units).countP (PartGoesUp award total) := by
    rw [List.countP_map]
    refine List.countP_congr fun bet member => ?_
    simp only [Function.comp_apply, decide_eq_true_eq]
    exact goesUp_iff positive few (fits bet member)
  have lost : cutOff (exactPart (total / 10 ^ 2) (award / 10 ^ 2)) bets =
      ((bets.map fun bet => bet.stake.units).map (residue award total)).sum / total := by
    have parts : (fun bet => Int.fract (exactPart (total / 10 ^ 2) (award / 10 ^ 2) bet)) =
        fun bet => (residue award total bet.stake.units : ℚ) * (total : ℚ)⁻¹ := by
      funext bet
      rw [exactPart_cents positive, fract_part positive, div_eq_mul_inv]
    rw [cutOff, parts, List.sum_map_mul_right, List.map_map, Int.cast_list_sum, List.map_map,
      div_eq_mul_inv]
    rfl
  rw [ups, lost, eq_div_iff nonzero, mul_comm]
  norm_cast

/-- Where the context holds every product, the remainders alone say what goes up. -/
theorem countP_partGoesUp (units : ∀ bet ∈ bets, 0 ≤ bet.stake.units)
    (small : |award| * (bets.map fun bet => bet.stake.units).sum < 10 ^ 27) (total : ℤ) :
    (bets.map fun bet => bet.stake.units).countP (PartGoesUp award total) =
      (bets.map fun bet => bet.stake.units).countP (RoundsUp award total) := by
  refine List.countP_congr fun stake member => ?_
  have nonneg : ∀ stake ∈ bets.map fun bet => bet.stake.units, 0 ≤ stake := by
    intro stake listed
    obtain ⟨bet, betMember, rfl⟩ := List.mem_map.mp listed
    exact units bet betMember
  have within := List.single_le_sum nonneg stake member
  have product : |award * stake| < 10 ^ 27 := by
    rw [abs_mul, abs_of_nonneg (nonneg stake member)]
    exact (mul_le_mul_of_nonneg_left within (abs_nonneg award)).trans_lt small
  rw [decide_eq_true_eq, decide_eq_true_eq, PartGoesUp, if_pos product]

/-- The parts of an award add up where they are split evenly. -/
theorem splitsEvenly_shows {memberPayout : ℚ} (nonneg : ∀ bet ∈ bets, 0 ≤ bet.stake.val)
    (few : bets.length ≤ 3) (long : ¬ bets.length ≤ 1) (cents : Scaled 2 memberPayout)
    (nothing : staked bets = 0 → memberPayout = 0)
    (fits : 0 < staked bets → ∀ bet ∈ bets, |exactPart (staked bets) memberPayout bet| < 10 ^ 19) :
    SplitsEvenly memberPayout bets ↔ ShowsAward memberPayout bets := by
  have units : ∀ bet ∈ bets, 0 ≤ bet.stake.units :=
    fun bet member => units_nonneg (nonneg bet member)
  obtain ⟨award, rfl⟩ := cents
  have whole : wholeCents (award / 10 ^ 2) = award := by
    rw [wholeCents, div_mul_cancel₀ _ (by norm_num), Int.floor_intCast]
  have total := staked_units bets
  have sumNonneg : 0 ≤ (bets.map fun bet => bet.stake.units).sum := by
    refine List.sum_nonneg fun x listed => ?_
    obtain ⟨bet, member, rfl⟩ := List.mem_map.mp listed
    exact units bet member
  rw [ShowsAward, or_iff_right long, whole]
  rcases sumNonneg.eq_or_lt with zero | positive
  · rw [← zero, Int.cast_zero, zero_div] at total
    have none : award = 0 := by
      have nil := nothing total
      rw [div_eq_zero_iff, or_iff_left (by norm_num)] at nil
      exact_mod_cast nil
    rw [if_pos (by rw [← zero, mul_zero]; norm_num), none, Int.cast_zero, zero_div]
    exact iff_of_true (splitsEvenly_zero _) (addUp_zero (by rwa [List.length_map]))
  · have stakedPos : 0 < staked bets := by
      rw [total]
      exact div_pos (by exact_mod_cast positive) (by norm_num)
    rw [splitsEvenly_iff positive (sum_units_lt few) (fits stakedPos)]
    split_ifs with small
    · rw [countP_partGoesUp units small, addUp_iff (by rwa [List.length_map]) positive]
    · exact Iff.rfl

end Residues

section Settlement

variable {settings : Settings} {now : Time} {marketId memberId : ℕ} {db final : Db}
  {payouts : List (ℕ × ℚ)}

/-- The total of a member is computed exactly. -/
theorem get_stakeByMember (nonneg : StakesNonneg db) (marketId memberId : ℕ) :
    Tally.get (stakeByMember db marketId) memberId = staked (ownBets db marketId memberId) := by
  rw [← previousTotal_eq nonneg, stakeByMember, Tally.get_ofList, List.filter_map, List.map_map,
    Db.betsOf, Table.select, List.filter_filter, previousTotal, existingBets, Table.select]
  congr 2
  apply List.filter_congr
  intro row _
  rw [Bool.decide_and, Bool.and_comm]
  rfl

theorem betPayout_key {row : ℕ × Bet} {result : ℕ × Points}
    (split : betPayout db marketId payouts row = .ok result) : result.1 = row.1 := by
  obtain ⟨part, _, rest⟩ := bind_eq_ok.mp split
  obtain ⟨stored, _, same⟩ := bind_eq_ok.mp rest
  cases same
  rfl

/-- What the rows of a member show after the settlement, in the order of the rows. -/
theorem settlement_column {shown : List (ℕ × Points)}
    (split : (db.betsOf marketId).mapM (betPayout db marketId payouts) = .ok shown)
    (table : final.bets.toTable = showPayouts shown db.bets.toTable) (memberId : ℕ) :
    ∃ column : List Points, (ownBets final marketId memberId).map Bet.payout = column.map some ∧
      List.Forall₂ (fun row stored => betPayout db marketId payouts row = .ok (row.1, stored))
        (existingBets db marketId memberId) column := by
  have results := mapM_forall₂ split
  have keys : shown.map Prod.fst = (db.betsOf marketId).map Prod.fst :=
    forall₂_map_eq results fun row _ result found => betPayout_key found
  have distinct : (shown.map Prod.fst).Nodup :=
    keys ▸ db.bets.distinct.sublist (List.filter_sublist.map _)
  have mine : ∀ row ∈ existingBets db marketId memberId, row ∈ db.betsOf marketId := by
    intro row member
    obtain ⟨listed, own⟩ := List.mem_filter.mp member
    exact List.mem_filter.mpr ⟨listed, by simpa using (of_decide_eq_true own).1⟩
  obtain ⟨own, ownOk⟩ : ∃ own, (existingBets db marketId memberId).mapM
      (betPayout db marketId payouts) = .ok own := by
    refine exists_mapM_eq_ok fun row member => ?_
    obtain ⟨result, _, found⟩ := forall₂_exists_left results.flip (mine row member)
    exact ⟨result, found⟩
  have ownResults := mapM_forall₂ ownOk
  refine ⟨own.map Prod.snd, ?_, ?_⟩
  · have rows := rows_showPayouts distinct db.bets.toTable
    rw [← table] at rows
    have selected : ownBets final marketId memberId =
        (existingBets db marketId memberId).map (shownRow shown) := by
      rw [ownBets, Table.contents, rows, List.map_map, List.filter_map, existingBets, Table.select]
      congr 1
      apply List.filter_congr
      intro row _
      have core := shownRow_core shown row
      have market : (shownRow shown row).core.marketId = row.2.core.marketId := by rw [core]
      have owner : (shownRow shown row).core.memberId = row.2.core.memberId := by rw [core]
      simp only [Bet.core] at market owner
      simp only [Function.comp_apply, market, owner]
    rw [selected, List.map_map, List.map_map]
    refine (forall₂_map_eq ownResults fun row member result found => ?_).symm
    obtain ⟨listed, listedMember, listedFound⟩ := forall₂_exists_left results.flip (mine row member)
    have same : listed = result := Except.ok.inj (listedFound.symm.trans found)
    rw [same] at listedMember
    exact (shownRow_payout distinct listedMember (betPayout_key found)).symm
  · rw [List.forall₂_map_right_iff]
    refine ownResults.imp fun row result found => ?_
    rw [found, ← betPayout_key found]

/-- The column holds a rounded part for every row. -/
theorem sum_column (nonneg : StakesNonneg db) {column : List Points}
    (split : List.Forall₂ (fun row stored =>
      betPayout db marketId payouts row = .ok (row.1, stored))
        (existingBets db marketId memberId) column) :
    (column.map Numeric.val).sum = (((ownBets db marketId memberId).map
      (rounded (exactPart (staked (ownBets db marketId memberId)) (Tally.get payouts memberId))
        (GoesUp (staked (ownBets db marketId memberId)) (Tally.get payouts memberId)))).sum : ℚ) /
          10 ^ 2 := by
  have totalNonneg : 0 ≤ staked (ownBets db marketId memberId) :=
    staked_nonneg fun bet member => nonneg bet (List.mem_filter.mp member).1
  have values : column.map Numeric.val = (ownBets db marketId memberId).map fun bet =>
      (rounded (exactPart (staked (ownBets db marketId memberId)) (Tally.get payouts memberId))
        (GoesUp (staked (ownBets db marketId memberId)) (Tally.get payouts memberId)) bet : ℚ) *
          (10 ^ 2)⁻¹ := by
    rw [← existingBets_values, List.map_map]
    refine forall₂_map_eq split fun row member stored found => ?_
    obtain ⟨part, shown, rest⟩ := bind_eq_ok.mp found
    obtain ⟨kept, stores, same⟩ := bind_eq_ok.mp rest
    cases same
    rw [rowPayout, (existingBets_mem member).2.2, get_stakeByMember nonneg] at shown
    rw [existingBets_values, Function.comp_apply, ← div_eq_mul_inv]
    exact shownPayout_rounded totalNonneg shown stores
  rw [values, List.sum_map_mul_right, Int.cast_list_sum, List.map_map, ← div_eq_mul_inv]
  rfl

/-- A member without a stake is awarded nothing. -/
theorem award_of_nothing_staked (nonneg : StakesNonneg db) {winningOutcome : Outcome}
    {rakeBps : ℤ}
    (settled : settleParimutuel (loadStakes db marketId) winningOutcome rakeBps = .ok payouts)
    (nothing : staked (ownBets db marketId memberId) = 0) : Tally.get payouts memberId = 0 := by
  apply Tally.get_of_absent
  intro listed
  obtain ⟨s, member, owner, positive⟩ := settleParimutuel_members settled listed
  obtain ⟨row, rowMember, rfl⟩ := List.mem_map.mp member
  have own : row.2 ∈ ownBets db marketId memberId := by
    have onMarket := List.mem_map_of_mem (f := Prod.snd) rowMember
    rw [betsOf_values, List.mem_filter] at onMarket
    exact List.mem_filter.mpr ⟨onMarket.1, decide_eq_true ⟨of_decide_eq_true onMarket.2, owner⟩⟩
  have within : row.2.stake.val ≤ staked (ownBets db marketId memberId) := by
    refine List.single_le_sum ?_ _ (List.mem_map_of_mem (f := fun bet : Bet => bet.stake.val) own)
    intro x listed
    obtain ⟨bet, betMember, rfl⟩ := List.mem_map.mp listed
    exact nonneg bet (List.mem_filter.mp betMember).1
  rw [nothing] at within
  exact absurd positive (not_lt.mpr within)

/-- Nobody is awarded a part of a cent. -/
theorem get_settled_scaled {winningOutcome : Outcome} {rakeBps : ℤ}
    (settled : settleParimutuel (loadStakes db marketId) winningOutcome rakeBps = .ok payouts)
    (memberId : ℕ) : Scaled 2 (Tally.get payouts memberId) := by
  obtain ⟨nodup, cents⟩ := settleParimutuel_whole (loadStakes_scaled db marketId) settled
  by_cases listed : memberId ∈ payouts.map Prod.fst
  · exact cents _ ((Tally.mem_iff_get nodup (memberId, Tally.get payouts memberId)).mpr
      ⟨listed, rfl⟩)
  · rw [Tally.get_of_absent listed]
    exact Scaled.zero

/-- The exact parts of a member add up to the payout. -/
theorem sum_exactPart {bets : List Bet} {memberPayout : ℚ}
    (nothing : staked bets = 0 → memberPayout = 0) :
    (bets.map (exactPart (staked bets) memberPayout)).sum = memberPayout * 10 ^ 2 := by
  have parts : exactPart (staked bets) memberPayout =
      fun bet => memberPayout * 10 ^ 2 * bet.stake.val / staked bets := by
    funext bet
    rw [exactPart]
    ring
  rw [parts]
  by_cases empty : staked bets = 0
  · simp [empty, nothing empty]
  · exact Apportionment.sum_proportional _ _ rfl empty

theorem own_length (db : Db) (marketId memberId : ℕ) :
    (ownBets db marketId memberId).length ≤ 3 := by
  rw [← existingBets_values, List.length_map]
  exact existing_length db marketId memberId

/-- The column of a member with one row at most shows the payout. -/
theorem sum_column_of_short (nonneg : StakesNonneg db) {column : List Points}
    (cents : Scaled 2 (Tally.get payouts memberId))
    (nothing : staked (ownBets db marketId memberId) = 0 → Tally.get payouts memberId = 0)
    (short : (ownBets db marketId memberId).length ≤ 1)
    (split : List.Forall₂ (fun row stored =>
      betPayout db marketId payouts row = .ok (row.1, stored))
        (existingBets db marketId memberId) column) :
    (column.map Numeric.val).sum = Tally.get payouts memberId := by
  have values := existingBets_values db marketId memberId
  match rows : existingBets db marketId memberId, column, split with
  | [], [], _ =>
      rw [rows, List.map_nil] at values
      rw [nothing (by rw [← values]; rfl)]
      rfl
  | [row], [stored], .cons found _ =>
      rw [rows, List.map_singleton] at values
      have total : staked (ownBets db marketId memberId) = row.2.stake.val := by
        rw [← values, staked, List.map_singleton, List.sum_singleton]
      have member : row ∈ existingBets db marketId memberId := by simp [rows]
      obtain ⟨listed, _, owner⟩ := existingBets_mem member
      obtain ⟨part, shown, rest⟩ := bind_eq_ok.mp found
      obtain ⟨kept, stores, same⟩ := bind_eq_ok.mp rest
      cases same
      rw [rowPayout, owner, get_stakeByMember nonneg, total] at shown
      rw [total] at nothing
      rw [List.map_singleton, List.sum_singleton]
      rcases (nonneg row.2 listed).eq_or_lt with zero | positive
      · rw [nothing zero.symm] at shown ⊢
        rw [← zero, shownPayout, if_neg (lt_irrefl 0)] at shown
        cases shown
        exact Numeric.val_ofDecimal Scaled.zero (orRaise_eq_ok.mp stores)
      · exact shownPayout_whole positive cents shown stores
  | _ :: _ :: _, _, _ =>
      rw [← values, rows, List.length_map] at short
      simp at short

/-- What fits the columns is small. -/
theorem parts_fit (nonneg : StakesNonneg db) (positive : 0 < staked (ownBets db marketId memberId))
    {column : List Points}
    (split : List.Forall₂ (fun row stored =>
      betPayout db marketId payouts row = .ok (row.1, stored))
        (existingBets db marketId memberId) column) :
    ∀ bet ∈ ownBets db marketId memberId,
      |exactPart (staked (ownBets db marketId memberId)) (Tally.get payouts memberId) bet| <
        10 ^ 19 := by
  intro bet member
  rw [← existingBets_values] at member
  obtain ⟨row, listed, rfl⟩ := List.mem_map.mp member
  obtain ⟨stored, _, found⟩ := forall₂_exists_left split.flip listed
  obtain ⟨part, shown, rest⟩ := bind_eq_ok.mp found
  obtain ⟨kept, stores, same⟩ := bind_eq_ok.mp rest
  cases same
  rw [rowPayout, (existingBets_mem listed).2.2, get_stakeByMember nonneg] at shown
  obtain ⟨units, near⟩ := computedPart_close_of_stored positive shown stores
  have nearest := Decimal.abs_halfEven_sub_le
    (computedPart (staked (ownBets db marketId memberId)) (Tally.get payouts memberId) row.2)
  rw [← units] at nearest
  have bounded : |(stored.units : ℚ)| < 10 ^ 18 := by
    have within := stored.bounded
    rw [← Nat.cast_lt (α := ℤ), ← Int.abs_eq_natAbs] at within
    exact_mod_cast within
  obtain ⟨least, most⟩ := abs_lt.mp bounded
  obtain ⟨above, below⟩ := abs_lt.mp near
  obtain ⟨low, high⟩ := abs_le.mp nearest
  rw [abs_lt]
  constructor <;> linarith

/-- After a settlement the rows of a member show as much as the member is awarded exactly
where the award and the stakes are such that the rounded parts add up. Stakes are never
negative in a state that is reached from the empty database. -/
theorem shown_payouts_add_up_iff (nonneg : StakesNonneg db)
    (settled : settleOnce settings now marketId db = .ok final) :
    ∃ market winningOutcome payouts, db.markets.get? marketId = some market ∧
      market.status = .resolved ∧ market.winningOutcome = some winningOutcome ∧
      settleParimutuel (loadStakes db marketId) winningOutcome settings.rakeBps = .ok payouts ∧
      ∀ memberId, ∃ column : List Points,
        (ownBets final marketId memberId).map Bet.payout = column.map some ∧
        ((column.map Numeric.val).sum = Tally.get payouts memberId ↔
          ShowsAward (Tally.get payouts memberId) (ownBets db marketId memberId)) := by
  obtain ⟨market, writes, found, served, applied⟩ := perform_eq_ok.mp settled
  have committed : Commits ⟨settings, now, .steady 0 0 []⟩ db (.settleMarket marketId) writes :=
    settleMarket_commits found served
  cases committed with
  | @settleMarket _ market winningOutcome payouts entries shown found isResolved winning
      distributed recorded split =>
      refine ⟨market, winningOutcome, payouts, found, isResolved, winning, distributed, ?_⟩
      intro memberId
      obtain ⟨column, shows, parts⟩ :=
        settlement_column split (settlement_bets applied) memberId
      have nothing : staked (ownBets db marketId memberId) = 0 → Tally.get payouts memberId = 0 :=
        award_of_nothing_staked nonneg distributed
      have cents := get_settled_scaled distributed memberId
      refine ⟨column, shows, ?_⟩
      by_cases short : (ownBets db marketId memberId).length ≤ 1
      · exact ⟨fun _ => .inl short, fun _ => sum_column_of_short nonneg cents nothing short parts⟩
      have whole := @sum_exactPart (ownBets db marketId memberId) _ nothing
      have balanced := Apportionment.sum_rounded_eq_iff
        (exactPart (staked (ownBets db marketId memberId)) (Tally.get payouts memberId))
        (GoesUp (staked (ownBets db marketId memberId)) (Tally.get payouts memberId))
        (ownBets db marketId memberId)
      rw [whole] at balanced
      have stakes : ∀ bet ∈ ownBets db marketId memberId, 0 ≤ bet.stake.val :=
        fun bet member => nonneg bet (List.mem_filter.mp member).1
      have even := splitsEvenly_shows stakes (own_length db marketId memberId) short cents nothing
        fun positive => parts_fit nonneg positive parts
      rw [← even, sum_column nonneg parts, SplitsEvenly, ← balanced, div_eq_iff (by norm_num)]

end Settlement

/-- A market that BUY has won, after the allocations of two members. -/
def judgedMarket (first second : Allocation) : List Event :=
  [.request desk (.createMember { email := "a@example.com", name := "a" }),
    .request desk (.createMember { email := "b@example.com", name := "b" }),
    .request desk (.createFund "fund" "1" "KIS"),
    .request desk (.createMarket
      { fundId := 1, title := "t", ticker := "005930", closesAt := desk.now + 1,
        resolveAt := desk.now + 2, notionalKrw := 100000 } 1),
    .request desk (.putAllocation 1 1 first none), .request desk (.putAllocation 1 2 second none),
    .request desk (.closeMarket 1),
    .request { desk with broker := .steady 60000 10000000 [] } (.resolveMarket 1)]

/-- The winner holds two thirds and one third of the stake, and takes 150. -/
def thirdsOfWhole : Db :=
  stateAfter Db.empty
    (judgedMarket ⟨[(.buy, 80), (.sell, 40)], by decide⟩ ⟨[(.sell, 30)], by decide⟩)

theorem shown_payouts_add_up_iff_thirds :
    ∃ final, settleOnce {} desk.now 1 thirdsOfWhole = .ok final ∧
      ∃ column : List Points, (ownBets final 1 1).map Bet.payout = column.map some ∧
        (column.map Numeric.val).sum = 150 := by
  obtain ⟨final, served, _⟩ : ∃ final ∈ (settleOnce {} desk.now 1 thirdsOfWhole).toOption,
    final.funds.contents.length = 1 := by decide +kernel
  have settled := toOption_eq_some.mp served
  obtain ⟨market, winningOutcome, payouts, found, _, winning, distributed, shows⟩ :=
    shown_payouts_add_up_iff (stakesNonneg_stateAfter stakesNonneg_empty _) settled
  have judged : ∀ row ∈ thirdsOfWhole.markets.get? 1, row.winningOutcome = some .buy := by
    decide +kernel
  have paid : settleParimutuel (loadStakes thirdsOfWhole 1) .buy 0 = .ok [(1, 150)] := by
    decide +kernel
  cases winning.symm.trans (judged market found)
  cases distributed.symm.trans paid
  obtain ⟨column, shown, adds⟩ := shows 1
  exact ⟨final, settled, column, shown, adds.mpr (by decide +kernel)⟩

/-- The winner of 101.01 holds two equal rows. Each shows 50.50, since the half of a cent
goes to the even cent. -/
def halvesOfOdd : Db :=
  stateAfter Db.empty
    (judgedMarket ⟨[(.buy, 50), (.sell, 50)], by decide⟩ ⟨[(.sell, 101 / 100)], by decide⟩)

theorem shown_payouts_fall_short :
    settleParimutuel (loadStakes halvesOfOdd 1) .buy 0 = .ok [(1, 10101 / 100)] ∧
      ∃ final ∈ (settleOnce {} desk.now 1 halvesOfOdd).toOption,
        (ownBets final 1 1).map (fun bet => bet.payout.map Numeric.val) =
          [some (101 / 2), some (101 / 2)] := by
  decide +kernel

end FundPolymarket
