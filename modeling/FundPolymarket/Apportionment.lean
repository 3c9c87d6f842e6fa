import Mathlib.Algebra.BigOperators.Ring.Finset
import Mathlib.Data.Rat.Floor
import Mathlib.Tactic.Linarith
import Mathlib.Tactic.Ring

set_option autoImplicit false

/- A whole is split into parts, and each part is rounded to an integer next to it. No
remainder is handed out afterwards. -/
namespace FundPolymarket.Apportionment

variable {ι : Type}

section Rounded

variable (part : ι → ℚ) (up : ι → Prop) [DecidablePred up]

/-- The integer below a part, or the next one. -/
def rounded (item : ι) : ℤ := ⌊part item⌋ + if up item then 1 else 0

/-- What the parts have above the integers below them. -/
def cutOff (items : List ι) : ℚ := (items.map fun item => Int.fract (part item)).sum

/-- Rounding gains a unit for every part that goes up, and loses what is cut off. -/
theorem sum_rounded (items : List ι) :
    ((items.map (rounded part up)).sum : ℚ) =
      (items.map part).sum + items.countP up - cutOff part items := by
  induction items with
  | nil => simp [cutOff]
  | cons item items ih =>
      have split := Int.floor_add_fract (part item)
      rw [cutOff] at ih ⊢
      simp only [List.map_cons, List.sum_cons, List.countP_cons]
      generalize (items.map (rounded part up)).sum = units at ih ⊢
      rw [rounded]
      by_cases goesUp : up item
      · simp only [goesUp, decide_true, ↓reduceIte]
        push_cast
        linarith
      · simp only [goesUp, decide_false, ↓reduceIte]
        push_cast
        linarith

/-- The rounded parts add up where as many units are gained as are cut off. -/
theorem sum_rounded_eq_iff (items : List ι) :
    ((items.map (rounded part up)).sum : ℚ) = (items.map part).sum ↔
      (items.countP up : ℚ) = cutOff part items := by
  rw [sum_rounded]
  constructor <;> intro balanced <;> linarith

end Rounded

/-- Parts in proportion to their weights add up to the whole. -/
theorem sum_proportional (weight : ι → ℚ) (whole : ℚ) {items : List ι} {total : ℚ}
    (weights : (items.map weight).sum = total) (nonzero : total ≠ 0) :
    (items.map fun item => whole * weight item / total).sum = whole := by
  have factored : (fun item => whole * weight item / total) =
      fun item => weight item * (whole / total) := by
    funext item
    ring
  rw [factored, List.sum_map_mul_right, weights, mul_div_cancel₀ _ nonzero]

section HalfEven

variable (whole total : ℤ)

/-- What the part of a weight has above an integer, in units of `1 / total`. -/
def residue (weight : ℤ) : ℤ := whole * weight % total

/-- The part lies half a unit above an odd integer. -/
abbrev AtOddHalf (weight : ℤ) : Prop :=
  2 * residue whole total weight = total ∧ whole * weight / total % 2 = 1

/-- The nearest integer to the part, and the even one of two, is the one above. -/
abbrev RoundsUp (weight : ℤ) : Prop :=
  total < 2 * residue whole total weight ∨ AtOddHalf whole total weight

/-- When up to three parts, each rounded to the nearest integer on its own, add up to the
whole. Two parts fail only where both lie half-way and the whole is odd. With three parts the
remainders add up to nothing, one unit or two, and as many parts have to go up. -/
def AddUp : List ℤ → Prop
  | [] | [_] => True
  | [first, second] =>
      ¬ (2 * residue whole (first + second) first = first + second ∧ whole % 2 = 1)
  | [first, second, third] =>
      let total := first + second + third
      let left := residue whole total first + residue whole total second +
        residue whole total third
      left = 0 ∨
        left = total ∧
          ((∃ weight ∈ [first, second, third], total < 2 * residue whole total weight) ∨
            [first, second, third].countP (AtOddHalf whole total) = 1) ∨
        left = 2 * total ∧
          (∃ weight ∈ [first, second, third], 2 * residue whole total weight ≤ total) ∧
          ∀ weight ∈ [first, second, third], ¬ AtOddHalf whole total weight
  | _ => False

instance : ∀ weights : List ℤ, Decidable (AddUp whole weights)
  | [] | [_] => .isTrue trivial
  | [_, _] => inferInstanceAs (Decidable (¬ _))
  | [_, _, _] => inferInstanceAs (Decidable (_ ∨ _))
  | _ :: _ :: _ :: _ :: _ => .isFalse id

variable {whole total} {first second third : ℤ}

theorem residue_bounds (positive : 0 < total) (weight : ℤ) :
    0 ≤ residue whole total weight ∧ residue whole total weight < total :=
  ⟨Int.emod_nonneg _ positive.ne', Int.emod_lt_of_pos _ positive⟩

/-- A part is an integer and its remainder. -/
theorem part_eq (positive : 0 < total) (weight : ℤ) :
    (whole * weight / total : ℚ) =
      (whole * weight / total : ℤ) + (residue whole total weight : ℚ) / total := by
  have nonzero : (total : ℚ) ≠ 0 := by exact_mod_cast positive.ne'
  have split := Int.mul_ediv_add_emod (whole * weight) total
  have whole_eq : whole * weight = whole * weight / total * total + residue whole total weight := by
    rw [residue]
    linarith
  rw [div_eq_iff nonzero, add_mul, div_mul_cancel₀ _ nonzero]
  exact_mod_cast whole_eq

theorem floor_part (positive : 0 < total) (weight : ℤ) :
    ⌊(whole * weight / total : ℚ)⌋ = whole * weight / total := by
  have totalPos : (0 : ℚ) < total := by exact_mod_cast positive
  obtain ⟨lower, upper⟩ := @residue_bounds whole total positive weight
  rw [Int.floor_eq_iff, part_eq positive]
  constructor
  · exact le_add_of_nonneg_right (div_nonneg (by exact_mod_cast lower) totalPos.le)
  · rw [add_lt_add_iff_left, div_lt_one totalPos]
    exact_mod_cast upper

theorem fract_part (positive : 0 < total) (weight : ℤ) :
    Int.fract (whole * weight / total : ℚ) = (residue whole total weight : ℚ) / total := by
  rw [Int.fract, floor_part positive]
  linarith [@part_eq whole total positive weight]

/-- Nothing is left over of nothing. -/
theorem addUp_zero {weights : List ℤ} (short : weights.length ≤ 3) : AddUp 0 weights := by
  match weights, short with
  | [], _ | [_], _ => trivial
  | [_, _], _ => simp [AddUp]
  | [_, _, _], _ => simp [AddUp, residue]

theorem residue_eq (whole total weight : ℤ) :
    residue whole total weight = whole * weight - total * (whole * weight / total) := by
  have split := Int.mul_ediv_add_emod (whole * weight) total
  rw [residue]
  omega

/-- What rounding a part gains, with its remainder and the integer below it. -/
def gain (total remainder below : ℤ) : ℤ :=
  if total < 2 * remainder ∨ 2 * remainder = total ∧ below % 2 = 1 then 1 else 0

theorem gain_over {total remainder below : ℤ} (past : total < 2 * remainder) :
    gain total remainder below = 1 := if_pos (Or.inl past)

theorem gain_under {total remainder below : ℤ} (under : 2 * remainder < total) :
    gain total remainder below = 0 := by
  rw [gain, if_neg]
  omega

/-- A part that is not past the half goes up only from the half above an odd integer. -/
theorem gain_level {total remainder below : ℤ} (level : 2 * remainder ≤ total) :
    gain total remainder below = if 2 * remainder = total ∧ below % 2 = 1 then 1 else 0 := by
  rw [gain]
  simp only [not_lt.mpr level, false_or]

theorem countP_roundsUp (whole total : ℤ) (weights : List ℤ) :
    (weights.countP (RoundsUp whole total) : ℤ) = (weights.map fun weight =>
      gain total (residue whole total weight) (whole * weight / total)).sum := by
  induction weights with
  | nil => rfl
  | cons weight weights ih =>
      have one : gain total (residue whole total weight) (whole * weight / total) =
          if RoundsUp whole total weight then 1 else 0 := rfl
      rw [List.countP_cons, List.map_cons, List.sum_cons, ← ih, one]
      by_cases goesUp : RoundsUp whole total weight
      · simp [goesUp, add_comm]
      · simp [goesUp]

/-- A whole number of units between zero and a bound. -/
theorem units_range {total units left : ℤ} {bound : ℤ} (positive : 0 < total)
    (same : left = total * units) (nonneg : 0 ≤ left) (below : left < bound * total) :
    0 ≤ units ∧ units < bound := by
  constructor
  · by_contra negative
    have low : units ≤ -1 := by omega
    nlinarith
  · by_contra large
    have high : bound ≤ units := by omega
    nlinarith

/-- Of two parts that leave one unit the one with the larger remainder goes up; at a tie it
is the one above the odd integer, if there is one. -/
theorem gain_two {total r s f g : ℤ} (rRange : 0 ≤ r ∧ r < total) (sRange : 0 ≤ s ∧ s < total)
    (left : r + s = total * (whole - f - g)) :
    total * (gain total r f + gain total s g) = r + s ↔ ¬ (2 * r = total ∧ whole % 2 = 1) := by
  obtain ⟨lower, upper⟩ := units_range (by omega) left (by omega)
    (show r + s < 2 * total by omega)
  have units : whole - f - g = 0 ∨ whole - f - g = 1 := by omega
  rcases units with units | units <;> rw [units] at left <;> unfold gain <;> split_ifs <;> omega

/-- Of three parts as many have to go up as they leave units. -/
theorem gain_three {total r s t f g h : ℤ} (rRange : 0 ≤ r ∧ r < total)
    (sRange : 0 ≤ s ∧ s < total) (tRange : 0 ≤ t ∧ t < total)
    (left : r + s + t = total * (whole - f - g - h)) :
    total * (gain total r f + gain total s g + gain total t h) = r + s + t ↔
      r + s + t = 0 ∨
        r + s + t = total ∧ ((total < 2 * r ∨ total < 2 * s ∨ total < 2 * t) ∨
          (if 2 * t = total ∧ h % 2 = 1 then 1 else 0) +
            (if 2 * s = total ∧ g % 2 = 1 then 1 else 0) +
              (if 2 * r = total ∧ f % 2 = 1 then 1 else 0) = 1) ∨
        r + s + t = 2 * total ∧ (2 * r ≤ total ∨ 2 * s ≤ total ∨ 2 * t ≤ total) ∧
          ¬ (2 * r = total ∧ f % 2 = 1) ∧ ¬ (2 * s = total ∧ g % 2 = 1) ∧
            ¬ (2 * t = total ∧ h % 2 = 1) := by
  obtain ⟨lower, upper⟩ := units_range (by omega) left (by omega)
    (show r + s + t < 3 * total by omega)
  have positive : 0 < total := by omega
  have units : whole - f - g - h = 0 ∨ whole - f - g - h = 1 ∨ whole - f - g - h = 2 := by omega
  rcases units with units | units | units <;> rw [units] at left
  · rw [gain_under (by omega), gain_under (by omega), gain_under (by omega)]
    omega
  · -- At most one part lies past the half, and then the other two lie below it.
    rw [left, mul_right_inj' positive.ne']
    by_cases rOver : total < 2 * r
    · rw [gain_over rOver, gain_under (by omega), gain_under (by omega)]
      omega
    by_cases sOver : total < 2 * s
    · rw [gain_over sOver, gain_under (by omega), gain_under (by omega)]
      omega
    by_cases tOver : total < 2 * t
    · rw [gain_over tOver, gain_under (by omega), gain_under (by omega)]
      omega
    rw [gain_level (by omega), gain_level (by omega), gain_level (by omega)]
    split_ifs <;> omega
  · -- At most one part does not lie past the half, and then the other two do.
    rw [left, mul_right_inj' positive.ne']
    by_cases rLevel : 2 * r ≤ total
    · rw [gain_level rLevel, gain_over (by omega), gain_over (by omega)]
      split_ifs <;> omega
    by_cases sLevel : 2 * s ≤ total
    · rw [gain_over (by omega), gain_level sLevel, gain_over (by omega)]
      split_ifs <;> omega
    by_cases tLevel : 2 * t ≤ total
    · rw [gain_over (by omega), gain_over (by omega), gain_level tLevel]
      split_ifs <;> omega
    rw [gain_over (by omega), gain_over (by omega), gain_over (by omega)]
    omega

/-- As many parts go up as whole units are left over, exactly where they add up. -/
theorem addUp_iff {weights : List ℤ} (short : weights.length ≤ 3) (positive : 0 < weights.sum) :
    weights.sum * weights.countP (RoundsUp whole weights.sum) =
        (weights.map (residue whole weights.sum)).sum ↔ AddUp whole weights := by
  have range := @residue_bounds whole _ positive
  have split := residue_eq whole weights.sum
  rw [countP_roundsUp]
  match weights, short with
  | [], _ => simp [AddUp]
  | [only], _ =>
      have positive : 0 < only := by simpa using positive
      have notZero : ¬ 0 = only := positive.ne
      simp [AddUp, residue, gain, positive.le, notZero]
  | [first, second], _ =>
      have total : [first, second].sum = first + second := by simp
      rw [total] at range split ⊢
      simp only [List.map_cons, List.map_nil, List.sum_cons, List.sum_nil, add_zero]
      refine gain_two (range first) (range second) ?_
      rw [split, split]
      ring
  | [first, second, third], _ =>
      have total : [first, second, third].sum = first + second + third := by simp [add_assoc]
      rw [total] at range split ⊢
      simp only [List.map_cons, List.map_nil, List.sum_cons, List.sum_nil, add_zero, ← add_assoc]
      rw [gain_three (range first) (range second) (range third) (by
        rw [split, split, split]
        ring)]
      simp only [AddUp, List.countP_cons, List.countP_nil, List.forall_mem_cons,
        List.exists_mem_cons_iff, List.not_mem_nil, decide_eq_true_eq]
      norm_cast
      simp

end HalfEven

end FundPolymarket.Apportionment
