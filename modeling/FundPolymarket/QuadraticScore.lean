import Mathlib.Algebra.BigOperators.Field
import Mathlib.Algebra.Order.BigOperators.Ring.Finset
import Mathlib.Tactic.Linarith
import Mathlib.Tactic.Ring

set_option autoImplicit false

/- Quadratic scores of a forecast over finitely many outcomes, lower being better. Against a
belief, a forecast costs its squared distance from it, on top of what the belief itself costs. -/
namespace QuadraticScore

variable {ι K : Type} [Fintype ι] [Field K]

/-- Weights of the outcomes that add up to one. -/
structure Belief (ι K : Type) [Fintype ι] [Field K] [LinearOrder K] where
  weight : ι → K
  nonneg : ∀ i, 0 ≤ weight i
  total : ∑ i, weight i = 1

/-- The cost of a forecast where the outcome `i` comes about. -/
def cost [DecidableEq ι] (forecast : ι → K) (i : ι) : K :=
  ∑ j, (forecast j - if j = i then 1 else 0) ^ 2

def distance (p q : ι → K) : K := ∑ j, (p j - q j) ^ 2

theorem distance_self (p : ι → K) : distance p p = 0 := by simp [distance]

/-- Only the term of the outcome depends on it. -/
theorem cost_eq [DecidableEq ι] (forecast : ι → K) (i : ι) :
    cost forecast i = (∑ j, forecast j ^ 2) - 2 * forecast i + 1 := by
  have term : ∀ j, (forecast j - if j = i then 1 else 0) ^ 2 =
      forecast j ^ 2 + if j = i then 1 - 2 * forecast j else 0 := by
    intro j
    split <;> ring
  rw [cost, Finset.sum_congr rfl fun j _ => term j, Finset.sum_add_distrib,
    Finset.sum_ite_eq' Finset.univ i, if_pos (Finset.mem_univ i)]
  ring

theorem distance_nonneg [LinearOrder K] [IsStrictOrderedRing K] (p q : ι → K) : 0 ≤ distance p q :=
  Finset.sum_nonneg fun j _ => sq_nonneg (p j - q j)

namespace Belief

variable [LinearOrder K] (belief : Belief ι K)

def expected (value : ι → K) : K := ∑ i, belief.weight i * value i

theorem expected_const (c : K) : belief.expected (fun _ => c) = c := by
  rw [expected, ← Finset.sum_mul, belief.total, one_mul]

theorem expected_sub (f g : ι → K) :
    belief.expected (fun i => f i - g i) = belief.expected f - belief.expected g := by
  simp only [expected, mul_sub, Finset.sum_sub_distrib]

theorem expected_cost [DecidableEq ι] (forecast : ι → K) :
    belief.expected (cost forecast) =
      (∑ j, forecast j ^ 2) - 2 * (∑ i, belief.weight i * forecast i) + 1 := by
  have term : ∀ i, belief.weight i * cost forecast i =
      belief.weight i * ((∑ j, forecast j ^ 2) + 1) - 2 * (belief.weight i * forecast i) := by
    intro i
    rw [cost_eq]
    ring
  rw [expected, Finset.sum_congr rfl fun i _ => term i, Finset.sum_sub_distrib, ← Finset.sum_mul,
    belief.total, ← Finset.mul_sum]
  ring

/-- What a forecast costs more than the belief. -/
theorem expected_cost_eq [DecidableEq ι] (forecast : ι → K) :
    belief.expected (cost forecast) =
      belief.expected (cost belief.weight) + distance forecast belief.weight := by
  have squares : distance forecast belief.weight =
      (∑ j, forecast j ^ 2) - 2 * (∑ i, belief.weight i * forecast i) +
        ∑ j, belief.weight j ^ 2 := by
    rw [distance, Finset.mul_sum, ← Finset.sum_sub_distrib, ← Finset.sum_add_distrib]
    refine Finset.sum_congr rfl fun j _ => ?_
    ring
  have own : ∑ i, belief.weight i * belief.weight i = ∑ j, belief.weight j ^ 2 :=
    Finset.sum_congr rfl fun j _ => (sq (belief.weight j)).symm
  rw [expected_cost, expected_cost, squares, own]
  ring

/-- The belief about a part of the outcome. -/
def map {κ : Type} [Fintype κ] [DecidableEq κ] [IsStrictOrderedRing K] (f : ι → κ) :
    Belief κ K where
  weight j := ∑ i with f i = j, belief.weight i
  nonneg _ := Finset.sum_nonneg fun i _ => belief.nonneg i
  total := (Finset.sum_fiberwise Finset.univ f belief.weight).trans belief.total

theorem expected_sum {κ : Type} (parts : Finset κ) (value : κ → ι → K) :
    belief.expected (fun i => ∑ k ∈ parts, value k i) = ∑ k ∈ parts, belief.expected (value k) := by
  simp only [expected, Finset.mul_sum]
  exact Finset.sum_comm

theorem expected_div (value : ι → K) (c : K) :
    belief.expected (fun i => value i / c) = belief.expected value / c := by
  simp only [expected, Finset.sum_div, mul_div_assoc]

variable [IsStrictOrderedRing K]

theorem expected_map {κ : Type} [Fintype κ] [DecidableEq κ] (f : ι → κ) (value : κ → K) :
    (belief.map f).expected value = belief.expected fun i => value (f i) := by
  rw [expected, expected, ← Finset.sum_fiberwise Finset.univ f]
  refine Finset.sum_congr rfl fun j _ => ?_
  rw [map, Finset.sum_mul]
  refine Finset.sum_congr rfl fun i member => ?_
  rw [(Finset.mem_filter.mp member).2]

theorem expected_mono {f g : ι → K} (le : ∀ i, f i ≤ g i) :
    belief.expected f ≤ belief.expected g :=
  Finset.sum_le_sum fun i _ => mul_le_mul_of_nonneg_left (le i) (belief.nonneg i)

/-- Values that are close have close expectations. -/
theorem abs_expected_sub_le {f g : ι → K} {error : K} (close : ∀ i, |f i - g i| ≤ error) :
    |belief.expected f - belief.expected g| ≤ error := by
  rw [← belief.expected_sub, abs_le]
  constructor
  · rw [← belief.expected_const (-error)]
    exact belief.expected_mono fun i => (abs_le.mp (close i)).1
  · rw [← belief.expected_const error]
    exact belief.expected_mono fun i => (abs_le.mp (close i)).2

end Belief

end QuadraticScore
