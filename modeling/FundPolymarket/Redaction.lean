import Mathlib.Algebra.BigOperators.Group.List.Basic

set_option autoImplicit false

/- Two lists that agree outside their hidden elements, and what a reader can compute from
such a list without seeing the difference. -/
namespace Redaction

variable {α A : Type}

def AgreeOutside (hidden : α → Bool) (first second : List α) : Prop :=
  (first.filter fun x => !hidden x) = second.filter fun x => !hidden x

variable {hidden : α → Bool} {first second : List α}

/-- A selection that has no hidden element in it is the same. -/
theorem AgreeOutside.filter_eq (agree : AgreeOutside hidden first second) {keep : α → Bool}
    (visible : ∀ x, keep x = true → hidden x = false) :
    first.filter keep = second.filter keep := by
  have among : ∀ xs : List α, (xs.filter fun x => !hidden x).filter keep = xs.filter keep := by
    intro xs
    rw [List.filter_filter]
    apply List.filter_congr
    intro x _
    by_cases kept : keep x = true
    · simp [kept, visible x kept]
    · simp [kept]
  rw [← among first, ← among second, agree]

theorem AgreeOutside.map {β : Type} {f : β → α} {xs ys : List β}
    (agree : AgreeOutside (fun x => hidden (f x)) xs ys) :
    AgreeOutside hidden (xs.map f) (ys.map f) := by
  rw [AgreeOutside, List.filter_map, List.filter_map]
  exact congrArg (List.map f) agree

section Sums

variable [AddCommGroup A] (keep : α → Bool) (weight : α → A)

def sumOf (xs : List α) : A := ((xs.filter keep).map weight).sum

variable (hidden) in
theorem sumOf_split (xs : List α) :
    sumOf keep weight xs = sumOf (fun x => keep x && !hidden x) weight xs +
      sumOf (fun x => keep x && hidden x) weight xs := by
  have parts := (List.filter_append_perm (fun x => !hidden x) (xs.filter keep)).map weight
  rw [sumOf, ← parts.sum_eq, List.map_append, List.sum_append, List.filter_filter,
    List.filter_filter]
  simp only [sumOf, Bool.not_not, Bool.and_comm]

/-- What a sum shows of the hidden elements is their own sum. -/
theorem AgreeOutside.sumOf_eq_iff (agree : AgreeOutside hidden first second) :
    sumOf keep weight first = sumOf keep weight second ↔
      sumOf (fun x => keep x && hidden x) weight first =
        sumOf (fun x => keep x && hidden x) weight second := by
  have visible : sumOf (fun x => keep x && !hidden x) weight first =
      sumOf (fun x => keep x && !hidden x) weight second := by
    rw [sumOf, sumOf, agree.filter_eq]
    intro x kept
    simpa using (Bool.and_eq_true_iff.mp kept).2
  rw [sumOf_split hidden, sumOf_split hidden keep weight second, visible]
  exact add_left_cancel_iff

end Sums

end Redaction
