import Mathlib.Algebra.BigOperators.Group.List.Basic
import Mathlib.Tactic.Abel

set_option autoImplicit false

/- Books of an escrow: free points, lots that are locked for a purpose, and what the
escrow has kept and granted. Amounts are from any commutative group. -/
namespace Escrow

variable {κ μ A : Type} [DecidableEq κ] [DecidableEq μ] [AddCommGroup A]

/-- An amount that its owner has locked under a key. -/
structure Lot (κ μ A : Type) where
  key : κ
  owner : μ
  amount : A

def total (lots : List (Lot κ μ A)) : A := (lots.map Lot.amount).sum

omit [DecidableEq κ] [DecidableEq μ] in
@[simp] theorem total_append (first second : List (Lot κ μ A)) :
    total (first ++ second) = total first + total second := by
  simp [total]

omit [DecidableEq κ] [DecidableEq μ] in
theorem total_filter_add (lots : List (Lot κ μ A)) (keep : Lot κ μ A → Bool) :
    total (lots.filter keep) + total (lots.filter fun lot => !keep lot) = total lots := by
  have split := List.sum_map_filter_add_sum_map_filter_not (keep · = true) Lot.amount lots
  simpa [total] using split

@[ext] structure Book (κ μ A : Type) where
  free : A
  lots : List (Lot κ μ A)
  kept : A
  granted : A

/-- What can happen to the points. -/
inductive Op (κ μ A : Type) where
  | grant (amount : A)
  | relock (key : κ) (owner : μ) (news : List (Lot κ μ A))
  | giveBack (key : κ) (withheld : A)

namespace Book

/-- The lots of one owner under a key. -/
def ofOwner (book : Book κ μ A) (key : κ) (owner : μ) : List (Lot κ μ A) :=
  book.lots.filter fun lot => lot.key = key ∧ lot.owner = owner

def ofKey (book : Book κ μ A) (key : κ) : List (Lot κ μ A) :=
  book.lots.filter fun lot => lot.key = key

/-- A relock replaces the owner's lots under the key; a give-back pays all lots of the
key out, but for what is withheld. -/
def apply (book : Book κ μ A) : Op κ μ A → Book κ μ A
  | .grant amount =>
      { book with free := book.free + amount, granted := book.granted + amount }
  | .relock key owner news =>
      { book with
        free := book.free + (total (book.ofOwner key owner) - total news)
        lots := (book.lots.filter fun lot => !decide (lot.key = key ∧ lot.owner = owner)) ++ news }
  | .giveBack key withheld =>
      { book with
        free := book.free + (total (book.ofKey key) - withheld)
        lots := book.lots.filter fun lot => !decide (lot.key = key)
        kept := book.kept + withheld }

/-- Every point that was granted is free, locked or kept. -/
def Balanced (book : Book κ μ A) : Prop := book.free + total book.lots + book.kept = book.granted

theorem Balanced.apply {book : Book κ μ A} (balanced : book.Balanced) (op : Op κ μ A) :
    (book.apply op).Balanced := by
  unfold Balanced at balanced ⊢
  cases op with
  | grant amount =>
      simp only [Book.apply, ← balanced]
      abel
  | relock key owner news =>
      have split := total_filter_add book.lots fun lot => lot.key = key ∧ lot.owner = owner
      simp only [Book.apply, ofOwner, total_append]
      rw [← balanced, ← split]
      abel
  | giveBack key withheld =>
      have split := total_filter_add book.lots fun lot => lot.key = key
      simp only [Book.apply, ofKey]
      rw [← balanced, ← split]
      abel

/-- One step of the books: nothing happens, or one operation. -/
inductive Follows (book : Book κ μ A) : Book κ μ A → Prop where
  | same : Follows book book
  | applied (op : Op κ μ A) : Follows book (book.apply op)

theorem Balanced.follows {book next : Book κ μ A} (balanced : book.Balanced)
    (follows : book.Follows next) : next.Balanced := by
  cases follows with
  | same => exact balanced
  | applied op => exact balanced.apply op

end Book

end Escrow
