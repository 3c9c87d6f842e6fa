import Mathlib.Algebra.Order.Group.Defs
import Mathlib.Data.List.Basic

set_option autoImplicit false

/- Admission by counting backwards: an event passes while fewer than a given number of
earlier ones are recent. The times need not be sorted. -/
namespace SlidingWindow

variable {T : Type} [AddCommGroup T] [LinearOrder T]

/-- The events that count against one at `now`; there is no upper end. -/
def recent (width now : T) (times : List T) : List T :=
  times.filter fun time => now - width ≤ time

/-- The events of a window, its two ends included. -/
def within (width first : T) (times : List T) : List T :=
  times.filter fun time => first ≤ time ∧ time ≤ first + width

/-- Every event found fewer than `cap` recent ones among those before it. -/
inductive Admitted (width : T) (cap : ℕ) : List T → Prop where
  | nil : Admitted width cap []
  | accept {times : List T} {now : T} (earlier : Admitted width cap times)
      (room : (recent width now times).length < cap) : Admitted width cap (times ++ [now])

variable [IsOrderedAddMonoid T] {width first now : T} {times : List T} {cap : ℕ}

end SlidingWindow
