import Mathlib.Algebra.Order.Field.Rat
import Mathlib.Tactic.Linarith
import Mathlib.Tactic.Positivity
import Mathlib.Tactic.Ring
import SpectralCoding.Proofs.Search.Closing

/-!
# Shifts in exact arithmetic

Read over the rational numbers, a search has the arithmetic that is meant: a midpoint lies in the
middle, and a hundredth is a hundredth. Only where word lengths are computed from a shift does it
become a number of single precision, in whatever way.

* `ShiftRounding`, `instDialRat` : exact shifts, over any way of handing them on.
* `Bisection.isCollapsed_iff`, `Bisection.probe_of_lt`, `Bisection.submit_of_below`,
  `Bisection.submit_of_above`, `Bisection.submit_of_eq` : the moves of a search in exact arithmetic.
* `Bisection.closesWithin_of_width_le` : an interval that `n` costs are sure to close.
* `Bisection.closesWithin_rat` : the encoders' interval takes ten, as in single precision.
-/

namespace SpectralCoding

/-- How an exact shift is handed on to the word lengths, which are computed in single precision. -/
class ShiftRounding where
  round : ℚ → Float32

/-- The step by which a search passes the shift it has tried. -/
def shiftStep : ℚ := 1 / 100

theorem shiftStep_pos : 0 < shiftStep := by
  unfold shiftStep
  positivity

instance instDialRat [ShiftRounding] : Dial ℚ where
  ofInt n := n
  mid hi lo := (hi + lo) / 2
  up x := x + shiftStep
  down x := x - shiftStep
  lt x y := x < y
  le x y := x ≤ y
  isNarrow hi lo := hi - lo < 1 / 10
  toFloat32 := ShiftRounding.round

namespace Bisection

variable [ShiftRounding] {b : Bisection ℚ}

/-! ### The moves of a search -/

theorem isCollapsed_iff : b.isCollapsed = true ↔ b.hi ≤ b.lo := decide_eq_true_iff

theorem isCollapsed_eq_false_iff : b.isCollapsed = false ↔ b.lo < b.hi := by
  rw [← not_le, ← isCollapsed_iff, Bool.not_eq_true]

theorem probe_of_lt (h : b.lo < b.hi) :
    b.probe = ((b.hi + b.lo) / 2, { b with current := (b.hi + b.lo) / 2 }) := by
  have hopen := isCollapsed_eq_false_iff.2 h
  simp [probe, hopen, Dial.mid]

theorem submit_of_below {cost : Nat} (h : b.lo < b.hi) (hcost : cost < b.target) :
    b.submit cost = (false, { b with fallback := b.current, hi := b.current - shiftStep }) := by
  have hopen := isCollapsed_eq_false_iff.2 h
  simp [submit, hopen, hcost, Dial.down]

theorem submit_of_above {cost : Nat} (h : b.lo < b.hi) (hcost : b.target < cost) :
    b.submit cost = (false, { b with lo := b.current + shiftStep }) := by
  have hopen := isCollapsed_eq_false_iff.2 h
  simp [submit, hopen, hcost, Nat.lt_asymm hcost, Dial.up]

theorem submit_of_eq (h : b.lo < b.hi) :
    b.submit b.target = (true, { b with fallback := b.current }) := by
  have hopen := isCollapsed_eq_false_iff.2 h
  simp [submit, hopen]

/-- On an open interval a cost stands only on the target. -/
theorem eq_target_of_stands {cost : Nat} (h : b.lo < b.hi) (hstands : (b.submit cost).1 = true) :
    cost = b.target := by
  rcases lt_trichotomy cost b.target with hbelow | heq | habove
  · rw [submit_of_below h hbelow] at hstands
    cases hstands
  · exact heq
  · rw [submit_of_above h habove] at hstands
    cases hstands

/-! ### Intervals close -/

/-- Every cost that does not stand more than halves the interval. -/
theorem closesWithin_of_width_le {tries : Nat} {lo hi : ℚ}
    (h : hi - lo ≤ 2 * shiftStep * (2 ^ tries - 1)) : closesWithin tries lo hi = true := by
  induction tries generalizing lo hi with
  | zero =>
    have hle : hi ≤ lo := by simpa using h
    exact decide_eq_true hle
  | succ tries ih =>
    have hhalf : (hi - lo) / 2 - shiftStep ≤ 2 * shiftStep * (2 ^ tries - 1) := by
      rw [pow_succ] at h
      linarith
    have hlower : closesWithin tries lo (Dial.down (Dial.mid hi lo)) = true := by
      apply ih
      simp only [Dial.down, Dial.mid]
      linarith
    have hupper : closesWithin tries (Dial.up (Dial.mid hi lo)) hi = true := by
      apply ih
      simp only [Dial.up, Dial.mid]
      linarith
    rw [closesWithin, hlower, hupper, Bool.and_self, Bool.or_true]

/-- The costs that do not stand in a search of the encoders are at most ten. -/
theorem closesWithin_rat : closesWithin 10 (leastShift : ℚ) greatestShift = true := by
  apply closesWithin_of_width_le
  simp only [leastShift, greatestShift, Dial.ofInt, shiftStep]
  norm_num

end Bisection

end SpectralCoding
