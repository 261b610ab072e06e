import SpectralCoding.Search.Bisection

/-!
# Searches come to an end

A cost that does not stand moves one end of the interval past its midpoint, so only so many of them
can follow each other before the interval has collapsed. How many is a matter of the arithmetic of
shifts, and is found by following both halves to the end.

* `Bisection.closesWithin` : an interval has collapsed after so many costs, however they come out.
* `Bisection.closesWithin_of_reopened` : a cost that does not stand uses up one of them.
* `Bisection.closesWithin_float32` : the encoders' interval takes ten.
-/

namespace SpectralCoding

namespace Bisection

variable {κ : Type} [Dial κ]

/-- Whichever way they come out, after `tries` costs that do not stand the interval has
collapsed. -/
def closesWithin : (tries : Nat) → (lo hi : κ) → Bool
  | 0, lo, hi => Dial.le hi lo
  | tries + 1, lo, hi =>
    Dial.le hi lo ||
      (closesWithin tries lo (Dial.down (Dial.mid hi lo))
        && closesWithin tries (Dial.up (Dial.mid hi lo)) hi)

/-- Only on an open interval is there a cost that does not stand, and it uses up one of the tries
that close the interval. -/
theorem closesWithin_of_reopened {b : Bisection κ} {tries cost : Nat}
    (hcloses : closesWithin tries b.lo b.hi = true)
    (hreopened : (b.probe.2.submit cost).1 = false) :
    b.isCollapsed = false ∧ ∃ fewer, tries = fewer + 1 ∧
      closesWithin fewer (b.probe.2.submit cost).2.lo (b.probe.2.submit cost).2.hi = true := by
  cases hopen : b.isCollapsed with
  | true =>
    rw [probe_of_isCollapsed hopen, submit_of_isCollapsed hopen] at hreopened
    cases hreopened
  | false =>
    refine ⟨rfl, ?_⟩
    have hends : Dial.le b.hi b.lo = false := hopen
    cases tries with
    | zero =>
      rw [closesWithin, hends] at hcloses
      cases hcloses
    | succ fewer =>
      rw [closesWithin, hends, Bool.false_or, Bool.and_eq_true] at hcloses
      have hprobe : b.probe.2 = { b with current := Dial.mid b.hi b.lo } := by
        simp [probe, hopen]
      have hstill : ({ b with current := Dial.mid b.hi b.lo } : Bisection κ).isCollapsed = false :=
        hopen
      rw [hprobe] at hreopened ⊢
      refine ⟨fewer, rfl, ?_⟩
      unfold submit at hreopened ⊢
      rw [hstill] at hreopened ⊢
      by_cases hbelow : cost < b.target
      · simpa [hbelow] using hcloses.1
      · by_cases habove : b.target < cost
        · simpa [hbelow, habove] using hcloses.2
        · simp [hbelow, habove] at hreopened

theorem closesWithin_float32 : closesWithin 10 (leastShift : Float32) greatestShift = true := by
  decide +kernel

end Bisection

end SpectralCoding
