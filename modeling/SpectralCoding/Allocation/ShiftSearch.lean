import SpectralCoding.Allocation
import SpectralCoding.Overflow

/-!
# Searching a shift by evaluation

* `ShiftSearch.search` : bisection on the range of shifts for an allocation between `target - slack`
  and `target`. The evaluation may have effects of its own, so the search is a monadic one.
* `ShiftSearch.searchInWords` : the same with sums that may have no room in a word.

A probe over the target raises the lower end past it. A probe within the window, or one on an
interval that is nearly closed, is the answer. Any other probe is kept and lowers the upper end.
When the ends cross, the last allocation kept is the answer, or silence if there is none.
-/

namespace SpectralCoding

namespace ShiftSearch

section Search

variable {κ : Type} [Dial κ] {m : Type → Type} [Monad m]

/-- Bisection on `[lo, hi]` with `best` the last allocation kept and at most `fuel` probes. Whether
a cost within the target is close to it is for `isClose` to say. -/
def go (target blocks : Nat) (isClose : Nat → m Bool) (eval : κ → m Allocation) :
    (fuel : Nat) → (lo hi : κ) → (best : Option Allocation) → m Allocation
  | 0, _, _, best => pure (best.getD (.silence blocks))
  | fuel + 1, lo, hi, best => do
    let shift := Dial.mid hi lo
    let alloc ← eval shift
    if target < alloc.bits then
      -- over the target: `best` stays as it is
      let lo := Dial.up shift
      if Dial.lt hi lo then pure (best.getD (.silence blocks))
      else go target blocks isClose eval fuel lo hi best
    else do
      let close ← isClose alloc.bits
      if close || Dial.isNarrow hi lo then pure alloc
      else
        -- affordable, with more to spend: keep it and look for a smaller shift
        let hi := Dial.down shift
        if Dial.lt hi lo then pure alloc
        else go target blocks isClose eval fuel lo hi (some alloc)

/-- More probes than a search on the whole range of shifts takes. -/
def fuel : Nat := 64

/-- A cost is at most `slack` below the target, or above it. -/
def isClose (target slack bits : Nat) : Bool := target ≤ bits + slack

/-- The allocation found on the whole range of shifts for `blocks` blocks. -/
def search (target slack blocks : Nat) (eval : κ → m Allocation) : m Allocation :=
  go target blocks (fun bits => pure (isClose target slack bits)) eval fuel leastShift greatestShift
    none

/-- A cost and `slack`, added up in a word of which `most` is the greatest value, reach the
target. -/
def isCloseInWords (o : Overflow) (most target slack bits : Nat) : Except Error Bool :=
  (o.word (bits + slack ≤ most) ((bits + slack) % (most + 1))).map fun sum => target ≤ sum

/-- The allocation found on the whole range of shifts for `blocks` blocks, in words of which `most`
is the greatest value. -/
def searchInWords (o : Overflow) (most target slack blocks : Nat) (eval : κ → m Allocation) :
    ExceptT Error m Allocation :=
  go target blocks (fun bits => ExceptT.mk (pure (isCloseInWords o most target slack bits)))
    (fun shift => ExceptT.lift (eval shift)) fuel leastShift greatestShift none

end Search

end ShiftSearch

end SpectralCoding
