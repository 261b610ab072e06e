/-!
# The quantity a search turns

Word lengths fall as a single number, the shift, rises. Both searches for it need little of its
arithmetic.

* `Dial` : that little, over any type of shifts.
* the instance for `Float32`, in which the encoders compute.

The searches are written over `Dial`, so that the same definitions can also be read over exact
numbers.
-/

namespace SpectralCoding

/-- What a search needs to know about shifts. -/
class Dial (κ : Type) where
  /-- A whole number as a shift. -/
  ofInt : Int → κ
  /-- The midpoint of an interval, given its upper and its lower end. -/
  mid : κ → κ → κ
  /-- One hundredth more. -/
  up : κ → κ
  /-- One hundredth less. -/
  down : κ → κ
  /-- Strictly below. -/
  lt : κ → κ → Bool
  /-- Not above. -/
  le : κ → κ → Bool
  /-- The interval with these upper and lower ends is less than a tenth wide. -/
  isNarrow : κ → κ → Bool
  /-- The shift in single precision, as the word lengths are computed from it. -/
  toFloat32 : κ → Float32

instance : Dial Float32 where
  ofInt := Float32.ofInt
  mid hi lo := (hi + lo) / 2
  up x := x + 0.01
  down x := x - 0.01
  lt x y := x < y
  le x y := x ≤ y
  isNarrow hi lo := hi - lo < 0.1
  toFloat32 := id

/-- The least shift that is tried. -/
def leastShift {κ : Type} [Dial κ] : κ := Dial.ofInt (-3)

/-- The greatest shift that is tried. -/
def greatestShift {κ : Type} [Dial κ] : κ := Dial.ofInt 15

end SpectralCoding
