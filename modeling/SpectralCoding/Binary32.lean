import SpectralCoding.Bits.Basic

/-!
# Single-precision numbers and integers

The exact steps between binary32 numbers and integers, taken on the bit pattern.

* `Binary32.significand`, `Binary32.exponent` : a finite number is `± significand * 2 ^ (exponent -
  150)`.
* `Binary32.nearest` : the nearest integer of the magnitude, a half goes up.
* `Binary32.floorMagnitude` : the integer part of the magnitude.
* `Binary32.roundInt`, `Binary32.truncInt` : signed, held within bounds; what is not a number gives
  zero.
* `Binary32.orderKey` : numbers by their place in the total order of bit patterns.

An infinite number has the pattern of a magnitude beyond every bound in use, so it needs no case of
its own.
-/

namespace SpectralCoding

namespace Binary32

/-- The bit pattern as a number. -/
def pattern (x : Float32) : Nat := x.toBits.toNat

/-- The sign bit is set. -/
def isNegative (x : Float32) : Bool := 2 ^ 31 ≤ pattern x

/-- The exponent of the last place, biased by 150; numbers without a leading one count as exponent
one. -/
def exponent (x : Float32) : Nat := max 1 (pattern x / 2 ^ 23 % 2 ^ 8)

/-- The digits of the magnitude as an integer, with the leading one if there is one. -/
def significand (x : Float32) : Nat :=
  if pattern x / 2 ^ 23 % 2 ^ 8 = 0 then pattern x % 2 ^ 23 else 2 ^ 23 + pattern x % 2 ^ 23

/-- The integer part of the magnitude. -/
def floorMagnitude (x : Float32) : Nat :=
  if 150 ≤ exponent x then significand x <<< (exponent x - 150)
  else significand x >>> (150 - exponent x)

/-- The integer nearest to the magnitude, a half goes up. -/
def nearest (x : Float32) : Nat :=
  if 150 ≤ exponent x then significand x <<< (exponent x - 150)
  -- twice the magnitude cut to an integer, and half of that rounded up
  else (significand x >>> (149 - exponent x) + 1) >>> 1

/-- `v` moved to the closer end of `[least, most]` if it is outside. -/
def clampInt (least most v : Int) : Int := max least (min most v)

/-- The magnitude `m` with the sign of `x`. -/
def signed (x : Float32) (m : Nat) : Int := if isNegative x then -(m : Int) else m

/-- The integer nearest to `x`, halves away from zero, held within `[least, most]`. -/
def roundInt (least most : Int) (x : Float32) : Int :=
  if x.isNaN then 0 else clampInt least most (signed x (nearest x))

/-- `x` cut to an integer toward zero and held within `[least, most]`. -/
def truncInt (least most : Int) (x : Float32) : Int :=
  if x.isNaN then 0 else clampInt least most (signed x (floorMagnitude x))

/-- The least 32-bit integer. -/
def leastInt32 : Int := -(2 ^ 31)

/-- The greatest 32-bit integer. -/
def mostInt32 : Int := 2 ^ 31 - 1

/-- The integer nearest to `x`, halves away from zero, as a 32-bit integer. -/
def round32 (x : Float32) : Int := roundInt leastInt32 mostInt32 x

/-- `x` cut to a 32-bit integer. -/
def trunc32 (x : Float32) : Int := truncInt leastInt32 mostInt32 x

/-- The place of `x` in the total order of bit patterns: below zero by falling magnitude, then zero
and above by rising magnitude, what is not a number at the ends. -/
def orderKey (x : Float32) : Int :=
  if isNegative x then -((pattern x - 2 ^ 31 : Nat) : Int) - 1 else pattern x

/-- The sum of `xs` from left to right. The sum of nothing is the zero that changes no summand,
which is the negative one. -/
def sum (xs : List Float32) : Float32 := xs.foldl (· + ·) (-0.0)

theorem clampInt_mem {least most : Int} (h : least ≤ most) (v : Int) :
    least ≤ clampInt least most v ∧ clampInt least most v ≤ most := by
  unfold clampInt
  omega

theorem round32_mem (x : Float32) : leastInt32 ≤ round32 x ∧ round32 x ≤ mostInt32 := by
  unfold round32 roundInt
  split
  · decide
  · exact clampInt_mem (by decide) _

end Binary32

end SpectralCoding
