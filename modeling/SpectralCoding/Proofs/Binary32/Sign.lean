import Mathlib
import SpectralCoding.Binary32

/-!
# Signs of single-precision numbers

Whether a number is below zero can be told by its sign bit where the bit is clear: such a number is
zero, above zero, infinite or not a number. No comparison puts it below zero, no number above it has
the bit set, and a product of two such numbers is one again.

* `Binary32.signOf` : the sign of a number taken apart; what is not a number counts as positive.
* `Binary32.signOf_unpack` : it is the sign bit.
* `Binary32.isNegative_mul`, `Binary32.isNegative_of_lt` : where the sign bit stays clear.
* `Binary32.not_lt_zero` : a number with a clear sign bit is not below zero.
-/

namespace SpectralCoding

namespace Binary32

open Float.Model (Format UnpackedFloat)

open Float.Model.UnpackedFloat

/-! ### Numbers taken apart -/

/-- The sign of a number; what is not a number counts as positive. -/
def signOf : UnpackedFloat → Sign
  | .notANumber => .positive
  | .infinity s => s
  | .zero s => s
  | .finite s _ _ _ => s

theorem unpackSign_pack {spec : Format} (u : UnpackedFloat) :
    unpackSign (pack spec u) = (signOf u).toBitVec := by
  unfold pack
  split
  · exact unpackSign_packComponents ..
  · exact unpackSign_packComponents ..
  · exact unpackSign_packComponents ..
  · dsimp only
    split
    · exact unpackSign_packComponents ..
    · split
      · exact unpackSign_packComponents ..
      · exact unpackSign_packComponents ..

theorem signOf_unpack {spec : Format} (b : BitVec spec.numBits) :
    unpack spec b = .notANumber ∨ signOf (unpack spec b) = Sign.ofBitVec (unpackSign b) := by
  unfold unpack
  dsimp only
  split
  · split
    · exact .inr rfl
    · exact .inl rfl
  · split
    · split
      · exact .inr rfl
      · exact .inr rfl
    · exact .inr rfl

theorem signOf_roundWithAccuracy (spec : Format) (s : Sign) (m : Nat) (e : Int) (a : Accuracy) :
    signOf (roundWithAccuracy spec s m e a) = s := by
  unfold roundWithAccuracy
  dsimp only
  split
  · rfl
  · rfl

theorem signOf_mul (spec : Format) {u v : UnpackedFloat} (hu : signOf u = .positive)
    (hv : signOf v = .positive) : signOf (UnpackedFloat.mul spec u v) = .positive := by
  cases u <;> cases v <;> cases hu <;> cases hv <;>
    first | rfl | exact signOf_roundWithAccuracy ..

theorem lt_eq_false_of_signOf {u v : UnpackedFloat} (hu : signOf u = .positive)
    (hv : signOf v = .negative) : UnpackedFloat.lt u v = false := by
  cases u <;> cases v <;> cases hu <;> cases hv <;> rfl

theorem lt_notANumber (u : UnpackedFloat) : UnpackedFloat.lt u .notANumber = false := by
  cases u <;> rfl

theorem lt_zero_of_signOf {u : UnpackedFloat} (hu : signOf u = .positive) (s : Sign) :
    UnpackedFloat.lt u (.zero s) = false := by
  cases u <;> cases hu <;> rfl

/-! ### Single precision -/

/-- The bits of a number. -/
def bits (x : Float32) : BitVec Format.binary32.numBits := x.toModel.toBits.toBitVec

theorem ofBitVec_eq_positive_iff {b : BitVec 1} : Sign.ofBitVec b = .positive ↔ b = 0#1 := by
  unfold Sign.ofBitVec
  split <;> simp_all

theorem isNegative_eq_false_iff {x : Float32} :
    isNegative x = false ↔ Sign.ofBitVec (unpackSign (bits x)) = .positive := by
  have hpattern : pattern x = (bits x).toNat := rfl
  have hsign : (unpackSign (bits x)).toNat = (bits x).toNat / 2 ^ 31 := by
    have hlt : (bits x).toNat < 2 ^ 32 := (bits x).isLt
    simp [unpackSign, Nat.shiftRight_eq_div_pow]
    omega
  rw [ofBitVec_eq_positive_iff, ← BitVec.toNat_inj, hsign, isNegative, hpattern,
    decide_eq_false_iff_not]
  simp

theorem lt_iff {x y : Float32} :
    x < y ↔ UnpackedFloat.lt x.toModel.unpack y.toModel.unpack = true := decide_eq_true_iff

theorem signOf_of_isNegative {x : Float32} (hx : isNegative x = false) :
    signOf x.toModel.unpack = .positive := by
  rcases signOf_unpack (bits x) with hnone | hsign
  · exact congrArg signOf hnone
  · exact hsign.trans (isNegative_eq_false_iff.1 hx)

/-- A product of numbers with clear sign bits has a clear sign bit. -/
theorem isNegative_mul {x y : Float32} (hx : isNegative x = false) (hy : isNegative y = false) :
    isNegative (x * y) = false := by
  have hsign := signOf_mul .binary32 (signOf_of_isNegative hx) (signOf_of_isNegative hy)
  have hbits : bits (x * y) =
      pack .binary32 (UnpackedFloat.mul .binary32 x.toModel.unpack y.toModel.unpack) := rfl
  rw [isNegative_eq_false_iff, hbits, unpackSign_pack, hsign]
  rfl

/-- A number above one with a clear sign bit has a clear sign bit. -/
theorem isNegative_of_lt {x y : Float32} (hx : isNegative x = false) (h : x < y) :
    isNegative y = false := by
  have hlt : UnpackedFloat.lt x.toModel.unpack y.toModel.unpack = true := lt_iff.1 h
  rcases signOf_unpack (bits y) with hnone | hsign
  · have hy : y.toModel.unpack = .notANumber := hnone
    rw [hy, lt_notANumber] at hlt
    cases hlt
  · rw [isNegative_eq_false_iff, ← hsign]
    cases hy : signOf (unpack .binary32 (bits y)) with
    | positive => rfl
    | negative =>
      have hfalse := lt_eq_false_of_signOf (signOf_of_isNegative hx) hy
      exact absurd hlt (Bool.eq_false_iff.1 hfalse)

/-- A number with a clear sign bit is not below zero. -/
theorem not_lt_zero {x : Float32} (hx : isNegative x = false) : ¬ x < 0 := by
  have hzero : (0 : Float32).toModel.unpack = .zero .positive := rfl
  rw [lt_iff, hzero, lt_zero_of_signOf (signOf_of_isNegative hx)]
  exact Bool.false_ne_true

end Binary32

end SpectralCoding
