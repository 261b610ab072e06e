import SpectralCoding.Proofs.Atrac3.MantissaDecoder
import SpectralCoding.Proofs.Binary32.Product

/-!
# What a value is quantised to

What scaled values are multiplied by is half an odd number, one more than twice the greatest
mantissa. So no value below one is rounded past that mantissa, and two mantissas of one value differ
by no more than half a step each way.

* `Atrac3.oddStep` : twice what scaled values are multiplied by.
* `Atrac3.mantissa_spec` : how far a mantissa is from the value times the step.
* `Atrac3.isBounded_quantise` : no mantissa is greater than its selector allows.
* `Atrac3.AreNear`, `Atrac3.areNear_mantissas` : two mantissas of one value.
-/

namespace SpectralCoding

namespace Atrac3

open Binary32 (units)

/-- Twice what scaled values are multiplied by. -/
def oddStep (selector : Nat) : Nat := 2 * greatestMantissa selector + 1

/-- The mantissa of a scaled value under a selector. -/
def mantissaOf (v : Float32) (selector : Nat) : Int :=
  Binary32.round32 (v * steps.getD selector 0)

theorem quantise_eq (values : List Float32) {selector : Nat} (h : selector ≤ greatestSelector) :
    quantise values selector = values.map (mantissaOf · selector) := by
  rw [quantise, Nat.min_eq_left h]
  rfl

theorem step_spec : ∀ selector ≤ greatestSelector, 1 ≤ selector →
    (steps.getD selector 0).isFinite = true ∧
      units (steps.getD selector 0) = oddStep selector * 2 ^ 148 ∧
        2 ^ (oddStep selector).log2 < oddStep selector ∧ (oddStep selector).log2 ≤ 5 := by
  decide +kernel

variable {v : Float32} {selector : Nat}

theorem oddStep_lt (hpos : 1 ≤ selector) (hle : selector ≤ greatestSelector) :
    oddStep selector < 2 ^ 6 := by
  have hlog := (step_spec selector hle hpos).2.2.2
  exact Nat.lt_of_lt_of_le Nat.lt_log2_self
    (Nat.pow_le_pow_right (by decide) (Nat.succ_le_succ hlog))

/-- In units of `2 ^ -149`, twice the product of a value and the step is off by `2 ^ 130` at most,
and it stays below the step. -/
theorem units_mul_step (hv : v.abs < 1) (hpos : 1 ≤ selector) (hle : selector ≤ greatestSelector) :
    (v * steps.getD selector 0).isFinite = true ∧
      2 * units (v * steps.getD selector 0) ≤ units v * oddStep selector + 2 ^ 130 ∧
      units v * oddStep selector ≤ 2 * units (v * steps.getD selector 0) + 2 ^ 130 ∧
      2 * units (v * steps.getD selector 0) < oddStep selector * 2 ^ 149 := by
  obtain ⟨hfinite, hunits⟩ := Binary32.units_le_of_abs_lt_one hv
  obtain ⟨hstep, hstepUnits, hodd, hlog⟩ := step_spec selector hle hpos
  have hexact : units v * units (steps.getD selector 0) =
      units v * oddStep selector * 2 ^ 148 := by
    rw [hstepUnits, Nat.mul_assoc]
  have hbelow : units v * oddStep selector ≤ (2 ^ 149 - 2 ^ 125) * oddStep selector :=
    Nat.mul_le_mul_right _ hunits
  have hlt : units v * units (steps.getD selector 0) <
      2 ^ (149 + (149 + (oddStep selector).log2)) := by
    have hupper : oddStep selector < 2 ^ (oddStep selector).log2 * 2 := Nat.lt_log2_self
    rw [hexact, ← Nat.add_assoc, Nat.pow_add]
    omega
  have hnormal : 2 ^ 23 ≤ units (steps.getD selector 0) := by
    have hpositive : 1 ≤ oddStep selector := Nat.le_add_left ..
    rw [hstepUnits]
    omega
  obtain ⟨hproduct, hover, hunder⟩ :=
    Binary32.units_mul hfinite hstep hnormal (by omega) (by omega) hlt
  have hlast : 2 ^ (oddStep selector).log2 ≤ 2 ^ 5 := Nat.pow_le_pow_right (by decide) hlog
  rw [hexact, ← Nat.add_assoc, Nat.pow_add] at hover hunder
  -- below the step because no step is a power of two: a value falls short of one by more of the
  -- step than rounding can make good
  refine ⟨hproduct, ?_, ?_, ?_⟩ <;> omega

/-- **A mantissa is the nearest integer of the value times the step,** up to `2 ^ -19`, and it is
within the greatest mantissa. Here values are counted in `2 ^ -149` and doubled. -/
theorem mantissa_spec (hv : v.abs < 1) (hpos : 1 ≤ selector) (hle : selector ≤ greatestSelector) :
    (mantissaOf v selector).natAbs ≤ greatestMantissa selector ∧
      2 * (mantissaOf v selector).natAbs * 2 ^ 149 ≤
        units v * oddStep selector + 2 ^ 149 + 2 ^ 130 ∧
      units v * oddStep selector ≤
        (2 * (mantissaOf v selector).natAbs + 1) * 2 ^ 149 + 2 ^ 130 := by
  obtain ⟨hfinite, hover, hunder, hbelow⟩ := units_mul_step hv hpos hle
  have hnearest := Binary32.nearest_eq (v * steps.getD selector 0)
  have hmost := oddStep_lt hpos hle
  have hodd : oddStep selector = 2 * greatestMantissa selector + 1 := rfl
  -- the step is half of an odd number, so what stays below it is rounded to the number below
  have habs : (mantissaOf v selector).natAbs = Binary32.nearest (v * steps.getD selector 0) :=
    Binary32.natAbs_round32 hfinite (by omega)
  rw [habs]
  refine ⟨?_, ?_, ?_⟩ <;> omega

/-- No mantissa is greater than its selector allows; that of what is not a number is zero. -/
theorem isBounded_quantise {values : List Float32}
    (hvalues : ∀ v ∈ values, v.abs < 1 ∨ v.isNaN = true) (hpos : 1 ≤ selector)
    (hle : selector ≤ greatestSelector) : IsBounded selector (quantise values selector) := by
  rw [quantise_eq values hle]
  refine List.forall_mem_map.2 fun v hv => ?_
  rcases hvalues v hv with hbelow | hnan
  · exact (mantissa_spec hbelow hpos hle).1
  · rw [mantissaOf, Binary32.round32_of_isNaN (Binary32.isNaN_mul hnan _)]
    exact Nat.zero_le _

/-- Mantissas of one value under two selectors: the value that the one stands for at least is no
more than what the other stands for at most, either way. -/
def AreNear (first second a b : Nat) : Prop :=
  oddStep second * (2 * a) ≤ oddStep first * (2 * b + 1) + oddStep second ∧
    oddStep first * (2 * b) ≤ oddStep second * (2 * a + 1) + oddStep first

instance (first second a b : Nat) : Decidable (AreNear first second a b) :=
  inferInstanceAs (Decidable (_ ∧ _))

/-- What is lost in a product is too little to matter, as both sides are multiples of `2 ^ 149`. -/
theorem le_of_bounds {u c d a b : Nat} (hc : c < 2 ^ 6) (hd : d < 2 ^ 6)
    (hlower : 2 * a * 2 ^ 149 ≤ u * c + 2 ^ 149 + 2 ^ 130)
    (hupper : u * d ≤ (2 * b + 1) * 2 ^ 149 + 2 ^ 130) :
    d * (2 * a) ≤ c * (2 * b + 1) + d := by
  have hcross : d * (u * c) = c * (u * d) := by
    rw [Nat.mul_left_comm, Nat.mul_left_comm c, Nat.mul_comm d c]
  have hbelow : d * (2 * a) * 2 ^ 149 ≤ c * (u * d) + d * 2 ^ 149 + d * 2 ^ 130 := by
    rw [← hcross, Nat.mul_assoc, ← Nat.mul_add, ← Nat.mul_add]
    exact Nat.mul_le_mul_left d hlower
  have habove : c * (u * d) ≤ c * (2 * b + 1) * 2 ^ 149 + c * 2 ^ 130 := by
    rw [Nat.mul_assoc c, ← Nat.mul_add]
    exact Nat.mul_le_mul_left c hupper
  omega

theorem areNear_mantissas {first second : Nat} (hv : v.abs < 1) (hfirst : 1 ≤ first)
    (hfirst' : first ≤ greatestSelector) (hsecond : 1 ≤ second)
    (hsecond' : second ≤ greatestSelector) :
    AreNear first second (mantissaOf v first).natAbs (mantissaOf v second).natAbs := by
  obtain ⟨-, hlower, hupper⟩ := mantissa_spec hv hfirst hfirst'
  obtain ⟨-, hlower', hupper'⟩ := mantissa_spec hv hsecond hsecond'
  have hodd := oddStep_lt hfirst hfirst'
  have hodd' := oddStep_lt hsecond hsecond'
  exact ⟨le_of_bounds hodd hodd' hlower hupper', le_of_bounds hodd' hodd hlower' hupper⟩

end Atrac3

end SpectralCoding
