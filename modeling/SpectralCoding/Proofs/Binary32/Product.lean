import SpectralCoding.Proofs.Binary32.Magnitude

/-!
# Products in single precision

A product is the exact one, cut after its last place and rounded to nearest. So it is off by half a
unit of that place at most.

* `Binary32.IsCut` : what the bits behind a mantissa say of the digits cut off.
* `Binary32.lastPlace`, `Binary32.roundedDigits` : the last place of a number, and its digits up to
  there.
* `Binary32.roundWithAccuracy_spec`, `Binary32.roundWithAccuracy_near` : rounding goes to that
  place.
* `Binary32.units_mul` : **how far a product is from the exact one.**
-/

namespace SpectralCoding

namespace Binary32

open Float.Model (Format UnpackedFloat)

open Float.Model.UnpackedFloat

/-! ### Cutting off digits -/

theorem two_pow_mul {a b c : Nat} (h : a + b = c) : 2 ^ a * 2 ^ b = 2 ^ c := by
  rw [← Nat.pow_add, h]

/-- The number `m` without its last `n` binary digits. The two bits behind the mantissa compare what
is cut off with half a unit of its last place. -/
structure IsCut (em : ExtendedMantissa) (n m : Nat) : Prop where
  mantissa : em.mantissa = m / 2 ^ n
  rest : match em.roundBit, em.stickyBit with
    | false, false => m % 2 ^ n = 0
    | false, true => 0 < m % 2 ^ n ∧ 2 * (m % 2 ^ n) < 2 ^ n
    | true, false => 2 * (m % 2 ^ n) = 2 ^ n
    | true, true => 2 ^ n < 2 * (m % 2 ^ n)

namespace IsCut

variable {em : ExtendedMantissa} {n m : Nat}

theorem zero (m : Nat) : IsCut (.ofMantissaAndAccuracy m .exact) 0 m :=
  ⟨by simp [ExtendedMantissa.ofMantissaAndAccuracy], Nat.mod_one m⟩

theorem shiftRightOne (h : IsCut em n m) : IsCut em.shiftRightOne (n + 1) m := by
  obtain ⟨q, round, sticky⟩ := em
  obtain ⟨hmantissa, hrest⟩ := h
  simp only at hmantissa
  have hlt : m % 2 ^ n < 2 ^ n := Nat.mod_lt _ (Nat.two_pow_pos n)
  have hmod : m % 2 ^ (n + 1) = m % 2 ^ n + 2 ^ n * (q % 2) := by
    rw [Nat.mod_pow_succ, hmantissa]
  have hpow : 2 ^ (n + 1) = 2 * 2 ^ n := Nat.pow_succ'
  refine ⟨?_, ?_⟩
  · show q / 2 = m / 2 ^ (n + 1)
    rw [hmantissa, Nat.pow_succ, Nat.div_div_eq_div_mul]
  -- the digit cut off now is worth as much as half a unit, all cut off before are worth less
  · rw [hmod, hpow]
    obtain hq | hq := Nat.mod_two_eq_zero_or_one q <;> cases round <;> cases sticky <;>
      simp_all [ExtendedMantissa.shiftRightOne] <;> omega

theorem shiftRight (m n : Nat) :
    IsCut (ExtendedMantissa.ofMantissaAndAccuracy m .exact >>> n) n m := by
  induction n with
  | zero => exact zero m
  | succ n ih => exact ih.shiftRightOne

/-- Rounding goes to the next number without the digits, or the one below. -/
theorem roundedMantissa_mem (h : IsCut em n m) :
    m / 2 ^ n ≤ em.roundedMantissa ∧ em.roundedMantissa ≤ m / 2 ^ n + 1 := by
  obtain ⟨q, round, sticky⟩ := em
  rw [← h.mantissa]
  cases round <;> cases sticky <;>
    simp [ExtendedMantissa.roundedMantissa, ExtendedMantissa.accuracy,
      Accuracy.roundToNearestEven]
  omega

theorem roundedMantissa_near (h : IsCut em n m) :
    2 * (em.roundedMantissa * 2 ^ n) ≤ 2 * m + 2 ^ n ∧
      2 * m ≤ 2 * (em.roundedMantissa * 2 ^ n) + 2 ^ n := by
  obtain ⟨q, round, sticky⟩ := em
  obtain ⟨hmantissa, hrest⟩ := h
  simp only at hmantissa
  have hdiv : q * 2 ^ n + m % 2 ^ n = m := by
    rw [hmantissa]
    exact Nat.div_add_mod' ..
  have hlt : m % 2 ^ n < 2 ^ n := Nat.mod_lt _ (Nat.two_pow_pos n)
  cases round <;> cases sticky <;>
    simp only [ExtendedMantissa.roundedMantissa, ExtendedMantissa.accuracy,
      Accuracy.roundToNearestEven] at *
  · omega
  · omega
  · obtain hq | hq := Nat.mod_two_eq_zero_or_one q <;> rw [hq] <;>
      simp only [Nat.add_zero, Nat.add_mul, Nat.one_mul] <;> omega
  · rw [Nat.add_mul]
    omega

end IsCut

/-! ### Rounding -/

/-- The place of the last digit that single precision keeps of `m * 2 ^ e`. -/
def lastPlace (m : Nat) (e : Int) : Int := max (m.log2 + e - 23) (-149)

theorem shiftToTargetExponent_eq (m : Nat) (e : Int) :
    shiftToTargetExponent .binary32 m e .exact =
      (ExtendedMantissa.ofMantissaAndAccuracy m .exact >>> (lastPlace m e - e).toNat,
        e + (lastPlace m e - e).toNat) := by
  have hplace : Format.targetExponent .binary32 (Float.Model.totalExponent m e) =
      lastPlace m e := by
    have hdigits : Format.mantissaBits .binary32 = 24 := rfl
    have hleast : Format.minExponent .binary32 = -149 := rfl
    unfold Format.targetExponent Float.Model.totalExponent lastPlace
    omega
  rw [shiftToTargetExponent, hplace, shiftToExponent]

theorem shiftToTargetExponent_of_lt {r : Nat} {e : Int} (hr : r < 2 ^ 24) (he : -149 ≤ e) :
    shiftToTargetExponent .binary32 r e .exact =
      (ExtendedMantissa.ofMantissaAndAccuracy r .exact, e) := by
  have hlog : r.log2 < 24 := by
    by_cases hzero : r = 0
    · rw [hzero]
      decide
    · exact (Nat.log2_lt hzero).2 hr
  have hshift : (lastPlace r e - e).toNat = 0 := by
    unfold lastPlace
    omega
  rw [shiftToTargetExponent_eq, hshift, Int.natCast_zero, Int.add_zero]
  rfl

/-- A carry out of all 24 digits moves them by one place. -/
theorem shiftToTargetExponent_carry {e : Int} (he : -149 ≤ e) :
    (shiftToTargetExponent .binary32 (2 ^ 24) e .exact).1.mantissa = 2 ^ 23 ∧
      (shiftToTargetExponent .binary32 (2 ^ 24) e .exact).2 = e + 1 := by
  have hshift : (lastPlace (2 ^ 24) e - e).toNat = 1 := by
    have hlog : Nat.log2 (2 ^ 24) = 24 := Nat.log2_two_pow
    unfold lastPlace
    omega
  rw [shiftToTargetExponent_eq, hshift]
  exact ⟨rfl, rfl⟩

section Rounded

variable {m : Nat} {e : Int}

/-- The digits that are left when `m * 2 ^ e` is rounded to its last place. -/
def roundedDigits (m : Nat) (e : Int) : Nat :=
  (ExtendedMantissa.ofMantissaAndAccuracy m .exact >>>
    (lastPlace m e - e).toNat).roundedMantissa

/-- With 24 digits a number goes down to its last place, or beyond. -/
theorem le_lastPlace (hm : 2 ^ 23 ≤ m) : e ≤ lastPlace m e := by
  have hlog : 23 ≤ m.log2 := (Nat.le_log2 (by omega)).2 hm
  unfold lastPlace
  omega

theorem lastPlace_le (hm : m ≠ 0) (hleast : -298 ≤ e) {k : Nat} (hk : 24 ≤ k)
    (hlt : m * 2 ^ (e + 298).toNat < 2 ^ (149 + k)) : lastPlace m e ≤ k - 173 := by
  have hlog : m.log2 + (e + 298).toNat < 149 + k := by
    rw [← Nat.pow_lt_pow_iff_right (Nat.lt_succ_self 1), Nat.pow_add]
    exact Nat.lt_of_le_of_lt (Nat.mul_le_mul_right _ (Nat.log2_self_le hm)) hlt
  unfold lastPlace
  omega

theorem roundedDigits_le (m : Nat) (e : Int) : roundedDigits m e ≤ 2 ^ 24 := by
  have hle := (IsCut.shiftRight m (lastPlace m e - e).toNat).roundedMantissa_mem.2
  have hlt : m / 2 ^ (lastPlace m e - e).toNat < 2 ^ 24 := by
    rw [Nat.div_lt_iff_lt_mul (Nat.two_pow_pos _), ← Nat.pow_add]
    refine Nat.lt_of_lt_of_le Nat.lt_log2_self (Nat.pow_le_pow_right (by decide) ?_)
    unfold lastPlace
    omega
  exact Nat.le_trans hle hlt

/-- All 24 digits are used but where they go down to the last place there is. -/
theorem le_roundedDigits (hm : m ≠ 0) (he : e ≤ lastPlace m e) :
    2 ^ 23 ≤ roundedDigits m e ∨ lastPlace m e = -149 := by
  by_cases hleast : lastPlace m e = -149
  · exact .inr hleast
  · left
    refine Nat.le_trans ?_ (IsCut.shiftRight m (lastPlace m e - e).toNat).roundedMantissa_mem.1
    rw [Nat.le_div_iff_mul_le (Nat.two_pow_pos _), ← Nat.pow_add]
    refine Nat.le_trans (Nat.pow_le_pow_right (by decide) ?_) (Nat.log2_self_le hm)
    unfold lastPlace at *
    omega

/-- A number of the mantissa and exponent given, zero if there is no mantissa. -/
def assemble (s : Sign) (p : ExtendedMantissa × Int) : UnpackedFloat :=
  if h : p.1.mantissa = 0 then .zero s else .finite s p.1.mantissa p.2 (Nat.pos_of_ne_zero h)

theorem assemble_spec (s : Sign) {p : ExtendedMantissa × Int} (hlt : p.1.mantissa < 2 ^ 24)
    (hleast : -149 ≤ p.2) (hmost : p.2 ≤ 104) (hfull : 2 ^ 23 ≤ p.1.mantissa ∨ p.2 = -149) :
    IsStored (assemble s p) ∧
      unitsOf (assemble s p) = p.1.mantissa * 2 ^ (p.2 + 149).toNat := by
  unfold assemble
  split
  · next hzero => exact ⟨trivial, by rw [hzero, Nat.zero_mul]; rfl⟩
  · exact ⟨⟨hlt, hleast, hmost, hfull⟩, rfl⟩

theorem roundWithAccuracy_eq (s : Sign) (he : e ≤ lastPlace m e) :
    roundWithAccuracy .binary32 s m e .exact =
      assemble s (shiftToTargetExponent .binary32 (roundedDigits m e) (lastPlace m e) .exact) := by
  have hplace : e + ((lastPlace m e - e).toNat : Int) = lastPlace m e := by omega
  unfold roundWithAccuracy
  rw [shiftToTargetExponent_eq, hplace]
  rfl

/-- A number that goes down to its last place or beyond is rounded to that place. -/
theorem roundWithAccuracy_spec (s : Sign) (hm : m ≠ 0) (he : e ≤ lastPlace m e)
    (hmost : lastPlace m e ≤ 103) :
    IsStored (roundWithAccuracy .binary32 s m e .exact) ∧
      unitsOf (roundWithAccuracy .binary32 s m e .exact) =
        roundedDigits m e * 2 ^ (lastPlace m e + 149).toNat := by
  have hleast : -149 ≤ lastPlace m e := Int.le_max_right ..
  rw [roundWithAccuracy_eq s he]
  rcases Nat.lt_or_eq_of_le (roundedDigits_le m e) with hlt | hcarry
  · rw [shiftToTargetExponent_of_lt hlt hleast]
    exact assemble_spec s hlt hleast (Int.le_add_one hmost) (le_roundedDigits hm he)
  · rw [hcarry]
    obtain ⟨hdigits, hplace⟩ := shiftToTargetExponent_carry hleast
    have hspec := assemble_spec s
      (p := shiftToTargetExponent .binary32 (2 ^ 24) (lastPlace m e) .exact)
      (by rw [hdigits]; decide) (by omega) (by omega) (.inl (Nat.le_of_eq hdigits.symm))
    have hnext : 2 ^ 23 * 2 ^ (lastPlace m e + 1 + 149).toNat =
        2 ^ 24 * 2 ^ (lastPlace m e + 149).toNat :=
      (two_pow_mul (by omega)).trans (Nat.pow_add ..)
    rw [hdigits, hplace, hnext] at hspec
    exact hspec

/-- It is off by half a unit of that place at most. Here `2 ^ -298` is the unit. -/
theorem roundWithAccuracy_near (s : Sign) (hm : m ≠ 0) (hleast : -298 ≤ e)
    (he : e ≤ lastPlace m e) (hmost : lastPlace m e ≤ 103) :
    2 * (2 ^ 149 * unitsOf (roundWithAccuracy .binary32 s m e .exact)) ≤
        2 * (m * 2 ^ (e + 298).toNat) + 2 ^ (lastPlace m e + 298).toNat ∧
      2 * (m * 2 ^ (e + 298).toNat) ≤
        2 * (2 ^ 149 * unitsOf (roundWithAccuracy .binary32 s m e .exact)) +
          2 ^ (lastPlace m e + 298).toNat := by
  have hunits := (roundWithAccuracy_spec s hm he hmost).2
  obtain ⟨hover, hunder⟩ := (IsCut.shiftRight m (lastPlace m e - e).toNat).roundedMantissa_near
  rw [← roundedDigits] at hover hunder
  have hunit : 2 ^ (lastPlace m e + 298).toNat =
      2 ^ (lastPlace m e - e).toNat * 2 ^ (e + 298).toNat := (two_pow_mul (by omega)).symm
  have hscale : 2 ^ 149 * unitsOf (roundWithAccuracy .binary32 s m e .exact) =
      roundedDigits m e * 2 ^ (lastPlace m e - e).toNat * 2 ^ (e + 298).toNat := by
    have hplace : -149 ≤ lastPlace m e := Int.le_max_right ..
    have hpow : 2 ^ 149 * 2 ^ (lastPlace m e + 149).toNat = 2 ^ (lastPlace m e + 298).toNat :=
      two_pow_mul (by omega)
    rw [hunits, Nat.mul_left_comm, hpow, hunit, Nat.mul_assoc]
  have hover := Nat.mul_le_mul_right (2 ^ (e + 298).toNat) hover
  have hunder := Nat.mul_le_mul_right (2 ^ (e + 298).toNat) hunder
  rw [hscale, hunit]
  simp only [Nat.add_mul, Nat.mul_assoc] at hover hunder ⊢
  exact ⟨hover, hunder⟩

end Rounded

/-! ### Products -/

theorem le_mantissa {s : Sign} {m : Nat} {e : Int} {hm : 0 < m} (h : IsStored (.finite s m e hm))
    (hnormal : 2 ^ 23 ≤ unitsOf (.finite s m e hm)) : 2 ^ 23 ≤ m := by
  obtain ⟨-, -, -, hfull | rfl⟩ := h
  · exact hfull
  · simpa [unitsOf] using hnormal

theorem unitsOf_mul_unitsOf {s₁ s₂ : Sign} {m₁ m₂ : Nat} {e₁ e₂ : Int} {hm₁ : 0 < m₁}
    {hm₂ : 0 < m₂} (he₁ : -149 ≤ e₁) (he₂ : -149 ≤ e₂) :
    unitsOf (.finite s₁ m₁ e₁ hm₁) * unitsOf (.finite s₂ m₂ e₂ hm₂) =
      m₁ * m₂ * 2 ^ (e₁ + e₂ + 298).toNat := by
  have hpow : 2 ^ (e₁ + 149).toNat * 2 ^ (e₂ + 149).toNat = 2 ^ (e₁ + e₂ + 298).toNat :=
    two_pow_mul (by omega)
  rw [unitsOf, unitsOf, Nat.mul_mul_mul_comm, hpow]

theorem mul_spec {u v : UnpackedFloat} (hu : IsStored u) (hv : IsStored v)
    (hnormal : 2 ^ 23 ≤ unitsOf v) {k : Nat} (hleast : 24 ≤ k) (hmost : k ≤ 276)
    (hlt : unitsOf u * unitsOf v < 2 ^ (149 + k)) :
    IsStored (UnpackedFloat.mul .binary32 u v) ∧
      2 * (2 ^ 149 * unitsOf (UnpackedFloat.mul .binary32 u v)) ≤
        2 * (unitsOf u * unitsOf v) + 2 ^ (125 + k) ∧
      2 * (unitsOf u * unitsOf v) ≤
        2 * (2 ^ 149 * unitsOf (UnpackedFloat.mul .binary32 u v)) + 2 ^ (125 + k) := by
  cases v with
  | notANumber => exact hv.elim
  | infinity s => exact hv.elim
  | zero s => exact absurd hnormal (Nat.not_le_of_lt (Nat.two_pow_pos 23))
  | finite s₂ m₂ e₂ hm₂ =>
    cases u with
    | notANumber => exact hu.elim
    | infinity s => exact hu.elim
    | zero s => exact ⟨trivial, by simp [unitsOf, UnpackedFloat.mul]⟩
    | finite s₁ m₁ e₁ hm₁ =>
      have he₁ : -149 ≤ e₁ := hu.2.1
      have he₂ : -149 ≤ e₂ := hv.2.1
      have hm : m₁ * m₂ ≠ 0 := Nat.ne_of_gt (Nat.mul_pos hm₁ hm₂)
      rw [unitsOf_mul_unitsOf he₁ he₂] at hlt ⊢
      -- one factor with all digits is enough for a product with digits to cut off, or none to add
      have he : e₁ + e₂ ≤ lastPlace (m₁ * m₂) (e₁ + e₂) :=
        le_lastPlace (Nat.le_trans (le_mantissa hv hnormal) (Nat.le_mul_of_pos_left m₂ hm₁))
      have hlast := lastPlace_le hm (by omega) hleast hlt
      have hunit : 2 ^ (lastPlace (m₁ * m₂) (e₁ + e₂) + 298).toNat ≤ 2 ^ (125 + k) :=
        Nat.pow_le_pow_right (by decide) (by omega)
      have hstored := (roundWithAccuracy_spec (s₁ * s₂) hm he (by omega)).1
      obtain ⟨hover, hunder⟩ := roundWithAccuracy_near (s₁ * s₂) hm (by omega) he (by omega)
      exact ⟨hstored, Nat.le_trans hover (Nat.add_le_add_left hunit _),
        Nat.le_trans hunder (Nat.add_le_add_left hunit _)⟩

/-- **A product is off by half a unit of its last place at most.** Where the second of two finite
numbers has all 24 digits and the exact product is below `2 ^ k` units, that in single precision is
finite and no more than `2 ^ (k - 25)` units away. Both are multiplied by `2 ^ 150` here. -/
theorem units_mul {x y : Float32} (hx : x.isFinite = true) (hy : y.isFinite = true)
    (hnormal : 2 ^ 23 ≤ units y) {k : Nat} (hleast : 24 ≤ k) (hmost : k ≤ 276)
    (hlt : units x * units y < 2 ^ (149 + k)) :
    (x * y).isFinite = true ∧
      2 * (2 ^ 149 * units (x * y)) ≤ 2 * (units x * units y) + 2 ^ (125 + k) ∧
      2 * (units x * units y) ≤ 2 * (2 ^ 149 * units (x * y)) + 2 ^ (125 + k) := by
  obtain ⟨hxstored, hxunits⟩ := isStored_unpack hx
  obtain ⟨hystored, hyunits⟩ := isStored_unpack hy
  have hproduct : x * y = ofUnpacked (UnpackedFloat.mul .binary32 x.toModel.unpack
    y.toModel.unpack) := rfl
  rw [← hyunits] at hnormal
  rw [← hxunits, ← hyunits] at hlt
  obtain ⟨hstored, hnear⟩ := mul_spec hxstored hystored hnormal hleast hmost hlt
  obtain ⟨hfinite, hunits⟩ := units_ofUnpacked hstored
  rw [hproduct, hunits, ← hxunits, ← hyunits]
  exact ⟨hfinite, hnear⟩

end Binary32

end SpectralCoding
