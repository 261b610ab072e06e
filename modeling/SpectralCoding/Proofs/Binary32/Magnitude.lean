import SpectralCoding.Proofs.Binary32.Sign

/-!
# Magnitudes of single-precision numbers

The magnitude of a finite number is a multiple of the least one above zero, so it can be counted in
natural numbers. What is known of a number taken apart carries over to it through this count.

* `Binary32.units` : the magnitude as a multiple of `2 ^ -149`.
* `Binary32.isStored_unpack`, `Binary32.units_ofUnpacked` : it is the same for a number taken apart
  and for one put together.
* `Binary32.nearest_eq`, `Binary32.natAbs_round32` : the integer that a number is rounded to.
* `Binary32.abs_lt_one_or_isNaN` : what is not of magnitude one or more.
* `Binary32.units_le_of_abs_lt_one` : the greatest number below one.
-/

namespace SpectralCoding

namespace Binary32

open Float.Model (Format UnpackedFloat)

open Float.Model.UnpackedFloat

/-- The magnitude of a finite number in units of the least one above zero, `2 ^ -149`. -/
def units (x : Float32) : Nat := significand x * 2 ^ (exponent x - 1)

/-! ### Numbers taken apart -/

/-- The magnitude of a number taken apart, in the same units. -/
def unitsOf : UnpackedFloat → Nat
  | .finite _ m e _ => m * 2 ^ (e + 149).toNat
  | _ => 0

/-- A finite number taken apart as single precision stores it. -/
def IsStored : UnpackedFloat → Prop
  | .zero _ => True
  | .finite _ m e _ => m < 2 ^ 24 ∧ -149 ≤ e ∧ e ≤ 104 ∧ (2 ^ 23 ≤ m ∨ e = -149)
  | _ => False

variable {x y : Float32}

theorem toNat_unpackExponent (x : Float32) :
    (unpackExponent (bits x)).toNat = pattern x / 2 ^ 23 % 2 ^ 8 := by
  have hpattern : pattern x = (bits x).toNat := rfl
  simp [unpackExponent, Nat.shiftRight_eq_div_pow, hpattern]

theorem toNat_unpackMantissa (x : Float32) :
    (unpackMantissa (bits x)).toNat = pattern x % 2 ^ 23 := by
  have hpattern : pattern x = (bits x).toNat := rfl
  simp [unpackMantissa, hpattern]

theorem toNat_one_append {n : Nat} (m : BitVec n) : (1#1 ++ m).toNat = 2 ^ n + m.toNat := by
  rw [BitVec.toNat_append, ← Nat.shiftLeft_add_eq_or_of_lt m.isLt]
  simp [Nat.shiftLeft_eq]

theorem isFinite_unpack (spec : Format) (b : BitVec spec.numBits) :
    (unpack spec b).isFinite = true ↔ unpackExponent b ≠ -1#_ := by
  unfold unpack
  dsimp only
  split
  · next hlast =>
    split <;> simp [isFinite, hlast]
  · next hlast =>
    split
    · split <;> simp [isFinite, hlast]
    · simp [isFinite, hlast]

theorem isFinite_iff : x.isFinite = true ↔ unpackExponent (bits x) ≠ -1#_ :=
  isFinite_unpack .binary32 (bits x)

theorem isStored_unpack (h : x.isFinite = true) :
    IsStored x.toModel.unpack ∧ unitsOf x.toModel.unpack = units x := by
  show IsStored (unpack .binary32 (bits x)) ∧ unitsOf (unpack .binary32 (bits x)) = units x
  have hmantissa : (unpackMantissa (bits x)).toNat < 2 ^ 23 := (unpackMantissa (bits x)).isLt
  have hexponent : (unpackExponent (bits x)).toNat < 2 ^ 8 := (unpackExponent (bits x)).isLt
  have hlast := isFinite_iff.1 h
  have hlast' : (unpackExponent (bits x)).toNat ≠ 255 := by
    intro h
    exact hlast (BitVec.eq_of_toNat_eq h)
  have hbias : Format.exponentBias .binary32 = 127 := rfl
  unfold units significand exponent
  rw [← toNat_unpackExponent, ← toNat_unpackMantissa]
  unfold unpack
  dsimp only
  rw [hbias, if_neg hlast]
  by_cases hfirst : unpackExponent (bits x) = 0#_
  · rw [if_pos hfirst, hfirst]
    split
    · next hzero => simp [IsStored, unitsOf, hzero]
    · simp [IsStored, unitsOf]
      omega
  · have hfirst' : (unpackExponent (bits x)).toNat ≠ 0 := by
      intro h
      exact hfirst (BitVec.eq_of_toNat_eq h)
    rw [if_neg hfirst, if_neg hfirst']
    simp only [IsStored, unitsOf, toNat_one_append]
    refine ⟨⟨?_, ?_, ?_, ?_⟩, ?_⟩
    · omega
    · omega
    · omega
    · omega
    · congr 2
      omega

/-- A number taken apart, put together. -/
def ofUnpacked (u : UnpackedFloat) : Float32 := .ofModel (.pack u)

theorem bits_ofUnpacked (u : UnpackedFloat) : bits (ofUnpacked u) = pack .binary32 u := rfl

theorem units_of_components {s : Sign} {E : BitVec 8} {m : BitVec 23}
    (h : bits x = packComponents .binary32 s E m) :
    units x =
      (if E.toNat = 0 then m.toNat else 2 ^ 23 + m.toNat) * 2 ^ (max 1 E.toNat - 1) := by
  unfold units significand exponent
  rw [← toNat_unpackExponent, ← toNat_unpackMantissa, h, unpackExponent_packComponents,
    unpackMantissa_packComponents]

theorem isFinite_of_components {s : Sign} {E : BitVec 8} {m : BitVec 23}
    (h : bits x = packComponents .binary32 s E m) (hE : E ≠ -1#8) : x.isFinite = true := by
  rw [isFinite_iff, h, unpackExponent_packComponents]
  exact hE

/-- The components of a stored number put together: without a leading one the exponent is zero. -/
theorem bits_ofUnpacked_finite {s : Sign} {m : Nat} {e : Int} {hm : 0 < m}
    (h : IsStored (.finite s m e hm)) :
    bits (ofUnpacked (.finite s m e hm)) =
      if 2 ^ 23 ≤ m then packComponents .binary32 s (.ofNat 8 (e + 150).toNat) (.ofNat 23 m)
      else packComponents .binary32 s 0#8 (.ofNat 23 m) := by
  obtain ⟨hlt, hleast, hmost, -⟩ := h
  have hlog : m.log2 + 1 = Format.mantissaBits .binary32 ↔ 2 ^ 23 ≤ m := by
    rw [← Nat.le_log2 (Nat.ne_of_gt hm)]
    have hlt' := (Nat.log2_lt (Nat.ne_of_gt hm)).2 hlt
    have hdigits : Format.mantissaBits .binary32 = 24 := rfl
    omega
  have hbiased : (e + Format.exponentBias .binary32 + (23 : Nat)).toNat = (e + 150).toNat := by
    have hbias : Format.exponentBias .binary32 = 127 := rfl
    omega
  rw [bits_ofUnpacked]
  unfold pack
  simp only [hbiased, hlog]
  rw [if_neg]
  omega

theorem units_ofUnpacked {u : UnpackedFloat} (h : IsStored u) :
    (ofUnpacked u).isFinite = true ∧ units (ofUnpacked u) = unitsOf u := by
  cases u with
  | notANumber => exact h.elim
  | infinity s => exact h.elim
  | zero s =>
    have hbits : bits (ofUnpacked (.zero s)) = packComponents .binary32 s 0#8 0#23 := rfl
    exact ⟨isFinite_of_components hbits (by decide), by
      simpa [unitsOf] using units_of_components hbits⟩
  | finite s m e hm =>
    have hbits := bits_ofUnpacked_finite h
    obtain ⟨hlt, hleast, hmost, hfull⟩ := h
    by_cases hnormal : 2 ^ 23 ≤ m
    · rw [if_pos hnormal] at hbits
      have hE : (BitVec.ofNat 8 (e + 150).toNat).toNat = (e + 150).toNat := by
        rw [BitVec.toNat_ofNat]
        omega
      have hm' : (BitVec.ofNat 23 m).toNat = m - 2 ^ 23 := by
        rw [BitVec.toNat_ofNat]
        omega
      refine ⟨isFinite_of_components hbits ?_, ?_⟩
      · intro hlast
        have hlast' : (e + 150).toNat = 255 := hE.symm.trans (congrArg BitVec.toNat hlast)
        omega
      · have hdigits : 2 ^ 23 + (m - 2 ^ 23) = m := by omega
        have hplace : max 1 (e + 150).toNat - 1 = (e + 149).toNat := by omega
        rw [units_of_components hbits, hE, hm', if_neg (by omega), hdigits, hplace, unitsOf]
    · rw [if_neg hnormal] at hbits
      have hm' : (BitVec.ofNat 23 m).toNat = m := by
        rw [BitVec.toNat_ofNat]
        omega
      refine ⟨isFinite_of_components hbits (by decide), ?_⟩
      rw [units_of_components hbits, hm', hfull.resolve_left hnormal]
      rfl

/-! ### Integers -/

/-- The nearest integer of a magnitude is half of twice the magnitude and one, cut. -/
theorem nearest_eq (x : Float32) : nearest x = (2 * units x + 2 ^ 149) / 2 ^ 150 := by
  have hpos : 1 ≤ exponent x := Nat.le_max_left ..
  unfold nearest units
  split
  · next h =>
    obtain ⟨k, hk⟩ := Nat.exists_eq_add_of_le h
    have hunits : significand x * 2 ^ (exponent x - 1) = significand x * 2 ^ k * 2 ^ 149 := by
      rw [Nat.mul_assoc, ← Nat.pow_add]
      congr 2
      omega
    rw [Nat.shiftLeft_eq, hunits, hk, Nat.add_sub_cancel_left]
    omega
  · next h =>
    obtain ⟨k, hk⟩ := Nat.exists_eq_add_of_le (Nat.le_of_lt_succ (Nat.lt_of_not_le h))
    have hhalf : 2 ^ 149 = 2 ^ k * 2 ^ exponent x := by rw [← Nat.pow_add, hk, Nat.add_comm]
    have hunit : 2 ^ 150 = 2 ^ exponent x * (2 ^ k * 2) := by
      rw [Nat.mul_left_comm, ← Nat.mul_assoc, ← hhalf]
    have hdouble : 2 * (significand x * 2 ^ (exponent x - 1)) = significand x * 2 ^ exponent x := by
      rw [Nat.mul_left_comm, ← Nat.pow_succ', Nat.succ_eq_add_one, Nat.sub_add_cancel hpos]
    have hplace : 149 - exponent x = k := by omega
    rw [Nat.shiftRight_eq_div_pow, Nat.shiftRight_eq_div_pow, hplace, hdouble, hunit, hhalf,
      ← Nat.add_mul, ← Nat.div_div_eq_div_mul, Nat.mul_div_cancel _ (Nat.two_pow_pos _),
      ← Nat.div_div_eq_div_mul, Nat.add_div_right _ (Nat.two_pow_pos _)]

theorem isNaN_of_isFinite (h : x.isFinite = true) : x.isNaN = false := by
  have hfinite : x.toModel.unpack.isFinite = true := h
  show x.toModel.unpack.isNaN = false
  cases hx : x.toModel.unpack <;> rw [hx] at hfinite <;> first | rfl | cases hfinite

/-- A finite number within the 32-bit integers is rounded to the nearest. -/
theorem natAbs_round32 (hfinite : x.isFinite = true) (h : nearest x < 2 ^ 31) :
    (round32 x).natAbs = nearest x := by
  unfold round32 roundInt
  rw [if_neg (Bool.eq_false_iff.1 (isNaN_of_isFinite hfinite))]
  unfold clampInt signed leastInt32 mostInt32
  split <;> omega

/-! ### What is not a number -/

theorem isNaN_mul (h : x.isNaN = true) (y : Float32) : (x * y).isNaN = true := by
  have hx : x.toModel.unpack = .notANumber := by
    have hnan : x.toModel.unpack.isNaN = true := h
    cases hu : x.toModel.unpack <;> rw [hu] at hnan <;> first | rfl | cases hnan
  have hproduct : x * y = ofUnpacked (.mul .binary32 x.toModel.unpack y.toModel.unpack) := rfl
  have hnone : (ofUnpacked .notANumber).isNaN = true := by decide +kernel
  rw [hproduct, hx]
  exact hnone

theorem round32_of_isNaN (h : x.isNaN = true) : round32 x = 0 := if_pos h

/-! ### Order -/

theorem compare_swap (u v : UnpackedFloat) :
    UnpackedFloat.compare u v = (UnpackedFloat.compare v u).map Ordering.swap := by
  cases u with
  | notANumber => cases v <;> rfl
  | infinity s => cases v with
    | notANumber => rfl
    | infinity t | zero t | finite t => cases s <;> cases t <;> rfl
  | zero s => cases v with
    | notANumber => rfl
    | infinity t | zero t | finite t => cases t <;> rfl
  | finite s m e hm =>
    cases v with
    | notANumber => rfl
    | infinity t | zero t => cases s <;> cases t <;> rfl
    | finite t n f hn =>
      have hplaces : compare e f = (compare f e).swap := (Int.compare_swap f e).symm
      have hdigits : compare m n = (compare n m).swap := (Nat.compare_swap n m).symm
      cases s <;> cases t <;>
        simp [UnpackedFloat.compare, Ordering.swap_then, hplaces, hdigits]

theorem isNaN_of_compare {u v : UnpackedFloat} (h : UnpackedFloat.compare u v = none) :
    u.isNaN = true ∨ v.isNaN = true := by
  cases u with
  | notANumber => exact .inl rfl
  | infinity s | zero s | finite s =>
    cases v with
    | notANumber => exact .inr rfl
    | infinity t | zero t | finite t => cases s <;> cases t <;> cases h

theorem lt_of_le_eq_false {u v : UnpackedFloat} (h : UnpackedFloat.le v u = false) :
    UnpackedFloat.lt u v = true ∨ u.isNaN = true ∨ v.isNaN = true := by
  cases horder : UnpackedFloat.compare v u with
  | none => exact .inr (isNaN_of_compare horder).symm
  | some order =>
    left
    rw [UnpackedFloat.le, horder] at h
    rw [UnpackedFloat.lt, compare_swap, horder]
    cases order <;> first | rfl | cases h

theorem le_iff : x ≤ y ↔ UnpackedFloat.le x.toModel.unpack y.toModel.unpack = true :=
  decide_eq_true_iff

/-! ### Numbers below one -/

theorem signOf_abs (u : UnpackedFloat) : signOf u.abs = .positive := by
  cases u <;> rfl

theorem isNegative_abs (x : Float32) : isNegative x.abs = false := by
  have hbits : bits x.abs = pack .binary32 x.toModel.unpack.abs := rfl
  rw [isNegative_eq_false_iff, hbits, unpackSign_pack, signOf_abs]
  rfl

theorem units_abs (h : x.isFinite = true) : x.abs.isFinite = true ∧ units x.abs = units x := by
  obtain ⟨hstored, hunits⟩ := isStored_unpack h
  have habs : IsStored x.toModel.unpack.abs ∧
      unitsOf x.toModel.unpack.abs = unitsOf x.toModel.unpack := by
    cases hu : x.toModel.unpack <;> rw [hu] at hstored <;> exact ⟨hstored, rfl⟩
  obtain ⟨hfinite, hmagnitude⟩ := units_ofUnpacked habs.1
  exact ⟨hfinite, hmagnitude.trans (habs.2.trans hunits)⟩

/-- Below one there are stored numbers up to `1 - 2 ^ -24`. -/
theorem unitsOf_le_of_lt_one {u : UnpackedFloat} (hu : IsStored u) (hsign : signOf u = .positive)
    {hpos : 0 < 2 ^ 23} (h : UnpackedFloat.lt u (.finite .positive (2 ^ 23) (-23) hpos) = true) :
    unitsOf u ≤ 2 ^ 149 - 2 ^ 125 := by
  cases u with
  | notANumber => exact hu.elim
  | infinity s => exact hu.elim
  | zero s => exact Nat.zero_le _
  | finite s m e hm =>
    obtain rfl : s = .positive := hsign
    obtain ⟨hlt, -, -, hfull⟩ := hu
    have hbelow : e < -23 ∨ e = -23 ∧ m < 2 ^ 23 := by
      simpa [UnpackedFloat.lt, UnpackedFloat.compare, Ordering.then_eq_lt,
        Nat.compare_eq_lt, Int.compare_eq_lt] using h
    have hplace : (e + 149).toNat ≤ 125 := by omega
    calc m * 2 ^ (e + 149).toNat
        ≤ (2 ^ 24 - 1) * 2 ^ 125 :=
          Nat.mul_le_mul (Nat.le_sub_one_of_lt hlt) (Nat.pow_le_pow_right (by decide) hplace)
      _ = 2 ^ 149 - 2 ^ 125 := by decide

theorem isFinite_of_abs_lt_one (h : x.abs < 1) : x.isFinite = true := by
  have habs : x.abs = ofUnpacked x.toModel.unpack.abs := rfl
  rw [habs] at h
  show x.toModel.unpack.isFinite = true
  cases hx : x.toModel.unpack with
  | notANumber =>
    have hnone : ¬ ofUnpacked UnpackedFloat.notANumber.abs < 1 := by decide +kernel
    exact absurd (hx ▸ h) hnone
  | infinity s =>
    have hinfinite : ¬ ofUnpacked (UnpackedFloat.infinity s).abs < 1 := by
      cases s <;> decide +kernel
    exact absurd (hx ▸ h) hinfinite
  | zero s => rfl
  | finite s m e hm => rfl

/-- Numbers of magnitude below one are finite, and the greatest of them is `1 - 2 ^ -24`. -/
theorem units_le_of_abs_lt_one (h : x.abs < 1) :
    x.isFinite = true ∧ units x ≤ 2 ^ 149 - 2 ^ 125 := by
  have hone : ∃ hpos, (1 : Float32).toModel.unpack = .finite .positive (2 ^ 23) (-23) hpos :=
    ⟨by decide, rfl⟩
  obtain ⟨hpos, hone⟩ := hone
  have hfinite := isFinite_of_abs_lt_one h
  obtain ⟨habs, hunits⟩ := units_abs hfinite
  obtain ⟨hstored, hmagnitude⟩ := isStored_unpack habs
  rw [lt_iff, hone] at h
  have hle := unitsOf_le_of_lt_one hstored (signOf_of_isNegative (isNegative_abs x)) h
  rw [hmagnitude, hunits] at hle
  exact ⟨hfinite, hle⟩

theorem isNaN_of_abs (h : x.abs.isNaN = true) : x.isNaN = true := by
  have habs : x.abs = ofUnpacked x.toModel.unpack.abs := rfl
  show x.toModel.unpack.isNaN = true
  cases hx : x.toModel.unpack with
  | notANumber => rfl
  | infinity s =>
    have hinfinite : (ofUnpacked (UnpackedFloat.infinity s).abs).isNaN = false := by
      cases s <;> decide +kernel
    rw [habs, hx, hinfinite] at h
    cases h
  | zero s | finite s m e hm =>
    have hfinite : x.isFinite = true := by
      show x.toModel.unpack.isFinite = true
      rw [hx]
      rfl
    rw [isNaN_of_isFinite (units_abs hfinite).1] at h
    cases h

/-- What is not of magnitude one or more is of a smaller one, or not a number. -/
theorem abs_lt_one_or_isNaN (h : ¬1 ≤ x.abs) : x.abs < 1 ∨ x.isNaN = true := by
  rw [le_iff, Bool.not_eq_true] at h
  rcases lt_of_le_eq_false h with hlt | hnan | hone
  · exact .inl (lt_iff.2 hlt)
  · exact .inr (isNaN_of_abs hnan)
  · exact absurd hone (by decide +kernel)

end Binary32

end SpectralCoding
