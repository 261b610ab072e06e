import SpectralCoding.Bits.Writer

/-!
# Bits, bytes and two's complement

* `Bits.ofNat_toNat` : a bit string is the field of the number it holds.
* `Bits.ofNat_add`, `Bits.ofNat_congr` : fields taken apart, and told apart by their bits.
* `Bits.unpack_injective`, `Bits.unpack_pack_eq` : bytes are told apart by their bits, and hold
  those that were packed, with zeros up to a whole byte.
* `Bits.toInt_ofInt` : a number within the range of a field survives two's complement.
* `BitWriter.unpack_finish_padTo` : the bytes of a padded stream hold the stream and zeros.
-/

namespace SpectralCoding

namespace Bits

theorem ofNat_add_mul (width n k : Nat) : ofNat width (n + k * 2 ^ width) = ofNat width n := by
  induction width generalizing k with
  | zero => rfl
  | succ w ih =>
    have hsplit : n + k * 2 ^ (w + 1) = n + 2 * k * 2 ^ w := by
      rw [Nat.pow_succ, Nat.mul_comm 2 k, Nat.mul_assoc, Nat.mul_comm 2 (2 ^ w)]
    have hbit : (n + k * 2 ^ (w + 1)).testBit w = n.testBit w := by
      rw [Nat.testBit_eq_decide_div_mod_eq, Nat.testBit_eq_decide_div_mod_eq, hsplit,
        Nat.add_mul_div_right _ _ (Nat.two_pow_pos w), Nat.add_mul_mod_self_left]
    simp only [ofNat]
    rw [hbit, hsplit, ih]

theorem testBit_of_lt {width n : Nat} (h : n < 2 ^ width) (b : Bool) :
    (b.toNat * 2 ^ width + n).testBit width = b := by
  rw [Nat.testBit_eq_decide_div_mod_eq, Nat.add_comm,
    Nat.add_mul_div_right _ _ (Nat.two_pow_pos width), Nat.div_eq_of_lt h]
  cases b <;> decide

theorem ofNat_toNat (bits : List Bool) : ofNat bits.length (toNat bits) = bits := by
  induction bits with
  | nil => rfl
  | cons b bits ih =>
    simp only [List.length_cons, toNat_cons, ofNat]
    rw [testBit_of_lt (toNat_lt bits), Nat.add_comm, ofNat_add_mul, ih]

/-! ### Fields taken apart -/

theorem ofNat_add (a b v : Nat) : ofNat (a + b) v = ofNat a (v / 2 ^ b) ++ ofNat b v := by
  induction a with
  | zero => rw [Nat.zero_add, ofNat_zero, List.nil_append]
  | succ a ih =>
    rw [Nat.add_right_comm, ofNat, ih, ofNat, List.cons_append, Nat.testBit_div_two_pow]

theorem take_ofNat (a b v : Nat) : (ofNat (a + b) v).take a = ofNat a (v / 2 ^ b) := by
  rw [ofNat_add, List.take_left' (length_ofNat ..)]

theorem drop_ofNat (a b v : Nat) : (ofNat (a + b) v).drop a = ofNat b v := by
  rw [ofNat_add, List.drop_left' (length_ofNat ..)]

theorem ofNat_congr {width u v : Nat} (h : ∀ i < width, u.testBit i = v.testBit i) :
    ofNat width u = ofNat width v := by
  induction width with
  | zero => rfl
  | succ width ih =>
    rw [ofNat, ofNat, h width (Nat.lt_succ_self width),
      ih fun i hi => h i (Nat.lt_succ_of_lt hi)]

theorem ofNat_mod_two_pow {width exponent : Nat} (h : width ≤ exponent) (v : Nat) :
    ofNat width (v % 2 ^ exponent) = ofNat width v := by
  refine ofNat_congr fun i hi => ?_
  rw [Nat.testBit_mod_two_pow, decide_eq_true (Nat.lt_of_lt_of_le hi h), Bool.true_and]

theorem ofNat_of_zero (width : Nat) : ofNat width 0 = List.replicate width false := by
  induction width with
  | zero => rfl
  | succ width ih => rw [ofNat, ih, Nat.zero_testBit, List.replicate_succ]

theorem ofNat_mul_two_pow (a b v : Nat) :
    ofNat (a + b) (v * 2 ^ b) = ofNat a v ++ List.replicate b false := by
  have hlow : ofNat b (v * 2 ^ b) = ofNat b 0 := by
    rw [← Nat.zero_add (v * 2 ^ b), ofNat_add_mul]
  rw [ofNat_add, Nat.mul_div_cancel _ (Nat.two_pow_pos b), hlow, ofNat_of_zero]

/-- A field holds the number of which it was made. -/
theorem ofNat_inj {width u v : Nat} (hu : u < 2 ^ width) (hv : v < 2 ^ width)
    (h : ofNat width u = ofNat width v) : u = v := by
  rw [← toNat_ofNat_of_lt hu, h, toNat_ofNat_of_lt hv]

/-! ### Bytes -/

theorem ofNat_octet {bits : List Bool} (h : bits.length = 8) :
    ofNat 8 (octet bits).toNat = bits := by
  have hlt : toNat bits < 2 ^ 8 := h ▸ toNat_lt bits
  have hbyte : (octet bits).toNat = toNat bits := by
    simp only [octet, h, Nat.sub_self, Nat.pow_zero, Nat.mul_one, UInt8.toNat_ofNat']
    exact Nat.mod_eq_of_lt hlt
  rw [hbyte, ← h, ofNat_toNat]

@[simp] theorem unpack_nil : unpack [] = [] := rfl

theorem unpack_cons (byte : UInt8) (bytes : List UInt8) :
    unpack (byte :: bytes) = ofNat 8 byte.toNat ++ unpack bytes := List.flatMap_cons ..

theorem unpack_append (bytes more : List UInt8) :
    unpack (bytes ++ more) = unpack bytes ++ unpack more := List.flatMap_append ..

theorem unpack_singleton (byte : UInt8) : unpack [byte] = ofNat 8 byte.toNat := by
  rw [unpack_cons, unpack_nil, List.append_nil]

theorem drop_unpack (bytes : List UInt8) (n : Nat) :
    (unpack bytes).drop (n * 8) = unpack (bytes.drop n) := by
  rcases Nat.lt_or_ge n bytes.length with hlt | hge
  · have hlength : (unpack (bytes.take n)).length = n * 8 := by
      rw [length_unpack, List.length_take]
      omega
    have hsplit : unpack bytes = unpack (bytes.take n) ++ unpack (bytes.drop n) := by
      rw [← unpack_append, List.take_append_drop]
    rw [hsplit, List.drop_left' hlength]
  · rw [List.drop_of_length_le hge, unpack_nil, List.drop_of_length_le]
    rw [length_unpack]
    omega

theorem unpack_injective : Function.Injective unpack := by
  intro bytes more h
  induction bytes generalizing more with
  | nil =>
    have hlength := congrArg List.length h
    rw [length_unpack, length_unpack, List.length_nil] at hlength
    exact (List.eq_nil_of_length_eq_zero (by omega)).symm
  | cons byte bytes ih =>
    cases more with
    | nil =>
      have hlength := congrArg List.length h
      rw [length_unpack, length_unpack, List.length_cons, List.length_nil] at hlength
      omega
    | cons other more =>
      rw [unpack_cons, unpack_cons] at h
      obtain ⟨hhead, htail⟩ := List.append_inj h (by simp)
      rw [ih htail, UInt8.toNat_inj.1 (ofNat_inj byte.toNat_lt other.toNat_lt hhead)]

/-- Fewer bits than eight fill a byte from its high end. -/
theorem ofNat_octet_of_lt {bits : List Bool} (h : bits.length < 8) :
    ofNat 8 (octet bits).toNat = bits ++ List.replicate (8 - bits.length) false := by
  have hlt : toNat bits * 2 ^ (8 - bits.length) < 2 ^ 8 := by
    refine Nat.lt_of_lt_of_eq
      (Nat.mul_lt_mul_of_pos_right (toNat_lt bits) (Nat.two_pow_pos (8 - bits.length))) ?_
    rw [← Nat.pow_add, Nat.add_sub_cancel' (Nat.le_of_lt h)]
  have hfield := ofNat_mul_two_pow bits.length (8 - bits.length) (toNat bits)
  rw [Nat.add_sub_cancel' (Nat.le_of_lt h), ofNat_toNat] at hfield
  rw [octet, UInt8.toNat_ofNat', Nat.mod_eq_of_lt hlt, hfield]

/-- Bytes hold the bits that were packed, and zeros up to a whole byte. -/
theorem unpack_pack_eq (bits : List Bool) :
    unpack (pack bits) =
      bits ++ List.replicate ((bits.length + 7) / 8 * 8 - bits.length) false := by
  fun_induction pack bits with
  | case1 b₀ b₁ b₂ b₃ b₄ b₅ b₆ b₇ rest ih =>
    have hhead := ofNat_octet (show [b₀, b₁, b₂, b₃, b₄, b₅, b₆, b₇].length = 8 from rfl)
    have hzeros : (rest.length + 8 + 7) / 8 * 8 - (rest.length + 8) =
        (rest.length + 7) / 8 * 8 - rest.length := by omega
    rw [unpack_cons, hhead, ih]
    simp only [List.length_cons, hzeros, List.cons_append, List.nil_append]
  | case2 => rfl
  | case3 short hlong hshort =>
    have hlt : short.length < 8 := by
      rcases short with _ | ⟨_, _ | ⟨_, _ | ⟨_, _ | ⟨_, _ | ⟨_, _ | ⟨_, _ | ⟨_, _ | ⟨_, rest⟩⟩⟩⟩⟩⟩⟩⟩
      case cons.cons.cons.cons.cons.cons.cons.cons => exact (hlong _ _ _ _ _ _ _ _ _ rfl).elim
      all_goals simp
    have hpos : 0 < short.length := List.length_pos_iff.2 hshort
    have hzeros : (short.length + 7) / 8 * 8 - short.length = 8 - short.length := by omega
    rw [unpack_singleton, ofNat_octet_of_lt hlt, hzeros]

/-- Whole bytes are unpacked as they were packed. -/
theorem unpack_pack {bits : List Bool} (h : 8 ∣ bits.length) : unpack (pack bits) = bits := by
  have hnone : (bits.length + 7) / 8 * 8 - bits.length = 0 := by omega
  rw [unpack_pack_eq, hnone, List.replicate_zero, List.append_nil]

theorem pack_unpack (bytes : List UInt8) : pack (unpack bytes) = bytes :=
  unpack_injective (unpack_pack ⟨bytes.length, length_unpack bytes⟩)

/-! ### Two's complement -/

theorem headD_eq_testBit {bits : List Bool} (h : 0 < bits.length) :
    bits.headD false = (toNat bits).testBit (bits.length - 1) := by
  cases bits with
  | nil => cases h
  | cons b bits => simp [testBit_of_lt (toNat_lt bits)]

theorem testBit_of_nonneg {w : Nat} {v : Int} (hle : 0 ≤ v) (hlt : v < 2 ^ w) :
    (v % (2 ^ (w + 1) : Nat)).toNat = v.toNat ∧ v.toNat.testBit w = false := by
  have hpow : ((2 ^ w : Nat) : Int) = 2 ^ w := by simp
  have hbound : v < (2 ^ (w + 1) : Nat) := by
    rw [Nat.pow_succ]
    omega
  rw [Int.emod_eq_of_lt hle hbound]
  exact ⟨rfl, Nat.testBit_lt_two_pow (by omega)⟩

theorem testBit_of_neg {w : Nat} {v : Int} (hle : -2 ^ w ≤ v) (hlt : v < 0) :
    ((v % (2 ^ (w + 1) : Nat)).toNat : Int) = v + (2 ^ (w + 1) : Nat) ∧
      (v % (2 ^ (w + 1) : Nat)).toNat.testBit w = true := by
  have hpow : ((2 ^ w : Nat) : Int) = 2 ^ w := by simp
  have hdouble : (2 ^ (w + 1) : Nat) = 2 * 2 ^ w := by rw [Nat.pow_succ, Nat.mul_comm]
  have hmod : v % (2 ^ (w + 1) : Nat) = v + (2 ^ (w + 1) : Nat) := by
    rw [← Int.add_emod_right, Int.emod_eq_of_lt] <;> omega
  rw [hmod]
  refine ⟨Int.toNat_of_nonneg (by omega), ?_⟩
  exact Nat.testBit_of_two_pow_le_and_two_pow_add_one_gt (by omega) (by omega)

/-- A number within the range of a field survives two's complement. -/
theorem toInt_ofInt {width : Nat} {v : Int} (hwidth : 0 < width) (hle : -2 ^ (width - 1) ≤ v)
    (hlt : v < 2 ^ (width - 1)) : toInt (ofInt width v) = v := by
  obtain ⟨w, rfl⟩ : ∃ w, width = w + 1 := ⟨width - 1, by omega⟩
  rw [Nat.add_sub_cancel] at hle hlt
  have hvalue : toNat (ofInt (w + 1) v) = (v % (2 ^ (w + 1) : Nat)).toNat := by
    rw [ofInt, toNat_ofNat]
    have hpos : (0 : Int) < (2 ^ (w + 1) : Nat) := by exact_mod_cast Nat.two_pow_pos (w + 1)
    have hmod := Int.emod_lt_of_pos v hpos
    exact Nat.mod_eq_of_lt (by omega)
  have hhead : (ofInt (w + 1) v).headD false = (v % (2 ^ (w + 1) : Nat)).toNat.testBit w := by
    rw [headD_eq_testBit (by simp), hvalue]
    simp
  unfold toInt
  rw [hhead, hvalue, length_ofInt]
  by_cases hneg : v < 0
  · obtain ⟨hsum, hbit⟩ := testBit_of_neg hle hneg
    rw [hbit, if_pos rfl]
    omega
  · obtain ⟨hsame, hbit⟩ := testBit_of_nonneg (Int.not_lt.1 hneg) hlt
    rw [hsame, hbit, if_neg Bool.false_ne_true]
    omega

end Bits

/-! ### Streams -/

namespace BitWriter

theorem unpack_finish_padTo {w : BitWriter} {bytes : Nat} (h : w.size ≤ 8 * bytes) :
    Bits.unpack (w.padTo (8 * bytes)).finish = w.bits ++
      List.replicate (8 * bytes - w.size) false := by
  have hsize : (w.padTo (8 * bytes)).bits.length = 8 * bytes := by
    have hmax := size_padTo w (8 * bytes)
    rwa [Nat.max_eq_right h] at hmax
  rw [finish, Bits.unpack_pack ⟨bytes, hsize⟩]
  rfl

theorem length_finish_padTo {w : BitWriter} {bytes : Nat} (h : w.size ≤ 8 * bytes) :
    (w.padTo (8 * bytes)).finish.length = bytes := by
  have hlength := Bits.length_unpack (w.padTo (8 * bytes)).finish
  rw [unpack_finish_padTo h, List.length_append, List.length_replicate] at hlength
  unfold size at h hlength
  omega

/-- Bits padded to a number of bytes that has room for them. -/
theorem length_finish_of_le {bits : List Bool} {bytes : Nat} (h : bits.length ≤ bytes * 8) :
    ((empty.append bits).padTo (bytes * 8)).finish.length = bytes := by
  rw [Nat.mul_comm] at h ⊢
  apply length_finish_padTo
  rwa [size, bits_append, bits_empty, List.nil_append]

end BitWriter

end SpectralCoding
