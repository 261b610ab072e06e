/-!
# Bit strings

A bit stream is a list of bits, the most significant bit of every field first.

* `Bits.ofNat`, `Bits.toNat` : a number as a field of given width, and the number a field holds.
* `Bits.ofInt`, `Bits.toInt` : the same in two's complement.
* `Bits.pack`, `Bits.unpack` : bits to bytes, the last byte filled up with zeros, and back.
* `Bits.toNat_ofNat` : a field holds the number modulo two to its width.
-/

namespace SpectralCoding

-- powers and sums are those of the core library, whatever else is imported
attribute [instance (high), default_instance 20000] instPowNat

instance (priority := high) instZeroNat : Zero Nat := Zero.ofOfNat0

namespace Bits

/-- The low `width` bits of `v`, the most significant first. -/
def ofNat : (width : Nat) → (v : Nat) → List Bool
  | 0, _ => []
  | width + 1, v => v.testBit width :: ofNat width v

/-- The number whose binary digits are `bits`, the most significant first. -/
def toNat (bits : List Bool) : Nat :=
  bits.foldl (fun n b => 2 * n + b.toNat) 0

/-- The low `width` bits of `v` in two's complement. -/
def ofInt (width : Nat) (v : Int) : List Bool :=
  ofNat width (v % (2 ^ width : Nat)).toNat

/-- The number that `bits` are in two's complement; no bits are zero. -/
def toInt (bits : List Bool) : Int :=
  if bits.headD false then (toNat bits : Int) - (2 ^ bits.length : Nat) else toNat bits

@[simp] theorem ofNat_zero (v : Nat) : ofNat 0 v = [] := rfl

@[simp] theorem length_ofNat (width v : Nat) : (ofNat width v).length = width := by
  induction width with
  | zero => rfl
  | succ w ih => simp [ofNat, ih]

@[simp] theorem length_ofInt (width : Nat) (v : Int) : (ofInt width v).length = width :=
  length_ofNat ..

theorem foldl_double_add (bits : List Bool) (n : Nat) :
    bits.foldl (fun n b => 2 * n + b.toNat) n = n * 2 ^ bits.length + toNat bits := by
  induction bits generalizing n with
  | nil => simp [toNat]
  | cons b bits ih =>
    simp only [toNat, List.foldl_cons, List.length_cons, Nat.pow_succ]
    rw [ih, ih (2 * 0 + b.toNat)]
    simp only [Nat.mul_zero, Nat.zero_add, Nat.add_mul]
    rw [← Nat.add_assoc]
    congr 2
    rw [Nat.mul_comm 2 n, Nat.mul_assoc, Nat.mul_comm 2]

@[simp] theorem toNat_cons (b : Bool) (bits : List Bool) :
    toNat (b :: bits) = b.toNat * 2 ^ bits.length + toNat bits := by
  simp only [toNat, List.foldl_cons]
  rw [foldl_double_add]
  simp [toNat]

@[simp] theorem toNat_nil : toNat [] = 0 := rfl

theorem toNat_append (a b : List Bool) : toNat (a ++ b) = toNat a * 2 ^ b.length + toNat b := by
  simp only [toNat, List.foldl_append]
  rw [foldl_double_add]
  rfl

theorem toNat_lt (bits : List Bool) : toNat bits < 2 ^ bits.length := by
  induction bits with
  | nil => simp
  | cons b bits ih => cases b <;> simp [Nat.pow_succ] <;> omega

theorem toNat_ofNat (width v : Nat) : toNat (ofNat width v) = v % 2 ^ width := by
  induction width with
  | zero => simp [Nat.mod_one]
  | succ w ih =>
    simp only [ofNat, toNat_cons, length_ofNat, ih]
    rw [Nat.pow_succ, Nat.mod_mul, Nat.testBit_eq_decide_div_mod_eq]
    rcases Nat.mod_two_eq_zero_or_one (v / 2 ^ w) with h | h
    · simp [h]
    · simp [h, Nat.add_comm]

theorem toNat_ofNat_of_lt {width v : Nat} (h : v < 2 ^ width) : toNat (ofNat width v) = v := by
  rw [toNat_ofNat, Nat.mod_eq_of_lt h]

/-! ### Bytes -/

/-- The byte of at most eight bits, filled up with zeros at the low end. -/
def octet (bits : List Bool) : UInt8 :=
  UInt8.ofNat (toNat bits * 2 ^ (8 - bits.length))

/-- The bytes of a bit string, the last one filled up with zeros. -/
def pack : List Bool → List UInt8
  | b₀ :: b₁ :: b₂ :: b₃ :: b₄ :: b₅ :: b₆ :: b₇ :: rest =>
    octet [b₀, b₁, b₂, b₃, b₄, b₅, b₆, b₇] :: pack rest
  | [] => []
  | short => [octet short]

/-- The bits of a byte string. -/
def unpack (bytes : List UInt8) : List Bool :=
  bytes.flatMap fun b => ofNat 8 b.toNat

@[simp] theorem length_unpack (bytes : List UInt8) : (unpack bytes).length = 8 * bytes.length := by
  induction bytes with
  | nil => rfl
  | cons b bytes ih =>
    simp only [unpack, List.flatMap_cons, List.length_append, length_ofNat, List.length_cons]
    simp only [unpack] at ih
    omega

end Bits

end SpectralCoding
