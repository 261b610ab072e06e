import SpectralCoding.Bits.Reader
import SpectralCoding.Proofs.Bits.Bytes

/-!
# Reading back what was written

A reader in front of a field reads the field and stands in front of what follows it.

* `read_field`, `skip_bits` : one field, and bits passed over.
* `readMany_fields`, `readManySigned_fields` : a row of fields.
-/

namespace SpectralCoding

theorem signedWord_toNat {bits : List Bool} (h : bits.length = 32) :
    signedWord (Bits.toNat bits) = Bits.toInt bits := by
  obtain ⟨b, rest, rfl⟩ : ∃ b rest, bits = b :: rest :=
    List.exists_cons_of_length_pos (by omega)
  have hrest : rest.length = 31 := by simpa using h
  have hlow := Bits.toNat_lt rest
  rw [hrest] at hlow
  unfold signedWord Bits.toInt
  rw [Bits.toNat_cons, List.length_cons, hrest]
  cases b with
  | false => exact Int.bmod_eq_of_le (by simp) (by simp; omega)
  | true =>
    have hsplit : ((true.toNat * 2 ^ 31 + Bits.toNat rest : Nat) : Int) =
        Bits.toNat rest - 2 ^ 31 + (2 ^ 32 : Nat) := by
      simp
      omega
    rw [hsplit, Int.add_bmod_right]
    refine (Int.bmod_eq_of_le (by omega) (by omega)).trans ?_
    simp

theorem signExtend_toNat (bits : List Bool) (hpos : 0 < bits.length) (hle : bits.length ≤ 32) :
    signExtend (Bits.toNat bits) bits.length = Bits.toInt bits := by
  unfold signExtend
  rw [if_neg (by omega)]
  rcases Nat.lt_or_eq_of_le hle with hlt | hword
  · have hbound := Bits.toNat_lt bits
    have hhead := Bits.headD_eq_testBit hpos
    unfold Bits.toInt
    rw [if_neg (by omega), ← hhead]
    by_cases hsign : bits.headD false = true
    · rw [if_pos hsign, if_pos hsign, Nat.mod_eq_of_lt hbound]
    · rw [if_neg hsign, if_neg hsign]
      have hle : 2 ^ bits.length ≤ 2 ^ 31 := Nat.pow_le_pow_right (by decide) (by omega)
      exact Int.bmod_eq_of_le (by omega) (by omega)
  · rw [if_pos (Nat.le_of_eq hword.symm), signedWord_toNat hword]

namespace BitReader

variable {n width : Nat} {rest : List Bool}

theorem read_bits (bits rest : List Bool) (hpos : 0 < bits.length)
    (hle : bits.length ≤ 32) (n : Nat) :
    read ⟨n, bits ++ rest⟩ bits.length = .ok (Bits.toNat bits, ⟨n + bits.length, rest⟩) := by
  unfold read bitsLeft advance
  rw [if_neg (by omega), if_neg (by omega), if_neg (by simp)]
  simp

theorem read_field (hpos : 0 < width) (hle : width ≤ 32) {v : Nat} (hv : v < 2 ^ width) (n : Nat)
    (rest : List Bool) :
    read ⟨n, Bits.ofNat width v ++ rest⟩ width = .ok (v, ⟨n + width, rest⟩) := by
  have h := read_bits (Bits.ofNat width v) rest (by simpa) (by simpa) n
  rwa [Bits.length_ofNat, Bits.toNat_ofNat_of_lt hv] at h

theorem read_field_mod (hle : width ≤ 32) (v n : Nat) (rest : List Bool) :
    read ⟨n, Bits.ofNat width v ++ rest⟩ width = .ok (v % 2 ^ width, ⟨n + width, rest⟩) := by
  rcases Nat.eq_zero_or_pos width with rfl | hpos
  · rw [Nat.pow_zero, Nat.mod_one]
    rfl
  · have h := read_bits (Bits.ofNat width v) rest (by simpa) (by simpa) n
    rwa [Bits.length_ofNat, Bits.toNat_ofNat] at h

theorem skip_bits (bits rest : List Bool) (n : Nat) :
    skip ⟨n, bits ++ rest⟩ bits.length = .ok ⟨n + bits.length, rest⟩ := by
  unfold skip bitsLeft advance
  rw [if_neg (by simp)]
  simp

theorem readSigned_field (hpos : 0 < width) (hle : width ≤ 32) (v : Int) (n : Nat)
    (rest : List Bool) :
    readSigned ⟨n, Bits.ofInt width v ++ rest⟩ width =
      .ok (Bits.toInt (Bits.ofInt width v), ⟨n + width, rest⟩) := by
  have hlength := Bits.length_ofInt width v
  have hread := read_bits (Bits.ofInt width v) rest (by omega) (by omega) n
  have hextend := signExtend_toNat (Bits.ofInt width v) (by omega) (by omega)
  rw [hlength] at hread hextend
  unfold readSigned
  simp only [hread, hextend]

/-! ### Rows of fields -/

theorem readMany_fields (hpos : 0 < width) (hle : width ≤ 32) {vs : List Nat}
    (hvs : ∀ v ∈ vs, v < 2 ^ width) (n : Nat) (rest : List Bool) :
    readMany ⟨n, (vs.flatMap fun v => Bits.ofNat width v) ++ rest⟩ width vs.length =
      .ok (vs, ⟨n + width * vs.length, rest⟩) := by
  induction vs generalizing n with
  | nil => rfl
  | cons v vs ih =>
    obtain ⟨hv, hvs⟩ := List.forall_mem_cons.1 hvs
    rw [List.flatMap_cons, List.append_assoc, List.length_cons, readMany, read_field hpos hle hv]
    simp only [ih hvs, Nat.mul_succ]
    rw [Nat.add_assoc, Nat.add_comm width]

theorem readManySigned_fields (hpos : 0 < width) (hle : width ≤ 32) (vs : List Int) (n : Nat)
    (rest : List Bool) :
    readManySigned ⟨n, (vs.flatMap fun v => Bits.ofInt width v) ++ rest⟩ width vs.length =
      .ok (vs.map fun v => Bits.toInt (Bits.ofInt width v), ⟨n + width * vs.length, rest⟩) := by
  induction vs generalizing n with
  | nil => rfl
  | cons v vs ih =>
    rw [List.flatMap_cons, List.append_assoc, List.length_cons, readManySigned,
      readSigned_field hpos hle]
    simp only [ih, Nat.mul_succ, List.map_cons]
    rw [Nat.add_assoc, Nat.add_comm width]

end BitReader

end SpectralCoding
