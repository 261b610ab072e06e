import SpectralCoding.Atrac1.Encoder
import SpectralCoding.Proofs.Atrac1.WordLengthBounds
import SpectralCoding.Proofs.Bits.EmissionParts
import SpectralCoding.Proofs.Layout.Blocks

/-!
# The bits of an ATRAC1 sound unit

* `Atrac1.IsCodable` : windows whose fields can be written.
* `SoundUnit.bits_body` : the fields of a unit, one after the other.
* `SoundUnit.length_body` : their number is the cost foretold, for blocks that fill the layout.
* `SoundUnit.emit_of_le` : a unit within its capacity is put out whole.
-/

namespace SpectralCoding

namespace Atrac1

/-- The windows of the three bands fit their fields. -/
def IsCodable (windows : WindowMode) : Prop := windows.low ≤ 2 ∧ windows.mid ≤ 2 ∧ windows.high ≤ 3

theorem isCodable_of_fitsWindowFields {windows : WindowMode} (h : fitsWindowFields windows = true) :
    IsCodable windows := by
  simp [fitsWindowFields, WindowMode.toList, windowLimits] at h
  exact ⟨h.1.1, h.1.2.1, h.1.2.2⟩

namespace SoundUnit

theorem windowFields_of_isCodable {windows : WindowMode} (h : IsCodable windows) :
    windowFields windows =
      .ofBits (Bits.ofNat 2 (2 - windows.low) ++ Bits.ofNat 2 (2 - windows.mid)
        ++ Bits.ofNat 2 (3 - windows.high)) := by
  obtain ⟨hlow, hmid, hhigh⟩ := h
  have hlow' := Nat.not_lt.2 hlow
  have hmid' := Nat.not_lt.2 hmid
  have hhigh' := Nat.not_lt.2 hhigh
  simp [windowFields, windowLimits, WindowMode.toList, Emission.each, hlow', hmid', hhigh',
    Emission.append_def, Emission.append, Emission.field, Emission.ofBits, Emission.empty]

/-- The bits of the mantissas of a block. -/
def mantissaString (block : ScaledBlock) (length : Nat) : List Bool :=
  if length < 2 then [] else block.values.flatMap fun v => Bits.ofInt length (mantissa length v)

theorem mantissas_eq (block : ScaledBlock) (length : Nat) :
    mantissas block length = .ofBits (mantissaString block length) := by
  unfold mantissas mantissaString
  split
  · rfl
  · have hclean : ∀ v ∈ block.values, (Emission.signed length (mantissa length v)).fault = none :=
      fun _ _ => rfl
    have hbits := Emission.bits_each_of_clean hclean
    have hfault := Emission.fault_each_eq_none.2 hclean
    cases hemission : Emission.each block.values fun v => .signed length (mantissa length v) with
    | mk bits fault => simp_all [Emission.ofBits]

variable {u : SoundUnit} {blocks : List ScaledBlock}

theorem fault_body (h : IsCodable u.windows) (blocks : List ScaledBlock) :
    (u.body blocks).fault = none := by
  simp [body, windowFields_of_isCodable h, mantissas_eq, Emission.fault_each_eq_none]

theorem bits_body (h : IsCodable u.windows) (blocks : List ScaledBlock) :
    (u.body blocks).bits =
      Bits.ofNat 2 (2 - u.windows.low) ++ Bits.ofNat 2 (2 - u.windows.mid) ++
        Bits.ofNat 2 (3 - u.windows.high)
        ++ List.replicate 2 false ++ Bits.ofNat indexWidth u.index ++ List.replicate 5 false
        ++ (u.lengths.flatMap fun l => Bits.ofNat lengthWidth (fieldOfLength l))
        ++ ((blocks.take u.lengths.length).flatMap fun b => Bits.ofNat scaleWidth b.index)
        ++ ((blocks.zip u.lengths).flatMap fun (b, l) => mantissaString b l)
        ++ List.replicate trailerBits false := by
  have hclean := fault_body h blocks
  unfold body at hclean ⊢
  rw [Emission.bits_concat_of_clean (Emission.fault_concat_eq_none.1 hclean)]
  simp only [List.flatMap_cons, List.flatMap_nil, List.append_nil, windowFields_of_isCodable h,
    Emission.bits_ofBits, Emission.bits_zeros, Emission.bits_field, mantissas_eq]
  rw [Emission.bits_each_of_clean (by simp), Emission.bits_each_of_clean (by simp),
    Emission.bits_each_of_clean (by simp)]
  simp only [Emission.bits_field, Emission.bits_ofBits, List.append_assoc]

theorem length_mantissaString (block : ScaledBlock) {length : Nat} (h : IsWordLength length) :
    (mantissaString block length).length = length * block.values.length := by
  unfold mantissaString
  split
  · rcases h with rfl | h
    · simp
    · omega
  · simp [List.length_flatMap, List.map_const', Nat.mul_comm]

theorem length_mantissaStrings (blocks : List ScaledBlock) {lengths : List Nat}
    (h : ∀ l ∈ lengths, IsWordLength l) :
    ((blocks.zip lengths).flatMap fun (b, l) => mantissaString b l).length =
      mantissaBits lengths (blocks.map (·.values.length)) := by
  induction blocks generalizing lengths with
  | nil => simp
  | cons b blocks ih =>
    cases lengths with
    | nil => simp
    | cons l lengths =>
      obtain ⟨hl, hlengths⟩ := List.forall_mem_cons.1 h
      simp [length_mantissaString b hl, ih hlengths, mantissaBits_cons]

/-- **The cost foretold is the number of bits written.** -/
theorem length_body (h : IsCodable u.windows) (hblocks : Layout.atrac1.IsFilledBy blocks)
    (hcount : u.lengths.length ≤ blocks.length) (hlengths : ∀ l ∈ u.lengths, IsWordLength l) :
    (u.body blocks).bits.length = cost u.lengths := by
  have hmantissas := length_mantissaStrings blocks hlengths
  rw [hblocks] at hmantissas
  rw [bits_body h]
  simp only [List.length_append, Bits.length_ofNat, List.length_replicate, hmantissas,
    List.length_flatMap, List.map_const', List.sum_replicate_nat, List.length_take,
    Nat.min_eq_left hcount, cost, headerBits, indexWidth, lengthWidth, scaleWidth]
  omega

theorem emit_of_le (h : (u.body blocks).bits.length ≤ unitBits) :
    u.emit blocks = u.body blocks := by
  simp [emit, Nat.not_lt.2 h]

end SoundUnit

end Atrac1

end SpectralCoding
