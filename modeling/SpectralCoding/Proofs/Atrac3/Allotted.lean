import SpectralCoding.Proofs.Atrac3.Quantised
import SpectralCoding.Proofs.Atrac3.SpectrumBudget
import SpectralCoding.Proofs.Atrac3.SpectrumDecoder
import SpectralCoding.Proofs.Layout.Blocks

/-!
# Allotted spectra

What scaling leaves is below one, and no selector quantises it past its greatest mantissa. So every
mantissa of a spectrum that is allotted has a word, and the spectrum can be read back.

* `SpectrumCoding.isBounded_make` : no mantissa of scaled blocks is greater than its selector
  allows.
* `Atrac3.isOver_allocate`, `Atrac3.fault_emit_allocate` : an allotted spectrum is one that the
  decoder reads, and it is written without a fault.
-/

namespace SpectralCoding

namespace Atrac3

namespace SpectrumCoding

variable {blocks : List ScaledBlock} {selectors : List Nat}

theorem isBounded_blockMantissas {b : ScaledBlock} (hb : b.IsScaled) {selector : Nat}
    (hselector : selector ≤ greatestSelector) :
    IsBounded selector (blockMantissas b selector) := by
  unfold blockMantissas
  split
  · exact List.forall_mem_nil _
  · exact isBounded_quantise hb.values (Nat.pos_of_ne_zero ‹_›) hselector

theorem isBounded_make (hblocks : ∀ b ∈ blocks, b.IsScaled)
    (hselectors : ∀ selector ∈ selectors, selector ≤ greatestSelector)
    (hcovered : selectors.length ≤ blocks.length) :
    ∀ i < selectors.length,
      IsBounded (selectors.getD i 0) ((make blocks selectors).mantissas.getD i []) := by
  intro i hi
  have hib : i < blocks.length := Nat.lt_of_lt_of_le hi hcovered
  have hselector : selectors.getD i 0 = selectors[i] := by simp [hi]
  rw [getD_mantissas_make hi hib, hselector]
  exact isBounded_blockMantissas (hblocks _ (List.getElem_mem hib))
    (hselectors _ (List.getElem_mem hi))

end SpectrumCoding

variable (κ : Type) [Dial κ] {a : Allotment}

/-- **An allotted spectrum is one that the decoder reads.** -/
theorem isOver_allocate (hfilled : Layout.atrac3.IsFilledBy a.blocks)
    (hblocks : ∀ b ∈ a.blocks, b.IsScaled)
    (hthresholds : Layout.atrac3.blocks ≤ a.thresholds.length)
    (target : Nat) : (allocate κ a target).IsOver a.blocks := by
  obtain ⟨count, hcount, hpos, hcoding⟩ :=
    exists_allocateFrom_eq κ a target (a.initialCount_pos target)
  have hmost : count ≤ Layout.atrac3.blocks := Nat.le_trans hcount (a.initialCount_le target)
  have hle : count ≤ a.blocks.length := by rwa [hfilled.length]
  obtain ⟨selectors, hmake, hcovered, hselectors⟩ :=
    Allotment.exists_codingFor_eq_make κ target hle
  have hlength : (a.codingFor κ target count).selectors.length = count :=
    Allotment.length_codingFor κ hle (Nat.le_trans hmost hthresholds)
  rw [hmake] at hlength
  have hnonempty : 0 < selectors.length := Nat.lt_of_lt_of_eq hpos hlength.symm
  have hlayout : a.blocks.map (·.values.length) <+: Layout.atrac3.lines :=
    hfilled ▸ List.prefix_rfl
  rw [allocate, hcoding, hmake]
  exact SpectrumCoding.isOver_make hnonempty hcovered hlayout hselectors
    (fun b hb => (hblocks b hb).index) (SpectrumCoding.isBounded_make hblocks hselectors hcovered)

theorem fault_emit_allocate (hfilled : Layout.atrac3.IsFilledBy a.blocks)
    (hblocks : ∀ b ∈ a.blocks, b.IsScaled)
    (hthresholds : Layout.atrac3.blocks ≤ a.thresholds.length)
    (target : Nat) : ((allocate κ a target).emit a.blocks).fault = none :=
  (SpectrumCoding.decodes_emit (isOver_allocate κ hfilled hblocks hthresholds target)).clean

end Atrac3

end SpectralCoding
