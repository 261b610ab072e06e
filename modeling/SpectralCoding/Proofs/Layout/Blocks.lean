import SpectralCoding.Block
import SpectralCoding.Proofs.Binary32.Magnitude

/-!
# The blocks of a frame

* `Layout.IsWithin` : every block of a layout lies within the frame, whatever the windows.
* `Layout.IsFilledBy` : blocks with as many values as the layout has lines for them.
* `ScaledBlock.IsScaled` : blocks with values of magnitude below one under one of the scale factors.
* `Layout.isFilledBy_of_scaleFrame`, `Layout.isScaled_of_scaleFrame` : scaling a frame gives such
  blocks.
-/

namespace SpectralCoding

/-- A block as scaling leaves it: every value is of magnitude below one, or not a number. -/
structure ScaledBlock.IsScaled (block : ScaledBlock) : Prop where
  index : block.index < ScaleFactor.count
  values : ∀ v ∈ block.values, v.abs < 1 ∨ v.isNaN = true

theorem clip_cases (v : Float32) : (clip v).abs < 1 ∨ (clip v).isNaN = true := by
  unfold clip
  split
  · split <;> exact .inl (by decide +kernel)
  · exact Binary32.abs_lt_one_or_isNaN ‹_›

namespace Layout

variable {L : Layout} {mode : WindowMode} {spectrum : List Float32}
    {blocks : List ScaledBlock} {block : Nat}

/-- Every block lies within the frame, under long and under short windows. -/
def IsWithin (L : Layout) : Prop :=
  ∀ block < L.blocks, L.longStarts.getD block 0 + L.lines.getD block 0 ≤ L.frameLines ∧
    L.shortStarts.getD block 0 + L.lines.getD block 0 ≤ L.frameLines

theorem isWithin_atrac1 : atrac1.IsWithin := by unfold IsWithin; decide

theorem isWithin_atrac3 : atrac3.IsWithin := by unfold IsWithin; decide

theorem firstLine_add_le (hL : L.IsWithin) (hblock : block < L.blocks) (mode : WindowMode) :
    L.firstLine mode block + L.lines.getD block 0 ≤ L.frameLines := by
  unfold firstLine
  split
  · exact (hL block hblock).2
  · exact (hL block hblock).1

theorem length_blockLines (hL : L.IsWithin) (hlength : spectrum.length = L.frameLines)
    (hblock : block < L.blocks) :
      (L.blockLines mode spectrum block).length = L.lines.getD block 0 := by
  have h := firstLine_add_le hL hblock mode
  simp only [blockLines, List.length_take, List.length_drop]
  omega

@[simp] theorem length_values_scale (values : List Float32) :
    (L.scale values).values.length = values.length := by
  simp [scale]

/-! ### Scaled frames -/

/-- Blocks with as many values as the layout has lines for them. -/
def IsFilledBy (L : Layout) (blocks : List ScaledBlock) : Prop :=
  blocks.map (·.values.length) = L.lines

theorem IsFilledBy.length (h : L.IsFilledBy blocks) : blocks.length = L.blocks := by
  rw [Layout.blocks, ← h, List.length_map]

theorem scaleFrame_of_length (hlength : spectrum.length = L.frameLines) :
    L.scaleFrame spectrum mode =
      .ok ((List.range L.blocks).map fun block => L.scale (L.blockLines mode spectrum block)) :=
  if_pos hlength

theorem scaleFrame_eq_ok (h : L.scaleFrame spectrum mode = .ok blocks) :
    spectrum.length = L.frameLines ∧
      blocks = (List.range L.blocks).map fun block =>
        L.scale (L.blockLines mode spectrum block) := by
  unfold scaleFrame at h
  split at h
  · exact ⟨‹_›, (Except.ok.inj h).symm⟩
  · cases h

theorem isFilledBy_of_scaleFrame (hL : L.IsWithin) (h : L.scaleFrame spectrum mode = .ok blocks) :
    L.IsFilledBy blocks := by
  obtain ⟨hlength, rfl⟩ := scaleFrame_eq_ok h
  apply List.ext_getElem
  · simp [Layout.blocks]
  · intro i hi hi'
    have hblock : i < L.blocks := hi'
    simp [length_blockLines hL hlength hblock, List.getD_eq_getElem?_getD, hi']

theorem isScaled_of_scaleFrame (h : L.scaleFrame spectrum mode = .ok blocks) :
    ∀ b ∈ blocks, b.IsScaled := by
  obtain ⟨-, rfl⟩ := scaleFrame_eq_ok h
  refine List.forall_mem_map.2 fun block _ => ⟨L.scaleIndex_lt _, ?_⟩
  exact List.forall_mem_map.2 fun v _ => clip_cases _

end Layout

end SpectralCoding
