import SpectralCoding.Proofs.Atrac3.MantissaDecoder
import SpectralCoding.Proofs.Atrac3.SpectrumCost

/-!
# Reading a spectrum back

The selectors tell which blocks have a scale factor and mantissas, and the layout tells how many
mantissas a block has.

* `Atrac3.StoredSpectrum` : what a sound unit says of a spectrum.
* `Atrac3.readSpectrum` : the decoder.
* `SpectrumCoding.IsOver` : a coding over blocks of the layout.
* `SpectrumCoding.isOver_make` : blocks quantised with given selectors are coded so.
* `SpectrumCoding.decodes_emit` : the decoder undoes such a coding.
-/

namespace SpectralCoding

namespace Atrac3

/-! ### The decoder -/

/-- What a sound unit says of a spectrum. -/
structure StoredSpectrum where
  /-- The selector of every block. -/
  selectors : List Nat
  /-- The scale factor index of every block, none for a silent one. -/
  indices : List (Option Nat)
  /-- The mantissas of every block, none for a silent one. -/
  mantissas : List (List Int)
  deriving DecidableEq, Repr

/-- Read the scale factor index of a block. -/
def readIndex (selector : Nat) : Decoder (Option Nat) :=
  if selector = 0 then return none else some <$> .field 6

/-- Read the mantissas of a block, given its selector and the number of its lines. -/
def readBlock (isFixed : Bool) (block : Nat × Nat) : Decoder (List Int) :=
  if block.1 = 0 then return [] else readMantissas isFixed block.1 block.2

/-- Read a spectrum. -/
def readSpectrum : Decoder StoredSpectrum := do
  let count ← .positive 5
  let isFixed ← .flag
  let selectors ← .times count (.field 3)
  let indices ← selectors.mapM readIndex
  let mantissas ← (selectors.zip Layout.atrac3.lines).mapM (readBlock isFixed)
  return { selectors, indices, mantissas }

namespace SpectrumCoding

/-- What a sound unit says of a spectrum. -/
def stored (c : SpectrumCoding) (blocks : List ScaledBlock) : StoredSpectrum where
  selectors := c.selectors
  indices := (blocks.zip c.selectors).map fun (b, selector) =>
    if selector = 0 then none else some b.index
  mantissas := c.mantissas

/-- A coding over blocks of the layout: a silent block has no mantissas, another one has as many as
lines, none of which is greater than its selector allows. -/
structure IsOver (blocks : List ScaledBlock) (c : SpectrumCoding) : Prop where
  nonempty : 0 < c.selectors.length
  covered : c.selectors.length ≤ blocks.length
  inLayout : c.selectors.length ≤ Layout.atrac3.blocks
  selector : ∀ selector ∈ c.selectors, selector ≤ greatestSelector
  index : ∀ b ∈ blocks, b.index < ScaleFactor.count
  length : c.mantissas.length = c.selectors.length
  filled : ∀ i < c.selectors.length, (c.mantissas.getD i []).length =
    if c.selectors.getD i 0 = 0 then 0 else Layout.atrac3.lines.getD i 0
  bounded : ∀ i < c.selectors.length, IsBounded (c.selectors.getD i 0) (c.mantissas.getD i [])

variable {blocks : List ScaledBlock} {c : SpectrumCoding}

theorem getD_mantissas_make {selectors : List Nat} {i : Nat} (hi : i < selectors.length)
    (hib : i < blocks.length) :
    (make blocks selectors).mantissas.getD i [] = blockMantissas blocks[i] selectors[i] := by
  have hmantissas : (make blocks selectors).mantissas =
      List.zipWith blockMantissas blocks selectors := rfl
  rw [hmantissas, List.getD_eq_getElem?_getD, List.getElem?_zipWith_eq_some.2
    ⟨_, _, List.getElem?_eq_getElem hib, List.getElem?_eq_getElem hi, rfl⟩, Option.getD_some]

theorem length_mantissas_make {selectors : List Nat} (hcovered : selectors.length ≤ blocks.length)
    (hlayout : blocks.map (·.values.length) <+: Layout.atrac3.lines) {i : Nat}
    (hi : i < selectors.length) :
    ((make blocks selectors).mantissas.getD i []).length =
      if selectors.getD i 0 = 0 then 0 else Layout.atrac3.lines.getD i 0 := by
  have hib : i < blocks.length := Nat.lt_of_lt_of_le hi hcovered
  have hlines : Layout.atrac3.lines.getD i 0 = blocks[i].values.length := by
    obtain ⟨rest, hrest⟩ := hlayout
    rw [← hrest, List.getD_eq_getElem?_getD, List.getElem?_append_left (by simpa using hib)]
    simp [hib]
  have hselector : selectors.getD i 0 = selectors[i] := by simp [hi]
  rw [hlines, getD_mantissas_make hi hib, hselector, blockMantissas]
  split
  · rfl
  · exact length_quantise ..

theorem isOver_make {selectors : List Nat} (hnonempty : 0 < selectors.length)
    (hcovered : selectors.length ≤ blocks.length)
    (hlayout : blocks.map (·.values.length) <+: Layout.atrac3.lines)
    (hselector : ∀ selector ∈ selectors, selector ≤ greatestSelector)
    (hindex : ∀ b ∈ blocks, b.index < ScaleFactor.count)
    (hbounded : ∀ i < selectors.length,
      IsBounded (selectors.getD i 0) ((make blocks selectors).mantissas.getD i [])) :
    (make blocks selectors).IsOver blocks where
  nonempty := hnonempty
  covered := hcovered
  inLayout := by
    have hle := hlayout.length_le
    rw [List.length_map] at hle
    exact Nat.le_trans hcovered hle
  selector := hselector
  index := hindex
  length := List.length_zipWith.trans (Nat.min_eq_right hcovered)
  filled := fun _ hi => length_mantissas_make hcovered hlayout hi
  bounded := hbounded

/-! ### The fields of a block -/

theorem decodes_scaleField {b : ScaledBlock} (hindex : b.index < ScaleFactor.count)
    (selector : Nat) :
    Decodes (readIndex selector) (scaleField b selector)
      (if selector = 0 then none else some b.index) := by
  unfold readIndex scaleField
  split
  · exact .pure none
  · exact (decodes_field (by decide) hindex).map some

theorem decodes_mantissaFields (isFixed : Bool) {selector lines : Nat} {ms : List Int}
    (hselector : selector ≤ greatestSelector)
    (hlength : ms.length = if selector = 0 then 0 else lines) (hms : IsBounded selector ms) :
    Decodes (readBlock isFixed (selector, lines)) (mantissaFields isFixed ms selector) ms := by
  unfold readBlock mantissaFields
  by_cases hsilent : selector = 0
  · rw [if_pos hsilent] at hlength
    rw [if_pos hsilent, if_pos hsilent, List.eq_nil_of_length_eq_zero hlength]
    exact .pure []
  · rw [if_neg hsilent] at hlength
    rw [if_neg hsilent, if_neg hsilent, ← hlength]
    exact decodes_mantissas isFixed (Nat.pos_of_ne_zero hsilent) hselector hms

/-! ### All blocks -/

theorem decodes_indices (h : c.IsOver blocks) :
    Decodes (c.selectors.mapM readIndex)
      (.each (blocks.zip c.selectors) fun (b, selector) => scaleField b selector)
      (c.stored blocks).indices := by
  have hentry : ∀ entry ∈ blocks.zip c.selectors,
      Decodes (readIndex entry.2) (scaleField entry.1 entry.2)
        (if entry.2 = 0 then none else some entry.1.index) :=
    fun entry hentry => decodes_scaleField (h.index _ (List.of_mem_zip hentry).1) entry.2
  have hread := Decodes.mapM Prod.snd hentry
  rwa [List.map_snd_zip h.covered] at hread

theorem decodes_blocks (h : c.IsOver blocks) :
    Decodes ((c.selectors.zip Layout.atrac3.lines).mapM (readBlock c.isFixed))
      (.each (c.mantissas.zip c.selectors) fun (ms, selector) =>
        mantissaFields c.isFixed ms selector) c.mantissas := by
  -- the blocks with all that either side knows of them
  let entries := (c.mantissas.zip c.selectors).zip Layout.atrac3.lines
  have hwritten : entries.map Prod.fst = c.mantissas.zip c.selectors := by
    refine List.map_fst_zip ?_
    rw [List.length_zip, h.length, Nat.min_self]
    exact h.inLayout
  have hknown : entries.map (Prod.map Prod.snd id) = c.selectors.zip Layout.atrac3.lines := by
    rw [← List.zip_map_left, List.map_snd_zip (Nat.le_of_eq h.length.symm)]
  have hms : entries.map (fun entry => entry.1.1) = c.mantissas := by
    have hfst : entries.map (fun entry => entry.1.1) = (entries.map Prod.fst).map Prod.fst := by
      rw [List.map_map]
      rfl
    rw [hfst, hwritten, List.map_fst_zip (Nat.le_of_eq h.length)]
  have hentry : ∀ entry ∈ entries,
      Decodes (readBlock c.isFixed (Prod.map Prod.snd id entry))
        (mantissaFields c.isFixed entry.1.1 entry.1.2) entry.1.1 := by
    rintro ⟨⟨ms, selector⟩, lines⟩ hentry
    obtain ⟨i, hi⟩ := List.mem_iff_getElem?.1 hentry
    obtain ⟨hpair, hlines⟩ := List.getElem?_zip_eq_some.1 hi
    obtain ⟨hms, hselector⟩ := List.getElem?_zip_eq_some.1 hpair
    have hcount : i < c.selectors.length := (List.getElem?_eq_some_iff.1 hselector).1
    have hfilled := h.filled i hcount
    have hbounded := h.bounded i hcount
    simp only [List.getD_eq_getElem?_getD, hselector, hms, hlines, Option.getD_some]
      at hfilled hbounded
    exact decodes_mantissaFields c.isFixed (h.selector _ (List.mem_of_getElem? hselector)) hfilled
      hbounded
  have hread := Decodes.mapM (Prod.map Prod.snd id) hentry
  rw [hknown, hms] at hread
  rwa [← hwritten, Emission.each_map]

/-- The decoder undoes a coding over blocks of the layout. -/
theorem decodes_emit (h : c.IsOver blocks) :
    Decodes readSpectrum (c.emit blocks) (c.stored blocks) := by
  have hnonempty := h.nonempty
  have hlayout := h.inLayout
  have hemit : c.emit blocks = .concat
      [.field 5 (c.selectors.length - 1), .flag c.isFixed, .each c.selectors (.field 3),
        .each (blocks.zip c.selectors) fun (b, selector) => scaleField b selector,
        .each (c.mantissas.zip c.selectors) fun (ms, selector) =>
          mantissaFields c.isFixed ms selector] := by
    unfold emit
    exact if_neg (by omega)
  have hcount : Decodes (.positive 5) (.field 5 (c.selectors.length - 1)) c.selectors.length :=
    decodes_positive (by decide) hnonempty hlayout
  have hselectors : Decodes (.times c.selectors.length (.field 3)) (.each c.selectors (.field 3))
      c.selectors :=
    .times_self fun selector hselector =>
      decodes_field (by decide) (Nat.lt_succ_of_le (h.selector selector hselector))
  rw [hemit]
  exact hcount.bind ((decodes_flag c.isFixed).bind (hselectors.bind
    ((decodes_indices h).bind ((decodes_blocks h).bind (.pure _)))))

end SpectrumCoding

end Atrac3

end SpectralCoding
