import SpectralCoding.Proofs.Atrac1.ReadBlocks

/-!
# An ATRAC1 sound unit read back

* `Atrac1.readWindows_fields` : the window fields are read back.
* `Atrac1.entries_eq` : the blocks that the reader goes through are the rows that were written, and
  silent blocks.
* `Atrac1.dequantise_unit` : **what is read from a unit is what was written.**
-/

namespace SpectralCoding

namespace Atrac1

theorem readWindows_fields {windows : WindowMode} (h : IsCodable windows) (n : Nat)
    (rest : List Bool) :
    readWindows 0 windowLimits ⟨n,
      Bits.ofNat 2 (2 - windows.low) ++ (Bits.ofNat 2 (2 - windows.mid) ++
      (Bits.ofNat 2 (3 - windows.high) ++ rest))⟩ =
        .ok ([windows.low, windows.mid, windows.high], ⟨n + 2 + 2 + 2, rest⟩) := by
  obtain ⟨hlow, hmid, hhigh⟩ := h
  have hread {v : Nat} (hv : v < 4) (n : Nat) (rest : List Bool) :
      BitReader.read ⟨n, Bits.ofNat 2 v ++ rest⟩ 2 = .ok (v, ⟨n + 2, rest⟩) :=
    BitReader.read_field (by decide) (by decide) hv n rest
  have hback {limit v : Nat} (hv : v ≤ limit) : limit - (limit - v) = v := by omega
  simp only [windowLimits, readWindows, bind, Except.bind, pure, Except.pure]
  rw [hread (by omega)]
  simp only
  rw [if_neg (by omega), hread (by omega)]
  simp only
  rw [if_neg (by omega), hread (by omega)]
  simp only
  rw [if_neg (by omega), hback hlow, hback hmid, hback hhigh]

/-! ### Rows -/

theorem zip_eq_map_range {α β : Type} {xs : List α} {ys : List β} {n : Nat} (hx : n ≤ xs.length)
    (hy : ys.length = n) (a : α) (b : β) :
    xs.zip ys = (List.range n).map fun i => (xs.getD i a, ys.getD i b) := by
  apply List.ext_getElem
  · simp
    omega
  · intro i hi hi'
    have hlt : i < n := by simpa using hi'
    simp [List.getD_eq_getElem?_getD, Nat.lt_of_lt_of_le hlt hx, hy ▸ hlt]

/-- The rows of a unit. -/
def rowsOf (blocks : List ScaledBlock) (lengths : List Nat) : List Row :=
  (List.range lengths.length).map fun i => ⟨i, blocks.getD i default, lengths.getD i 0⟩

variable {blocks : List ScaledBlock} {lengths : List Nat}

theorem bits_rowsOf (hcount : lengths.length ≤ blocks.length) :
    (rowsOf blocks lengths).flatMap Row.bits =
      (blocks.zip lengths).flatMap fun (b, l) => SoundUnit.mantissaString b l := by
  rw [zip_eq_map_range hcount rfl default 0, rowsOf, List.flatMap_map, List.flatMap_map]
  rfl

theorem isSound_of_mem_rowsOf (hblocks : Layout.atrac1.IsFilledBy blocks)
    (hcount : lengths.length ≤ blocks.length) (hlengths : ∀ l ∈ lengths, IsWordLength l) {r : Row}
    (h : r ∈ rowsOf blocks lengths) : r.IsSound := by
  obtain ⟨i, hi, rfl⟩ := List.mem_map.1 h
  have hlt : i < lengths.length := List.mem_range.1 hi
  have hlt' : i < blocks.length := Nat.lt_of_lt_of_le hlt hcount
  refine ⟨hblocks.length ▸ hlt', ?_, ?_⟩
  · rw [← hblocks]
    simp [List.getD_eq_getElem?_getD, hlt']
  · simp only [List.getD_eq_getElem?_getD, List.getElem?_eq_getElem hlt, Option.getD_some]
    exact hlengths _ (List.getElem_mem hlt)

theorem pairwise_rowsOf (blocks : List ScaledBlock) (lengths : List Nat) :
    (rowsOf blocks lengths).Pairwise (·.block ≠ ·.block) := by
  rw [rowsOf, List.pairwise_map]
  exact List.nodup_range

theorem getD_padded (n : Nat) (xs : List Nat) (i : Nat) : (padded n xs).getD i 0 = xs.getD i 0 := by
  simp only [padded, List.getD_eq_getElem?_getD]
  by_cases hi : i < xs.length
  · rw [List.getElem?_append_left hi]
  · rw [List.getElem?_append_right (by omega), List.getElem?_eq_none (l := xs) (by omega),
      List.getElem?_replicate]
    split <;> rfl

theorem length_padded {n : Nat} {xs : List Nat} (h : xs.length ≤ n) : (padded n xs).length = n := by
  simp only [padded, List.length_append, List.length_replicate]
  omega

/-- The blocks that the reader goes through are the rows that were written, and silent blocks. -/
theorem entries_eq (hcount : lengths.length ≤ blocks.length)
    (hblocks : blocks.length = Layout.atrac1.blocks) :
    ∃ tail : List (Nat × Nat × Nat), (∀ e ∈ tail, e.2.1 = 0) ∧
      (List.range Layout.atrac1.blocks).zip ((padded Layout.atrac1.blocks lengths).zip
        (padded Layout.atrac1.blocks ((blocks.take lengths.length).map (·.index)))) =
          (rowsOf blocks lengths).map Row.entry ++ tail := by
  have hlengths : lengths.length ≤ Layout.atrac1.blocks := hblocks ▸ hcount
  have hscales : ((blocks.take lengths.length).map (·.index)).length = lengths.length := by
    rw [List.length_map, List.length_take, Nat.min_eq_left hcount]
  have hentries : (List.range Layout.atrac1.blocks).zip ((padded Layout.atrac1.blocks lengths).zip
      (padded Layout.atrac1.blocks ((blocks.take lengths.length).map (·.index)))) =
        (List.range Layout.atrac1.blocks).map fun i =>
          (i, lengths.getD i 0, ((blocks.take lengths.length).map (·.index)).getD i 0) := by
    rw [zip_eq_map_range (Nat.le_of_eq (length_padded hlengths).symm)
      (length_padded (Nat.le_trans (Nat.le_of_eq hscales) hlengths)) 0 0]
    simp only [getD_padded]
    rw [show ∀ (l : List Nat) (f : Nat → Nat × Nat), l.zip (l.map f) = l.map fun i => (i, f i) from
      fun l f => by simpa using List.zip_map' (f := id) (g := f) (l := l)]
  obtain ⟨more, hmore⟩ := Nat.exists_eq_add_of_le hlengths
  rw [hentries, hmore, List.range_add, List.map_append]
  refine ⟨_, ?_, congrArg (· ++ _) ?_⟩
  · simp only [List.mem_map]
    rintro _ ⟨_, ⟨i, -, rfl⟩, rfl⟩
    simp [List.getD_eq_getElem?_getD]
  · rw [rowsOf, List.map_map]
    apply List.map_congr_left
    intro i hi
    have hlt : i < lengths.length := List.mem_range.1 hi
    have hlt' : i < blocks.length := Nat.lt_of_lt_of_le hlt hcount
    simp [Row.entry, List.getD_eq_getElem?_getD, hlt, hlt']

/-! ### Units -/

theorem isShort_withoutTop (windows : WindowMode) (block : Nat) :
    ({ windows with top := 0 } : WindowMode).isShort (Layout.atrac1.bandOf block) =
      windows.isShort (Layout.atrac1.bandOf block) := by
  have hband : Layout.atrac1.bandOf block ≤ 2 := Nat.min_le_right ..
  unfold WindowMode.isShort WindowMode.toList
  match Layout.atrac1.bandOf block, hband with
  | 0, _ => rfl
  | 1, _ => rfl
  | 2, _ => rfl

theorem firstLine_withoutTop (windows : WindowMode) (block : Nat) :
    Layout.atrac1.firstLine { windows with top := 0 } block =
      Layout.atrac1.firstLine windows block := by
  rw [Layout.firstLine_eq, Layout.firstLine_eq, isShort_withoutTop]

/-- The fields before the mantissas are read back, and the mantissas are read from what follows
them. -/
theorem dequantise_fields {bytes : List UInt8} {windows : WindowMode} {index : Nat}
    (fields scales : List Nat) {rest : List Bool} {spectrum : List Float32}
    (hbytes : bytes.length = unitBytes) (hwindows : IsCodable windows)
    (hcount : blockCounts[index]? = some fields.length) (hscales : scales.length = fields.length)
    (hfields : ∀ f ∈ fields, f < 2 ^ lengthWidth) (hindices : ∀ s ∈ scales, s < 2 ^ scaleWidth)
    (hmantissas : ∀ n, ∃ r', readBlocks { windows with top := 0 }
      ((List.range Layout.atrac1.blocks).zip
        ((padded Layout.atrac1.blocks (fields.map lengthOfField)).zip
        (padded Layout.atrac1.blocks scales)))
          (List.replicate Layout.atrac1.frameLines 0) ⟨n, rest⟩ =
          .ok (spectrum, r'))
    (hbits : Bits.unpack bytes =
      Bits.ofNat 2 (2 - windows.low) ++
        (Bits.ofNat 2 (2 - windows.mid) ++ (Bits.ofNat 2 (3 - windows.high) ++
        (List.replicate 2 false ++ (Bits.ofNat indexWidth index ++ (List.replicate 5 false ++
          ((fields.flatMap fun f => Bits.ofNat lengthWidth f) ++
            ((scales.flatMap fun s => Bits.ofNat scaleWidth s) ++ rest)))))))) :
    dequantise bytes = .ok
      { windows := { windows with top := 0 }, index,
        lengths := padded Layout.atrac1.blocks (fields.map lengthOfField),
        scales := padded Layout.atrac1.blocks scales, spectrum } := by
  have hindex : index < 2 ^ indexWidth := by
    obtain ⟨h, -⟩ := List.getElem?_eq_some_iff.1 hcount
    exact h
  have hcount' : blockCounts.getD index 0 = fields.length := by
    rw [List.getD_eq_getElem?_getD, hcount, Option.getD_some]
  have hskip (k n : Nat) (rest : List Bool) :
      BitReader.skip ⟨n, List.replicate k false ++ rest⟩ k = .ok ⟨n + k, rest⟩ := by
    have h := BitReader.skip_bits (List.replicate k false) rest n
    rwa [List.length_replicate] at h
  have hmany := fun n rest => BitReader.readMany_fields (by decide) (by decide) hfields n rest
  have hscale := fun n rest => BitReader.readMany_fields (by decide) (by decide) hindices n rest
  rw [hscales] at hscale
  unfold dequantise
  rw [if_neg (by omega), List.take_of_length_le (Nat.le_of_eq hbytes), BitReader.ofBytes, hbits]
  simp only [bind, Except.bind, pure, Except.pure, readWindows_fields hwindows, hskip,
    BitReader.read_field (show 0 < indexWidth by decide) (by decide) hindex, hcount', hmany, hscale]
  have hlist : WindowMode.ofList [windows.low, windows.mid, windows.high] =
      { windows with top := 0 } := rfl
  obtain ⟨r', hread⟩ := hmantissas (0 + 2 + 2 + 2 + 2 + indexWidth + 5 + lengthWidth * fields.length
    + scaleWidth * fields.length)
  rw [hlist, hread]

theorem fieldOfLength_lt {l : Nat} (h : IsWordLength l) : fieldOfLength l < 2 ^ lengthWidth := by
  unfold IsWordLength greatestLength at h
  unfold fieldOfLength lengthWidth
  omega

theorem map_lengthOfField {lengths : List Nat} (h : ∀ l ∈ lengths, IsWordLength l) :
    (lengths.map fieldOfLength).map lengthOfField = lengths := by
  rw [List.map_map]
  refine (List.map_congr_left ?_).trans (List.map_id lengths)
  intro l hl
  have hne : l ≠ 1 := by
    have hfits := h l hl
    unfold IsWordLength at hfits
    omega
  exact lengthOfField_fieldOfLength hne

/-- The bytes of a unit within its capacity. -/
def bytesOf (u : SoundUnit) (blocks : List ScaledBlock) : List UInt8 :=
  ((BitWriter.empty.append (u.emit blocks).bits).padTo unitBits).finish

theorem unpack_bytesOf {u : SoundUnit} (hfits : (u.body blocks).bits.length ≤ unitBits) :
    (bytesOf u blocks).length = unitBytes ∧
      ∃ pad, Bits.unpack (bytesOf u blocks) = (u.body blocks).bits ++ List.replicate pad false := by
  have hsize : (BitWriter.empty.append (u.body blocks).bits).size ≤ 8 * unitBytes := by
    simpa [BitWriter.size, unitBits, Nat.mul_comm] using hfits
  unfold bytesOf
  rw [SoundUnit.emit_of_le hfits, show unitBits = 8 * unitBytes from rfl]
  refine ⟨BitWriter.length_finish_padTo hsize, _, BitWriter.unpack_finish_padTo hsize⟩

/-- A unit is read to its end, and its spectrum shows the rows that were written. -/
theorem dequantise_bytesOf {u : SoundUnit} (hcount : blockCounts[u.index]? = some u.lengths.length)
    (hwindows : IsCodable u.windows) (hlengths : ∀ l ∈ u.lengths, IsWordLength l)
    (hblocks : Layout.atrac1.IsFilledBy blocks) (hle : u.lengths.length ≤ blocks.length)
    (hindices : ∀ b ∈ blocks, b.index ≤ 63) (hfits : (u.body blocks).bits.length ≤ unitBits) :
    ∃ spectrum, Shows { u.windows with top := 0 } (rowsOf blocks u.lengths)
        (List.replicate Layout.atrac1.frameLines 0) spectrum ∧
      dequantise (bytesOf u blocks) = .ok
        { windows := { u.windows with top := 0 }, index := u.index,
          lengths := padded Layout.atrac1.blocks u.lengths,
          scales := padded Layout.atrac1.blocks ((blocks.take u.lengths.length).map (·.index)),
          spectrum } := by
  obtain ⟨hbytes, pad, hunpack⟩ := unpack_bytesOf hfits
  obtain ⟨tail, htail, hentries⟩ := entries_eq hle hblocks.length
  have hsound : ∀ r ∈ rowsOf blocks u.lengths, r.IsSound := fun r hr =>
    isSound_of_mem_rowsOf hblocks hle hlengths hr
  have hsilence : (List.replicate Layout.atrac1.frameLines (0 : Float32)).length =
      Layout.atrac1.frameLines :=
    List.length_replicate
  obtain ⟨spectrum, hshows, hread⟩ := readBlocks_rows { u.windows with top := 0 } hsound
    (pairwise_rowsOf blocks u.lengths) htail hsilence
    (List.replicate trailerBits false ++ List.replicate pad false)
  rw [bits_rowsOf hle, ← hentries] at hread
  have hfields : ∀ f ∈ u.lengths.map fieldOfLength, f < 2 ^ lengthWidth := by
    intro f hf
    obtain ⟨l, hl, rfl⟩ := List.mem_map.1 hf
    exact fieldOfLength_lt (hlengths l hl)
  have hscales : ∀ s ∈ (blocks.take u.lengths.length).map (·.index), s < 2 ^ scaleWidth := by
    intro s hs
    obtain ⟨b, hb, rfl⟩ := List.mem_map.1 hs
    exact Nat.lt_succ_of_le (hindices b (List.mem_of_mem_take hb))
  have hback := map_lengthOfField hlengths
  refine ⟨spectrum, hshows, ?_⟩
  have h := dequantise_fields (u.lengths.map fieldOfLength)
    ((blocks.take u.lengths.length).map (·.index)) hbytes hwindows (by rwa [List.length_map])
    (by simp [hle]) hfields hscales (by rwa [hback])
    (by rw [hunpack, SoundUnit.bits_body hwindows]; simp only [List.append_assoc, List.flatMap_map])
  rwa [hback] at h

/-- **What is read from a unit is what was written.** -/
theorem dequantise_unit {u : SoundUnit} {blocks : List ScaledBlock}
    (hcount : blockCounts[u.index]? = some u.lengths.length) (hwindows : IsCodable u.windows)
    (hlengths : ∀ l ∈ u.lengths, l = 0 ∨ 2 ≤ l ∧ l ≤ 16) (hblocks : Layout.atrac1.IsFilledBy blocks)
    (hindices : ∀ b ∈ blocks, b.index ≤ 63) (hfits : (u.body blocks).bits.length ≤ unitBits) :
    (u.emit blocks).fault = none ∧ ∃ d, dequantise (bytesOf u blocks) = .ok d ∧
      d.windows = { u.windows with top := 0 } ∧ d.index = u.index ∧
      d.lengths = padded 52 u.lengths ∧
      d.scales = padded 52 ((blocks.take u.lengths.length).map (·.index)) ∧
      d.spectrum.length = 512 ∧
      (∀ i l b, u.lengths[i]? = some l → blocks[i]? = some b → l ≠ 0 → ∀ j v,
        b.values[j]? = some v →
        d.spectrum[Layout.atrac1.firstLine u.windows i + j]? =
            some (Layout.atrac1.scaleFactor b.index / multiplier l * Float32.ofInt (readBack l v)) ∧
          (-2 ^ (l - 1) ≤ mantissa l v → mantissa l v < 2 ^ (l - 1) → readBack l v = mantissa l v) ∧
          ∀ spectrum : List Float32, (Layout.atrac1.blockLines u.windows spectrum i)[j]? =
            spectrum[Layout.atrac1.firstLine u.windows i + j]?) ∧
      ∀ line < 512,
        (∀ i l, u.lengths[i]? = some l → l ≠ 0 → ¬Layout.atrac1.Covers u.windows i line) →
          d.spectrum[line]? = some 0 := by
  have hle : u.lengths.length ≤ blocks.length := by
    rw [hblocks.length]
    exact le_blocks_of_mem_blockCounts _ (List.mem_of_getElem? hcount)
  obtain ⟨spectrum, hshows, hread⟩ :=
    dequantise_bytesOf hcount hwindows hlengths hblocks hle hindices hfits
  refine ⟨?_, _, hread, rfl, rfl, rfl, rfl, ?_, ?_, ?_⟩
  · rw [SoundUnit.emit_of_le hfits, SoundUnit.fault_body hwindows]
  · rw [hshows.length, List.length_replicate]
    rfl
  · intro i l b hl hb hne j v hv
    obtain ⟨hi, hli⟩ := List.getElem?_eq_some_iff.1 hl
    obtain ⟨hj, -⟩ := List.getElem?_eq_some_iff.1 hv
    have hrow : (⟨i, b, l⟩ : Row) ∈ rowsOf blocks u.lengths := by
      refine List.mem_map.2 ⟨i, List.mem_range.2 hi, ?_⟩
      simp [List.getD_eq_getElem?_getD, hl, hb]
    have hsound := isSound_of_mem_rowsOf hblocks hle hlengths hrow
    have hshown := hshows.inside ⟨i, b, l⟩ hrow hne j hj
    rw [firstLine_withoutTop] at hshown
    refine ⟨?_, fun hleast hmost => readBack_eq ?_ hleast hmost, ?_⟩
    · simpa [Row.lines, restored, hv] using hshown
    · rcases hsound.fits with hzero | hfits
      · exact absurd hzero hne
      · exact hfits.1
    · intro spectrum
      exact Layout.getElem?_blockLines spectrum (hsound.filled ▸ hj)
  · intro line hline hsilent
    rw [hshows.outside line]
    · exact List.getElem?_replicate_of_lt hline
    · intro r hr hne hcovers
      obtain ⟨i, hi, rfl⟩ := List.mem_map.1 hr
      have hlt : i < u.lengths.length := List.mem_range.1 hi
      have hcovers' : Layout.atrac1.Covers u.windows i line := by
        unfold Layout.Covers at hcovers ⊢
        rwa [firstLine_withoutTop] at hcovers
      refine hsilent i _ (List.getElem?_eq_getElem hlt) ?_ hcovers'
      simpa [List.getD_eq_getElem?_getD, hlt] using hne

/-- A unit with two blocks that are heard, the low and the high band under short windows. -/
def twoBlocks : SoundUnit where
  windows := .ofShortBands true false true
  index := 0
  lengths := [5, 0, 5] ++ List.replicate 17 0

/-- Blocks with all values one half. -/
def halves : List ScaledBlock := Layout.atrac1.lines.map fun n => ⟨30, List.replicate n 0.5, 0⟩

theorem dequantise_twoBlocks : ∃ d, dequantise (bytesOf twoBlocks halves) = .ok d ∧
    d.lengths = padded 52 twoBlocks.lengths ∧ mantissa 5 0.5 = 8 ∧
    d.spectrum[64]? = some (Layout.atrac1.scaleFactor 30 / multiplier 5 * Float32.ofInt 8) := by
  have hwindows : IsCodable twoBlocks.windows := by unfold IsCodable; decide
  have hlengths : ∀ l ∈ twoBlocks.lengths, IsWordLength l := by unfold IsWordLength; decide
  have hblocks : Layout.atrac1.IsFilledBy halves := by
    simp [Layout.IsFilledBy, halves, Function.comp_def]
  have hfits : (twoBlocks.body halves).bits.length ≤ unitBits := by
    rw [SoundUnit.length_body hwindows hblocks (by decide) hlengths]
    decide
  have hmantissa : mantissa 5 0.5 = 8 := by decide +kernel
  obtain ⟨-, d, hread, -, -, hback, -, -, hinside, -⟩ :=
    dequantise_unit (u := twoBlocks) rfl hwindows hlengths hblocks (by decide) hfits
  obtain ⟨hline, hinteger, -⟩ :=
    hinside 2 5 ⟨30, List.replicate 8 0.5, 0⟩ rfl rfl (by decide) 0 0.5 rfl
  rw [hinteger (by rw [hmantissa]; decide) (by rw [hmantissa]; decide), hmantissa] at hline
  exact ⟨d, hread, hback, hmantissa, hline⟩

end Atrac1

end SpectralCoding
