import SpectralCoding.Proofs.Atrac3.Allotted
import SpectralCoding.Proofs.Atrac3.Extraction
import SpectralCoding.Proofs.Atrac3.GainCost
import SpectralCoding.Proofs.Atrac3.GroupCounts
import SpectralCoding.Proofs.Atrac3.Opened
import SpectralCoding.Proofs.Atrac3.SpectrumBudget
import SpectralCoding.Proofs.Bits.Bytes

/-!
# An ATRAC3 sound unit within its size

What the gain curves leave of the smallest unit pays for a silent spectrum and no tones. Tones get a
quarter of it at most, and the search for a shift keeps to the rest.

* `Atrac3.isWithin_decideUnit` : the parts of a sound unit keep to what was set aside for them.
* `UnitParts.IsWithin.fault_emit` : they are written without a fault.
* `Atrac3.unit_fits` : **a sound unit takes what was foretold and fills its half of the frame.**
-/

namespace SpectralCoding

namespace Atrac3

/-! ### The parts -/

/-- The parts of a sound unit keep to `available` bits. -/
structure UnitParts.IsWithin (parts : UnitParts) (available : Nat) : Prop where
  blocks : Layout.atrac3.IsFilledBy parts.blocks
  scaled : ∀ b ∈ parts.blocks, b.IsScaled
  tonal : ∃ cs, parts.tonal = .build cs ∧ ∀ c ∈ cs, c.IsPlaced
  quarter : parts.tonal.bits ≤ available / 4
  coding : ∃ a : Allotment, a.blocks = parts.blocks ∧ a.thresholds = audibility ∧
    parts.coding = allocate Float32 a (available - parts.tonal.bits)

theorem exists_scaleSpectrum {spectrum : List Float32}
    (h : spectrum.length = Layout.atrac3.frameLines) :
    ∃ blocks, scaleSpectrum spectrum = .ok (blocks, spread blocks) ∧
      Layout.atrac3.IsFilledBy blocks ∧ ∀ b ∈ blocks, b.IsScaled := by
  have hscale : Layout.atrac3.scaleFrame spectrum .long = _ := Layout.scaleFrame_of_length h
  refine ⟨_, ?_, Layout.isFilledBy_of_scaleFrame Layout.isWithin_atrac3 hscale,
    Layout.isScaled_of_scaleFrame hscale⟩
  rw [scaleSpectrum, hscale]

/-- The tonal components of a spectrum and what is left of it. -/
def Setup.separate (s : Setup) (lines : List Float32) (spread : Float32) (budget : Nat) :
    TonalGroups × List Float32 :=
  if s.isTonal then extractTonal lines spread budget else (.build [], lines)

theorem Setup.separate_spec (s : Setup) {lines : List Float32}
    (hlines : lines.length = Layout.atrac3.frameLines) (spread : Float32) {budget : Nat}
    (hbudget : 5 ≤ budget) :
    (s.separate lines spread budget).1.bits ≤ budget ∧
      (s.separate lines spread budget).2.length = Layout.atrac3.frameLines ∧
      ∃ cs, (s.separate lines spread budget).1 = .build cs ∧ ∀ c ∈ cs, c.IsPlaced := by
  unfold Setup.separate
  split
  · exact extractTonal_spec hlines spread hbudget
  · refine ⟨?_, hlines, [], rfl, nofun⟩
    rwa [TonalGroups.build_nil]

theorem isWithin_decideUnit (s : Setup) (loudness : Float32) {ch : ChannelSpectrum}
    (hlines : ch.lines.length = Layout.atrac3.frameLines) (hgain : checkGain ch.gain = .ok ())
    (hroom : 5 ≤ (s.unitBits - (headerBits + gainCost ch.gain)) / 4) :
    ∃ parts, decideUnit s loudness ch = .ok parts ∧
      parts.IsWithin (s.unitBits - (headerBits + gainCost ch.gain)) := by
  generalize havailable : s.unitBits - (headerBits + gainCost ch.gain) = available at hroom ⊢
  obtain ⟨whole, hwhole, hfilled, hscaled⟩ := exists_scaleSpectrum hlines
  obtain ⟨hquarter, hresidue, hbuild⟩ := s.separate_spec hlines (spread whole) hroom
  have hseparate : (if s.isTonal then extractTonal ch.lines (spread whole) (available / 4)
      else (.build [], ch.lines)) = s.separate ch.lines (spread whole) (available / 4) := rfl
  unfold decideUnit
  rw [hgain, hwhole]
  simp only [bind, Except.bind, havailable, hseparate]
  generalize s.separate ch.lines (spread whole) (available / 4) = separated
    at hquarter hresidue hbuild ⊢
  obtain ⟨tonal, residue⟩ := separated
  dsimp only at hquarter hresidue hbuild ⊢
  cases hempty : tonal.isEmpty with
  | true => exact ⟨_, rfl, hfilled, hscaled, hbuild, hquarter, _, rfl, rfl, rfl⟩
  | false =>
    obtain ⟨blocks, hscale, hfilled, hscaled⟩ := exists_scaleSpectrum hresidue
    rw [hscale]
    exact ⟨_, rfl, hfilled, hscaled, hbuild, hquarter, _, rfl, rfl, rfl⟩

/-! ### The bits of a sound unit -/

/-- A value without a code. -/
def IsUncodable (cause : Error) : Prop := cause.kind = .internal

theorem faultsIn_emitMantissas (isFixed : Bool) (selector : Nat) (ms : List Int) :
    (emitMantissas isFixed selector ms).FaultsIn IsUncodable := by
  unfold emitMantissas
  split
  · unfold emitFixed
    split
    · exact Emission.faultsIn_each fun _ _ => Emission.faultsIn_of_clean rfl
    · apply Emission.faultsIn_each
      intro p _
      unfold emitFixedPair
      split
      · exact Emission.faultsIn_of_clean rfl
      · exact Emission.faultsIn_fail rfl
  · apply Emission.faultsIn_each
    intro word _
    cases word with
    | none => exact Emission.faultsIn_fail rfl
    | some w => exact Emission.faultsIn_of_clean rfl

theorem SpectrumCoding.faultsIn_emit (coding : SpectrumCoding) (blocks : List ScaledBlock) :
    (coding.emit blocks).FaultsIn IsUncodable := by
  unfold SpectrumCoding.emit
  dsimp only
  split
  · exact Emission.faultsIn_fail rfl
  · apply Emission.faultsIn_concat
    intro e he
    simp only [List.mem_cons, List.not_mem_nil, or_false] at he
    rcases he with rfl | rfl | rfl | rfl | rfl
    · exact Emission.faultsIn_of_clean rfl
    · exact Emission.faultsIn_of_clean rfl
    · exact Emission.faultsIn_each fun _ _ => Emission.faultsIn_of_clean rfl
    · apply Emission.faultsIn_each
      rintro ⟨block, selector⟩ _
      exact Emission.faultsIn_of_clean (SpectrumCoding.fault_scaleField block selector)
    · apply Emission.faultsIn_each
      rintro ⟨ms, selector⟩ _
      dsimp only
      split
      · exact Emission.faultsIn_of_clean rfl
      · exact faultsIn_emitMantissas _ _ _

theorem TonalGroup.faultsIn_emitComponent (g : TonalGroup) (isFixed : Bool) (c : TonalComponent) :
    (g.emitComponent isFixed c).FaultsIn IsUncodable := by
  apply Emission.faultsIn_concat
  intro e he
  simp only [List.mem_cons, List.not_mem_nil, or_false] at he
  rcases he with rfl | rfl | rfl
  · exact Emission.faultsIn_of_clean rfl
  · exact Emission.faultsIn_of_clean rfl
  · exact faultsIn_emitMantissas _ _ _

theorem TonalGroup.faultsIn_emit (g : TonalGroup) (isFixed : Bool) :
    (g.emit isFixed).FaultsIn IsUncodable := by
  apply Emission.faultsIn_concat
  intro e he
  simp only [List.mem_cons, List.not_mem_nil, or_false] at he
  rcases he with rfl | rfl | rfl | rfl
  · exact Emission.faultsIn_each fun _ _ => Emission.faultsIn_of_clean rfl
  · exact Emission.faultsIn_of_clean rfl
  · exact Emission.faultsIn_of_clean rfl
  · apply Emission.faultsIn_each
    intro window _
    refine (Emission.faultsIn_of_clean rfl).append ?_
    exact Emission.faultsIn_each fun c _ => g.faultsIn_emitComponent isFixed c

theorem TonalGroups.faultsIn_emit (tonal : TonalGroups) : tonal.emit.FaultsIn IsUncodable := by
  unfold TonalGroups.emit
  refine (Emission.faultsIn_of_clean rfl).append ?_
  split
  · exact Emission.faultsIn_of_clean rfl
  · refine (Emission.faultsIn_of_clean rfl).append ?_
    exact Emission.faultsIn_each fun g _ => g.faultsIn_emit _

theorem isUncodable_emitSoundUnit (gain : List (List GainPoint)) (tonal : TonalGroups)
    (blocks : List ScaledBlock) (coding : SpectrumCoding) :
    (emitSoundUnit gain tonal blocks coding).FaultsIn IsUncodable := by
  apply Emission.faultsIn_concat
  intro e he
  simp only [List.mem_cons, List.not_mem_nil, or_false] at he
  rcases he with rfl | rfl | rfl | rfl | rfl
  · exact Emission.faultsIn_of_clean rfl
  · exact Emission.faultsIn_of_clean rfl
  · exact Emission.faultsIn_of_clean (fault_emitGain gain)
  · exact tonal.faultsIn_emit
  · exact coding.faultsIn_emit blocks

/-- Every mantissa of a sound unit has a word. -/
theorem UnitParts.IsWithin.fault_emit {parts : UnitParts} {available : Nat}
    (h : parts.IsWithin available) (gain : List (List GainPoint)) :
    (emitSoundUnit gain parts.tonal parts.blocks parts.coding).fault = none := by
  obtain ⟨cs, htonal, hcs⟩ := h.tonal
  obtain ⟨a, hblocks, hthresholds, hcoding⟩ := h.coding
  have htones : parts.tonal.emit.fault = none := by
    rw [htonal]
    exact TonalGroups.fault_emit_build fun c hc => (hcs c hc).selector
  have hspectrum : (parts.coding.emit parts.blocks).fault = none := by
    have hcount : Layout.atrac3.blocks ≤ a.thresholds.length := by
      rw [hthresholds, audibility, blockThreshold, List.length_map, List.length_range]
    rw [hcoding, ← hblocks]
    exact fault_emit_allocate Float32 (hblocks ▸ h.blocks) (hblocks ▸ h.scaled) hcount _
  refine Emission.fault_concat_eq_none.2 ?_
  simp [fault_emitGain gain, htones, hspectrum]

theorem UnitParts.IsWithin.length_emit {parts : UnitParts} {available : Nat}
    (h : parts.IsWithin available)
    (hroom : silenceBits Layout.atrac3.blocks + available / 4 ≤ available)
    (gain : List (List GainPoint)) :
    (emitSoundUnit gain parts.tonal parts.blocks parts.coding).bits.length =
        8 + gainCost gain + parts.tonal.bits + parts.coding.bits ∧
      parts.tonal.bits + parts.coding.bits ≤ available := by
  obtain ⟨cs, htonal, hcs⟩ := h.tonal
  obtain ⟨a, hblocks, -, hcoding⟩ := h.coding
  have hquarter := h.quarter
  have htarget : silenceBits Layout.atrac3.blocks ≤ available - parts.tonal.bits := by omega
  obtain ⟨hle, hlength⟩ := allocate_fits Float32 (hblocks ▸ h.blocks) htarget
  rw [← hcoding] at hle hlength
  rw [hblocks] at hlength
  have hparts := Emission.fault_concat_eq_none.1 (h.fault_emit gain)
  have htones : parts.tonal.emit.bits.length = parts.tonal.bits := by
    have hfault : parts.tonal.emit.fault = none := hparts _ (by simp)
    rw [htonal] at hfault ⊢
    exact TonalGroups.length_emit_build (fun c hc => (hcs c hc).selector)
      (fun c hc => (hcs c hc).position) hfault
  have hspectrum : (parts.coding.emit parts.blocks).bits.length = parts.coding.bits :=
    hlength (hparts _ (by simp))
  constructor
  · rw [emitSoundUnit, Emission.length_concat_of_clean hparts]
    simp only [List.map_cons, List.map_nil, List.sum_cons, List.sum_nil, Emission.bits_field,
      Bits.length_ofNat, length_emitGain gain, htones, hspectrum]
    omega
  · omega

/-- **A sound unit is written, takes what was foretold and fills its half of the frame.** -/
theorem unit_fits {e : Encoder} (he : e.IsOpened) {s : Setup} (hs : e.setup = some s)
    {ch : ChannelSpectrum} (hlines : ch.lines.length = 1024) (hgain : checkGain ch.gain = .ok ())
    (loudness : Float32) :
    ∃ parts, decideUnit s loudness ch = .ok parts ∧
      let unit := emitSoundUnit ch.gain parts.tonal parts.blocks parts.coding
      unit.fault = none ∧
      unit.bits.length = 8 + gainCost ch.gain + parts.tonal.bits + parts.coding.bits ∧
      unit.bits.length ≤ s.unitBits ∧
      (∃ bytes, encodeUnit s loudness ch = .ok bytes ∧ bytes.length = s.frameSize / 2) ∧
      ∀ written budget, encodeUnit s loudness ch ≠ .error (.unitBudget written budget) := by
  have hframe : 304 ≤ s.frameSize := he.leastFrame_le hs
  have hcost : gainCost ch.gain ≤ 264 := gainCost_le hgain
  have hunit : s.unitBits = s.frameSize / 2 * 8 := rfl
  have hheader : headerBits = 8 := rfl
  have hsilence : silenceBits Layout.atrac3.blocks = 102 := rfl
  obtain ⟨parts, hdecide, hwithin⟩ := isWithin_decideUnit s loudness hlines hgain (by omega)
  obtain ⟨hbits, hfits⟩ := hwithin.length_emit (by omega) ch.gain
  have hclean := hwithin.fault_emit ch.gain
  refine ⟨parts, hdecide, ?_⟩
  unfold encodeUnit
  rw [hdecide]
  simp only [bind, Except.bind]
  generalize emitSoundUnit ch.gain parts.tonal parts.blocks parts.coding = unit at hbits hclean ⊢
  have hle : unit.bits.length ≤ s.unitBits := by omega
  have hbytes : ((BitWriter.empty.append unit.bits).padTo s.unitBits).finish.length =
      s.frameSize / 2 := BitWriter.length_finish_of_le hle
  rw [hclean]
  simp only [if_neg (Nat.not_lt_of_le hle)]
  exact ⟨trivial, hbits, hle, ⟨_, rfl, hbytes⟩, nofun⟩

/-- A channel whose lines are no numbers, with a point on the gain curve of its second band. -/
def shapelessChannel : ChannelSpectrum where
  lines := List.replicate 1024 (0 / 0)
  gain := [[], [⟨7, 3⟩]]

/-- Two channels in frames of 384 bytes, on a fixed number of blocks. -/
def fixedParameters : Parameters where
  codec := .atrac3
  channels := 2
  bitRate := 132300
  options := .atrac3 { blocks := some 20 }

/-- What an encoder keeps of them. -/
def fixedSetup : Setup where
  channels := 2
  frameSize := 384
  fixedCount := some 20
  isTonal := true

theorem fits_shapelessChannel :
    ∃ e, Encoder.closed.openWith fixedParameters = (.ok (), e) ∧ e.setup = some fixedSetup ∧
      ∃ parts bytes, decideUnit fixedSetup 1 shapelessChannel = .ok parts ∧
        8 + gainCost shapelessChannel.gain + parts.tonal.bits + parts.coding.bits ≤ 1536 ∧
        encodeUnit fixedSetup 1 shapelessChannel = .ok bytes ∧ bytes.length = 192 := by
  have hopen : Encoder.closed.openWith fixedParameters = (.ok (), { setup := some fixedSetup }) :=
    rfl
  have hlines : shapelessChannel.lines.length = 1024 := List.length_replicate ..
  obtain ⟨parts, hdecide, -, hbits, hle, ⟨bytes, hbytes, hlength⟩, -⟩ :=
    unit_fits (.openWith hopen) rfl hlines rfl 1
  exact ⟨_, hopen, rfl, parts, bytes, hdecide, hbits ▸ hle, hbytes, hlength⟩

end Atrac3

end SpectralCoding
