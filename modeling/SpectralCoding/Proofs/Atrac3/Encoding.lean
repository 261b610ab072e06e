import SpectralCoding.Proofs.Atrac3.UnitBudget
import SpectralCoding.Proofs.Results

/-!
# Frames of the ATRAC3 encoder

Only the number of channels is checked before a frame is heard. Gain points and the lengths of the
spectra are checked unit by unit, but a frame is handed over as a whole.

* `Atrac3.Encoder.refusal`, `Atrac3.Encoder.hearing` : why a frame is refused unheard; the encoder
  that has heard it.
* `Atrac3.comesLate` : the causes for which a frame that was heard is refused.
* `Atrac3.length_encodeUnits` : the size of a frame.
* `Atrac3.Encoder.encodeFrame_of_heard`, `Atrac3.Encoder.isAllOrNothing_encodeFrame` : what a frame
  that is heard leaves behind, and what it hands over.
-/

namespace SpectralCoding

namespace Atrac3

/-! ### Refusals of a unit -/

/-- The causes for which a frame is refused though it was heard. -/
def comesLate : Error → Bool
  | .gainBands .. | .gainPoints _ | .gainRange | .spectrumLength .. => true
  | _ => false

variable {s : Setup} {loudness : Float32} {ch : ChannelSpectrum} {cause : Error}

theorem comesLate_of_checkGainBands {gain : List (List GainPoint)}
    (h : checkGainBands gain = .error cause) : comesLate cause = true := by
  induction gain with
  | nil => cases h
  | cons points bands ih =>
    rw [checkGainBands] at h
    cases hband : checkGainBand points with
    | ok =>
      rw [hband] at h
      exact ih h
    | error cause' =>
      rw [hband] at h
      obtain rfl := Except.error.inj h
      unfold checkGainBand at hband
      split at hband
      · obtain rfl := Except.error.inj hband
        rfl
      · split at hband
        · obtain rfl := Except.error.inj hband
          rfl
        · cases hband

theorem comesLate_of_checkGain {gain : List (List GainPoint)} (h : checkGain gain = .error cause) :
    comesLate cause = true := by
  unfold checkGain at h
  split at h
  · obtain rfl := Except.error.inj h
    rfl
  · exact comesLate_of_checkGainBands h

theorem comesLate_of_scaleSpectrum {lines : List Float32}
    (h : scaleSpectrum lines = .error cause) : comesLate cause = true := by
  unfold scaleSpectrum Layout.scaleFrame at h
  by_cases hlength : lines.length = Layout.atrac3.frameLines
  · rw [if_pos hlength] at h
    cases h
  · rw [if_neg hlength] at h
    obtain rfl := Except.error.inj h
    rfl

theorem comesLate_of_decideUnit (h : decideUnit s loudness ch = .error cause) :
    comesLate cause = true := by
  rcases of_bind_eq_error h with hgain | ⟨-, -, h⟩
  · exact comesLate_of_checkGain hgain
  rcases of_bind_eq_error h with hwhole | ⟨whole, -, h⟩
  · exact comesLate_of_scaleSpectrum hwhole
  dsimp only at h
  -- whatever is left of the lines once the tones are taken out, only its length can be refused
  generalize (if s.isTonal then
      extractTonal ch.lines whole.2 ((s.unitBits - (headerBits + gainCost ch.gain)) / 4)
    else (.build [], ch.lines)) = separated at h
  split at h
  · cases h
  · rcases of_bind_eq_error h with hresidue | ⟨residue, -, h⟩
    · exact comesLate_of_scaleSpectrum hresidue
    · cases h

/-- A unit is refused for its gain points or its length; any other failure is internal. -/
theorem comesLate_of_encodeUnit (h : encodeUnit s loudness ch = .error cause) :
    comesLate cause = true ∨ cause.kind = .internal := by
  rcases of_bind_eq_error h with hdecide | ⟨parts, -, h⟩
  · exact .inl (comesLate_of_decideUnit hdecide)
  right
  have hfaults := isUncodable_emitSoundUnit ch.gain parts.tonal parts.blocks parts.coding
  dsimp only at h
  generalize emitSoundUnit ch.gain parts.tonal parts.blocks parts.coding = unit at hfaults h
  cases hfault : unit.fault with
  | some cause' =>
    rw [hfault] at h
    obtain rfl := Except.error.inj h
    exact hfaults cause' hfault
  | none =>
    rw [hfault] at h
    dsimp only at h
    split at h
    · obtain rfl := Except.error.inj h
      rfl
    · cases h

theorem length_encodeUnit {bytes : List UInt8} (h : encodeUnit s loudness ch = .ok bytes) :
    bytes.length = s.frameSize / 2 := by
  obtain ⟨parts, -, h⟩ := of_bind_eq_ok h
  dsimp only at h
  generalize emitSoundUnit ch.gain parts.tonal parts.blocks parts.coding = unit at h
  cases hfault : unit.fault with
  | some cause =>
    rw [hfault] at h
    cases h
  | none =>
    rw [hfault] at h
    dsimp only at h
    split at h
    · cases h
    · rename_i hle
      obtain rfl := Except.ok.inj h
      exact BitWriter.length_finish_of_le (Nat.not_lt.1 hle)

/-! ### Frames -/

variable {channels : List ChannelSpectrum}

theorem comesLate_of_encodeUnits (h : encodeUnits s loudness channels = .error cause) :
    comesLate cause = true ∨ cause.kind = .internal := by
  rcases of_bind_eq_error h with hunits | ⟨units, -, h⟩
  · obtain ⟨ch, -, hch⟩ := exists_of_mapM_eq_error hunits
    exact comesLate_of_encodeUnit hch
  · cases h

theorem length_encodeUnits {bytes : List UInt8} (hcount : channels.length = s.channels)
    (hchannels : s.channels = 1 ∨ s.channels = 2) (heven : 2 ∣ s.frameSize)
    (h : encodeUnits s loudness channels = .ok bytes) : bytes.length = s.frameSize := by
  obtain ⟨units, hunits, hbytes⟩ := of_bind_eq_ok h
  have hall := forall₂_of_mapM_eq_ok hunits
  have hlength : units.flatten.length = channels.length * (s.frameSize / 2) := by
    clear hunits hbytes hcount h
    induction hall with
    | nil => simp
    | cons hunit _ ih =>
      rw [List.flatten_cons, List.length_append, length_encodeUnit hunit, ih, List.length_cons,
        Nat.succ_mul, Nat.add_comm]
  obtain rfl := Except.ok.inj hbytes
  rw [hcount] at hlength
  rcases hchannels with hmono | hstereo
  · rw [if_pos hmono, List.length_append, hlength, hmono]
    omega
  · rw [if_neg (by omega), hlength, hstereo]
    omega

/-! ### The encoder -/

namespace Encoder

variable {e : Encoder} {setup : Setup} {frame : SpectralFrame}

/-- Why a frame is refused unheard, if it is. -/
def refusal (e : Encoder) (frame : SpectralFrame) : Option Error :=
  frame.refusal .atrac3 (e.setup.map (·.channels)) none

/-- The encoder once it has heard a frame. -/
def hearing (e : Encoder) (frame : SpectralFrame) : Encoder :=
  { e with loudness := hear e.loudness frame }

/-- The frames are for one channel or two, and halves of them are whole bytes. -/
def IsWhole (e : Encoder) : Prop :=
  ∀ setup, e.setup = some setup → (setup.channels = 1 ∨ setup.channels = 2) ∧ 2 ∣ setup.frameSize

theorem encodeFrame_of_refusal (h : e.refusal frame = some cause) (sink : Sink) :
    e.encodeFrame frame sink = (.error cause, e, sink) := by
  rcases SpectralFrame.refusal_eq_some h with
    ⟨hclosed, rfl⟩ | ⟨count, hopen, hcount, rfl⟩ | ⟨-, hcheck⟩
  · have hsetup : e.setup = none := Option.map_eq_none_iff.1 hclosed
    simp only [encodeFrame, hsetup]
  · obtain ⟨setup, hsetup, rfl⟩ := Option.map_eq_some_iff.1 hopen
    simp only [encodeFrame, hsetup, if_pos hcount]
  · cases hcheck

theorem not_comesLate_of_refusal (h : e.refusal frame = some cause) : comesLate cause = false := by
  rcases SpectralFrame.refusal_eq_some h with ⟨-, rfl⟩ | ⟨count, -, -, rfl⟩ | ⟨-, hcheck⟩
  · rfl
  · rfl
  · cases hcheck

theorem of_refusal_eq_none (h : e.refusal frame = none) :
    ∃ setup, e.setup = some setup ∧ frame.channels.length = setup.channels := by
  obtain ⟨setup, hsetup, hcount⟩ :=
    Option.map_eq_some_iff.1 (SpectralFrame.refusal_eq_none h).1
  exact ⟨setup, hsetup, hcount.symm⟩

/-- A frame that is heard is handed over as a whole, unless one of its units is refused. -/
theorem encodeFrame_of_heard (hsetup : e.setup = some setup)
    (hcount : frame.channels.length = setup.channels) (sink : Sink) :
    (∃ cause, encodeUnits setup (hear e.loudness frame).relative frame.channels = .error cause ∧
        e.encodeFrame frame sink = (.error cause, e.hearing frame, sink)) ∨
      ∃ bytes, encodeUnits setup (hear e.loudness frame).relative frame.channels = .ok bytes ∧
        e.encodeFrame frame sink =
          ((sink.write bytes).1, e.hearing frame, (sink.write bytes).2) := by
  have hsame : ¬frame.channels.length ≠ setup.channels := Decidable.not_not.2 hcount
  simp only [encodeFrame, hearing, hsetup, if_neg hsame]
  cases encodeUnits setup (hear e.loudness frame).relative frame.channels with
  | error cause => exact .inl ⟨cause, rfl, rfl⟩
  | ok bytes => exact .inr ⟨bytes, rfl, rfl⟩

theorem encoder_encodeFrame (h : e.refusal frame = none) (sink : Sink) :
    (e.encodeFrame frame sink).2.1 = e.hearing frame := by
  obtain ⟨setup, hsetup, hcount⟩ := of_refusal_eq_none h
  rcases encodeFrame_of_heard hsetup hcount sink with ⟨cause, -, hdone⟩ | ⟨bytes, -, hdone⟩ <;>
    rw [hdone]

theorem comesLate_of_refused (h : e.refusal frame = none) {sink : Sink}
    (hrefused : (e.encodeFrame frame sink).1 = .error cause)
    (hkind : cause.kind = .invalidArgument) :
    comesLate cause = true := by
  obtain ⟨setup, hsetup, hcount⟩ := of_refusal_eq_none h
  rcases encodeFrame_of_heard hsetup hcount sink with ⟨cause', hunits, hdone⟩ | ⟨bytes, -, hdone⟩
  · rw [hdone] at hrefused
    obtain rfl := Except.error.inj hrefused
    rcases comesLate_of_encodeUnits hunits with hlate | hinternal
    · exact hlate
    · rw [hinternal] at hkind
      cases hkind
  · rw [hdone] at hrefused
    rw [Sink.kind_of_write hrefused] at hkind
    cases hkind

theorem isAllOrNothing_encodeFrame (he : e.IsWhole) (hsetup : e.setup = some setup)
    (hcount : frame.channels.length = setup.channels) (memory : PacketSink) :
    IsAllOrNothing [setup.frameSize] memory (e.encodeFrame frame (.packets memory)).1
      (e.encodeFrame frame (.packets memory)).2.2 := by
  obtain ⟨hchannels, heven⟩ := he setup hsetup
  rcases encodeFrame_of_heard hsetup hcount (.packets memory) with
    ⟨cause, -, hdone⟩ | ⟨bytes, hunits, hdone⟩
  · rw [hdone]
    rfl
  · rw [hdone]
    exact isAllOrNothing_single memory (length_encodeUnits hcount hchannels heven hunits)

/-! ### Opening -/

theorem isWhole_closed : closed.IsWhole := nofun

theorem even_frameSize {bitRate : Nat} {profile : Profile}
    (h : profileFor bitRate = some profile) : 2 ∣ profile.frameSize := by
  have hall : ∀ profile ∈ profiles, 2 ∣ profile.frameSize := by decide
  exact hall profile (List.mem_of_find?_eq_some h)

theorem isWhole_opened {opened : Encoder} {p : Parameters} (h : e.openWith p = (.ok (), opened)) :
    opened.IsWhole := by
  obtain ⟨options, profile, hcheck, -, hprofile, -, -, rfl⟩ := openWith_eq_ok h
  obtain ⟨-, hleast, hmost⟩ := Parameters.check_eq_ok hcheck
  intro setup hsetup
  obtain rfl := Option.some.inj hsetup
  exact ⟨by dsimp only; omega, even_frameSize hprofile⟩

end Encoder

end Atrac3

end SpectralCoding
