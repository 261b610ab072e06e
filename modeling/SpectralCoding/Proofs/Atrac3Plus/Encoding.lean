import SpectralCoding.Proofs.Atrac3Plus.FrameBudget
import SpectralCoding.Proofs.Bits.Bytes
import SpectralCoding.Proofs.Pipeline.Clearing
import SpectralCoding.Proofs.Results

/-!
# Frames of the ATRAC3+ encoder

The number of channels, the tones and the lengths of the spectra are checked before a frame is
heard. Whether the tones leave room for the fixed fields shows only when the frame is made.

* `Atrac3Plus.Encoder.refusal`, `Atrac3Plus.Encoder.hearing` : why a frame is refused unheard; the
  encoder that has heard it.
* `Atrac3Plus.comesLate` : the cause for which a frame that was heard is refused.
* `Atrac3Plus.Encoder.cleared_encodeFrame`, `Atrac3Plus.Encoder.encodeFrame_of_cleared_eq` : a frame
  leaves nothing behind but what was heard, and what was left behind does not matter.
* `Atrac3Plus.Encoder.isAllOrNothing_encodeFrame` : what a frame hands over.
-/

namespace SpectralCoding

namespace Atrac3Plus

open Pipeline

/-- The cause for which a frame is refused though it was heard. -/
def comesLate : Error → Bool
  | .toneOverflow .. => true
  | _ => false

/-! ### Stages -/

section

variable {κ : Type} [Dial κ]

theorem forget_eq_nil : ∀ stage ∈ (stages : List (Stage κ Frame Fields)), ∀ memory,
    stage.forget memory = [] := by
  unfold stages
  simp only [List.forall_mem_cons]
  exact ⟨fun _ => rfl, fun _ => rfl, fun _ => rfl, fun _ => rfl, fun _ => rfl, fun _ => rfl,
    fun _ => rfl, fun _ => rfl, fun _ => rfl, nofun⟩

theorem areForgetful_stages : AreForgetful (stages : List (Stage κ Frame Fields)) where
  begins := by
    intro stage hstage frame memory
    obtain rfl := Option.some.inj hstage
    unfold opening
    dsimp only
    split
    · exact ⟨_, rfl⟩
    · split
      · exact ⟨_, rfl⟩
      · trivial
  forgets stage hstage := Stage.forgets_of_const [] (forget_eq_nil stage hstage)

theorem IsFramePipeline.areForgetful {p : Pipeline κ Frame Fields} (hp : IsFramePipeline p) :
    AreForgetful p.stages := by
  have hstages : p.stages = Atrac3Plus.stages := hp
  rw [hstages]
  exact areForgetful_stages

/-- A frame of acceptable tones is refused by its stages for one reason only. -/
theorem comesLate_of_fault {p : Pipeline κ Frame Fields} (hp : IsFramePipeline p) {frame : Frame}
    (htones : ∀ ch ∈ frame.channels, checkTones ch.tones = .ok ()) {cause : Error}
    (hfault : (p.encode frame).emission.fault = some cause)
    (hkind : cause.kind = .invalidArgument) :
    comesLate cause = true := by
  -- without room for the tones the first stage refuses; with it no stage of the run can
  by_cases hroom : frame.size < frame.least
  · rw [emission_of_refused hp htones hroom] at hfault
    obtain rfl := Option.some.inj hfault
    rfl
  · rcases encode_of_isKept (isKept_inFront htones (Nat.not_lt.1 hroom)) p frame
      (inFront_fresh hp frame) with ⟨cause', hfail, hcause⟩ | ⟨last, s, hlast, hs, hput⟩
    · rw [hfail] at hfault
      obtain rfl := Option.some.inj hfault
      rcases hcause with hother | ⟨last, rfl⟩
      · exact absurd hkind hother
      · cases hkind
    · rw [hput, (put_of_inFront hlast hs).1] at hfault
      cases hfault

end

/-! ### Checks -/

variable {ch : ChannelSpectrum} {cause : Error}

theorem not_comesLate_of_checkToneBands {band : Nat} {ts : List ToneBand}
    (h : checkToneBands band ts = .error cause) : comesLate cause = false := by
  induction ts generalizing band with
  | nil => cases h
  | cons t ts ih =>
    rw [checkToneBands] at h
    cases hband : checkToneBand band t with
    | ok =>
      rw [hband] at h
      exact ih h
    | error cause' =>
      rw [hband] at h
      obtain rfl := Except.error.inj h
      unfold checkToneBand at hband
      split at hband
      · obtain rfl := Except.error.inj hband
        rfl
      · split at hband
        · obtain rfl := Except.error.inj hband
          rfl
        · split at hband
          · obtain rfl := Except.error.inj hband
            rfl
          · split at hband
            · obtain rfl := Except.error.inj hband
              rfl
            · cases hband

theorem not_comesLate_of_checkTones {ts : List ToneBand} (h : checkTones ts = .error cause) :
    comesLate cause = false := by
  unfold checkTones at h
  split at h
  · obtain rfl := Except.error.inj h
    rfl
  · split at h
    · rename_i hbands
      obtain rfl := Except.error.inj h
      exact not_comesLate_of_checkToneBands hbands
    · split at h
      · obtain rfl := Except.error.inj h
        rfl
      · cases h

theorem not_comesLate_of_prepareChannel (h : prepareChannel ch = .error cause) :
    comesLate cause = false := by
  rcases of_bind_eq_error h with htones | ⟨-, -, h⟩
  · exact not_comesLate_of_checkTones htones
  rcases of_bind_eq_error h with hscale | ⟨blocks, -, h⟩
  · unfold Layout.scaleFrame at hscale
    split at hscale
    · cases hscale
    · obtain rfl := Except.error.inj hscale
      rfl
  · cases h

theorem prepareChannel_eq_ok {prepared : Channel × Float32} (h : prepareChannel ch = .ok prepared) :
    checkTones prepared.1.tones = .ok () ∧ prepared.2 = frameLoudness ch.lines lineWeights := by
  obtain ⟨⟨⟩, htones, h⟩ := of_bind_eq_ok h
  obtain ⟨blocks, -, h⟩ := of_bind_eq_ok h
  obtain rfl := Except.ok.inj h
  exact ⟨htones, rfl⟩

/-- Channels that pass the checks have acceptable tones and are heard as they are. -/
theorem mapM_prepareChannel_eq_ok {channels : List ChannelSpectrum}
    {prepared : List (Channel × Float32)} (h : channels.mapM prepareChannel = .ok prepared) :
    (∀ ch ∈ prepared.map (·.1), checkTones ch.tones = .ok ()) ∧
      prepared.map (·.2) = channels.map fun ch => frameLoudness ch.lines lineWeights := by
  have hall := forall₂_of_mapM_eq_ok h
  clear h
  induction hall with
  | nil => exact ⟨nofun, rfl⟩
  | cons hch _ ih =>
    obtain ⟨htones, hloudness⟩ := prepareChannel_eq_ok hch
    rw [List.map_cons, List.map_cons, List.map_cons, hloudness, ih.2]
    exact ⟨List.forall_mem_cons.2 ⟨htones, ih.1⟩, rfl⟩

/-- Why the channels of a frame are refused unheard, if they are. -/
def preparationRefusal (channels : List ChannelSpectrum) : Option Error :=
  match channels.mapM prepareChannel with
  | .error cause => some cause
  | .ok _ => none

theorem preparationRefusal_eq_some {channels : List ChannelSpectrum} :
    preparationRefusal channels = some cause ↔ channels.mapM prepareChannel = .error cause := by
  unfold preparationRefusal
  cases channels.mapM prepareChannel <;> simp

theorem preparationRefusal_eq_none {channels : List ChannelSpectrum} :
    preparationRefusal channels = none ↔
      ∃ prepared, channels.mapM prepareChannel = .ok prepared := by
  unfold preparationRefusal
  cases channels.mapM prepareChannel <;> simp

/-- The loudness estimate after a frame. -/
def hear (loudness : Loudness) (frame : SpectralFrame) : Loudness :=
  loudness.trackChannels (frame.channels.map fun ch => frameLoudness ch.lines lineWeights)

/-- The frame as its stages take it up. -/
def Setup.start (setup : Setup) (loudness : Loudness) (prepared : List (Channel × Float32)) :
    Frame where
  size := setup.frameSize * 8
  channels := prepared.map (·.1)
  thresholds := audibility
  loudness := loudness.relative

/-- What the stages put out, handed to a sink. -/
def Setup.handOver (setup : Setup) (emission : Emission) (sink : Sink) : Except Error Unit × Sink :=
  let size := setup.frameSize * 8
  match emission.fault with
  | some cause => (.error cause, sink)
  | none =>
    if size < emission.bits.length then (.error (.frameBudget emission.bits.length size), sink)
    else sink.write ((BitWriter.empty.append emission.bits).padTo size).finish

theorem Setup.isAllOrNothing_handOver (setup : Setup) (emission : Emission) (memory : PacketSink) :
    IsAllOrNothing [setup.frameSize] memory (setup.handOver emission (.packets memory)).1
      (setup.handOver emission (.packets memory)).2 := by
  unfold Setup.handOver
  cases emission.fault with
  | some cause => rfl
  | none =>
    dsimp only
    split
    · rfl
    · rename_i hle
      exact isAllOrNothing_single memory (BitWriter.length_finish_of_le (Nat.not_lt.1 hle))

theorem Setup.fault_of_handOver {setup : Setup} {emission : Emission} {sink : Sink}
    (h : (setup.handOver emission sink).1 = .error cause) (hkind : cause.kind = .invalidArgument) :
    emission.fault = some cause := by
  unfold Setup.handOver at h
  cases hfault : emission.fault with
  | some cause' =>
    rw [hfault] at h
    exact congrArg some (Except.error.inj h)
  | none =>
    rw [hfault] at h
    dsimp only at h
    split at h
    · obtain rfl := Except.error.inj h
      cases hkind
    · rw [Sink.kind_of_write h] at hkind
      cases hkind

namespace Encoder

variable {e e' : Encoder} {setup : Setup} {frame : SpectralFrame}
  {prepared : List (Channel × Float32)}

/-- Why a frame is refused unheard, if it is. -/
def refusal (e : Encoder) (frame : SpectralFrame) : Option Error :=
  frame.refusal .atrac3Plus (e.setup.map (·.channels)) (preparationRefusal frame.channels)

/-- The encoder once it has heard a frame. -/
def hearing (e : Encoder) (frame : SpectralFrame) : Encoder :=
  { e with loudness := hear e.loudness frame }

/-- The encoder with nothing left of earlier frames but what was heard. -/
def cleared (e : Encoder) : Encoder := { e with pipeline := e.pipeline.cleared }

/-- The encoder with nothing left of earlier frames. -/
def outline (e : Encoder) : Encoder := e.cleared.reset

/-- The encoder has its stages. -/
def IsWhole (e : Encoder) : Prop := IsFramePipeline e.pipeline

theorem encodeFrame_of_refusal (h : e.refusal frame = some cause) (sink : Sink) :
    e.encodeFrame frame sink = (.error cause, e, sink) := by
  rcases SpectralFrame.refusal_eq_some h with
    ⟨hclosed, rfl⟩ | ⟨count, hopen, hcount, rfl⟩ | ⟨hopen, hcheck⟩
  · have hsetup : e.setup = none := Option.map_eq_none_iff.1 hclosed
    simp only [encodeFrame, hsetup]
  · obtain ⟨setup, hsetup, rfl⟩ := Option.map_eq_some_iff.1 hopen
    simp only [encodeFrame, hsetup, if_pos hcount]
  · obtain ⟨setup, hsetup, hcount⟩ := Option.map_eq_some_iff.1 hopen
    have hsame : ¬frame.channels.length ≠ setup.channels := Decidable.not_not.2 hcount.symm
    simp only [encodeFrame, hsetup, if_neg hsame, preparationRefusal_eq_some.1 hcheck]

theorem not_comesLate_of_refusal (h : e.refusal frame = some cause) : comesLate cause = false := by
  rcases SpectralFrame.refusal_eq_some h with ⟨-, rfl⟩ | ⟨count, -, -, rfl⟩ | ⟨-, hcheck⟩
  · rfl
  · rfl
  · obtain ⟨ch, -, hch⟩ := exists_of_mapM_eq_error (preparationRefusal_eq_some.1 hcheck)
    exact not_comesLate_of_prepareChannel hch

theorem of_refusal_eq_none (h : e.refusal frame = none) :
    ∃ setup prepared, e.setup = some setup ∧ frame.channels.length = setup.channels ∧
      frame.channels.mapM prepareChannel = .ok prepared := by
  obtain ⟨hopen, hcheck⟩ := SpectralFrame.refusal_eq_none h
  obtain ⟨setup, hsetup, hcount⟩ := Option.map_eq_some_iff.1 hopen
  obtain ⟨prepared, hprepare⟩ := preparationRefusal_eq_none.1 hcheck
  exact ⟨setup, prepared, hsetup, hcount.symm, hprepare⟩

theorem encodeFrame_of_heard (hsetup : e.setup = some setup)
    (hcount : frame.channels.length = setup.channels)
    (hprepare : frame.channels.mapM prepareChannel = .ok prepared) (sink : Sink) :
    e.encodeFrame frame sink =
      let encoded := e.pipeline.encode (setup.start (hear e.loudness frame) prepared)
      let (result, sink) := setup.handOver encoded.emission sink
      (result, { e.hearing frame with pipeline := encoded.pipeline }, sink) := by
  have hsame : ¬frame.channels.length ≠ setup.channels := Decidable.not_not.2 hcount
  have hheard : e.loudness.trackChannels (prepared.map (·.2)) = hear e.loudness frame := by
    rw [hear, (mapM_prepareChannel_eq_ok hprepare).2]
  obtain ⟨encoded, hencoded⟩ : ∃ encoded, e.pipeline.encode
      { size := setup.frameSize * 8, channels := prepared.map (·.1), thresholds := audibility,
        loudness := (hear e.loudness frame).relative } = encoded := ⟨_, rfl⟩
  simp only [encodeFrame, hsetup, if_neg hsame, hprepare, hheard, hearing, Setup.handOver,
    Setup.start, hencoded]
  cases encoded.emission.fault with
  | some cause => rfl
  | none => by_cases hover : setup.frameSize * 8 < encoded.emission.bits.length <;> simp [hover]

theorem cleared_encodeFrame (he : e.IsWhole) (h : e.refusal frame = none) (sink : Sink) :
    (e.encodeFrame frame sink).2.1.cleared = (e.hearing frame).cleared := by
  obtain ⟨setup, prepared, hsetup, hcount, hprepare⟩ := of_refusal_eq_none h
  rw [encodeFrame_of_heard hsetup hcount hprepare]
  simp only [cleared, hearing, cleared_encode (IsFramePipeline.areForgetful he)]

theorem encodeFrame_of_cleared_eq (he : e.IsWhole) (heq : e.cleared = e'.cleared)
    (frame : SpectralFrame) (sink : Sink) :
    (e.encodeFrame frame sink).1 = (e'.encodeFrame frame sink).1 ∧
      (e.encodeFrame frame sink).2.2 = (e'.encodeFrame frame sink).2.2 := by
  obtain ⟨hsetup, hpipeline, hloudness⟩ := Encoder.mk.inj heq
  have hrefusal : e.refusal frame = e'.refusal frame := by simp only [refusal, hsetup]
  cases hheard : e.refusal frame with
  | some cause =>
    rw [encodeFrame_of_refusal hheard, encodeFrame_of_refusal (hrefusal ▸ hheard)]
    exact ⟨rfl, rfl⟩
  | none =>
    obtain ⟨setup, prepared, hopen, hcount, hprepare⟩ := of_refusal_eq_none hheard
    rw [encodeFrame_of_heard hopen hcount hprepare,
      encodeFrame_of_heard (hsetup ▸ hopen) hcount hprepare, hloudness]
    dsimp only
    rw [(encode_of_cleared_eq (IsFramePipeline.areForgetful he) hpipeline _).1]
    exact ⟨rfl, rfl⟩

theorem comesLate_of_refused (he : e.IsWhole) (h : e.refusal frame = none) {sink : Sink}
    (hrefused : (e.encodeFrame frame sink).1 = .error cause)
    (hkind : cause.kind = .invalidArgument) :
    comesLate cause = true := by
  obtain ⟨setup, prepared, hsetup, hcount, hprepare⟩ := of_refusal_eq_none h
  rw [encodeFrame_of_heard hsetup hcount hprepare] at hrefused
  exact comesLate_of_fault he (mapM_prepareChannel_eq_ok hprepare).1
    (Setup.fault_of_handOver hrefused hkind) hkind

theorem isAllOrNothing_encodeFrame (h : e.refusal frame = none) (hsetup : e.setup = some setup)
    (memory : PacketSink) :
    IsAllOrNothing [setup.frameSize] memory (e.encodeFrame frame (.packets memory)).1
      (e.encodeFrame frame (.packets memory)).2.2 := by
  obtain ⟨setup', prepared, hopen, hcount, hprepare⟩ := of_refusal_eq_none h
  obtain rfl : setup = setup' := Option.some.inj (hsetup ▸ hopen)
  rw [encodeFrame_of_heard hopen hcount hprepare]
  exact setup.isAllOrNothing_handOver _ memory

/-! ### Opening -/

/-- What an encoder was opened with has passed every check. -/
def IsOpenedWith (p : Parameters) (opened : Encoder) : Prop :=
  ∃ options, p.check .atrac3Plus = .ok () ∧ p.atrac3Plus? = some options ∧
    opened = { setup := some ⟨p.channels, options.frameSize⟩ }

theorem isOpening_openWith (p : Parameters) : IsOpening (openWith · p) (IsOpenedWith p) := by
  simp only [openWith]
  cases hcheck : p.check .atrac3Plus with
  | error cause => exact .inl ⟨cause, fun _ => rfl⟩
  | ok =>
    cases hoptions : p.atrac3Plus? with
    | none => exact .inl ⟨_, fun _ => rfl⟩
    | some options =>
      dsimp only
      split
      · exact .inl ⟨_, fun _ => rfl⟩
      · split
        · exact .inl ⟨_, fun _ => rfl⟩
        · exact .inr ⟨_, ⟨options, hcheck, hoptions, rfl⟩, fun _ => rfl⟩

theorem openWith_eq_ok {opened : Encoder} {p : Parameters} (h : e.openWith p = (.ok (), opened)) :
    IsOpenedWith p opened := (isOpening_openWith p).of_eq_ok h

theorem isWhole_closed : closed.IsWhole := rfl

theorem isWhole_opened {opened : Encoder} {p : Parameters} (h : e.openWith p = (.ok (), opened)) :
    opened.IsWhole := by
  obtain ⟨options, -, -, rfl⟩ := openWith_eq_ok h
  exact isWhole_closed

theorem outline_opened {opened : Encoder} {p : Parameters} (h : e.openWith p = (.ok (), opened)) :
    opened.outline = opened := by
  obtain ⟨options, -, -, rfl⟩ := openWith_eq_ok h
  rfl

theorem isWhole_of_outline (h : e.outline.IsWhole) : e.IsWhole := by
  have hcleared : e.pipeline.cleared.stages = stages := h
  rwa [stages_cleared] at hcleared

end Encoder

end Atrac3Plus

end SpectralCoding
