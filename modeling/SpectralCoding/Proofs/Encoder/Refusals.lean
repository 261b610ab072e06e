import SpectralCoding.Proofs.Encoder.Sessions

/-!
# Refused frames

A frame that is refused before it is heard leaves the encoder as it was. Some causes show only once
the frame has been heard: the length of a spectrum for ATRAC1, that and the gain points for ATRAC3,
and tones that leave no room for the fixed fields for ATRAC3+. A frame refused for one of them stays
in the loudness estimate as if it had been encoded.

* `Encoder.comesLate` : the causes for which a frame is refused though it was heard.
* `Encoder.Alike` : encoders that have heard the same and deal with all frames to come alike.
* `Session.alike_of_refused` : **a refused frame leaves no trace, unless its cause comes late and
  hearing it changes the estimate.**
* `Session.loudness_noLines` : a frame that leaves one.
-/

namespace SpectralCoding

namespace Encoder

/-- The loudness estimate. -/
def loudness : Encoder → Loudness
  | atrac1 e => e.loudness
  | atrac3 e => e.loudness
  | atrac3Plus e => e.loudness

/-- The causes for which a frame is refused though it was heard. -/
def comesLate : CodecId → Error → Bool
  | .atrac1 => Atrac1.comesLate
  | .atrac3 => Atrac3.comesLate
  | .atrac3Plus => Atrac3Plus.comesLate

/-- The encoders have heard the same and deal with all frames to come alike. -/
def Alike (e e' : Encoder) : Prop :=
  e.loudness = e'.loudness ∧ ∀ frames sink, e.encodeFrames frames sink = e'.encodeFrames frames sink

variable {e e' : Encoder} {frame : SpectralFrame} {cause : Error}

theorem Alike.refl (e : Encoder) : e.Alike e := ⟨rfl, fun _ _ => rfl⟩

theorem loudness_cleared (e : Encoder) : e.cleared.loudness = e.loudness := by
  cases e <;> rfl

theorem loudness_of_cleared_eq (h : e.cleared = e'.cleared) : e.loudness = e'.loudness := by
  rw [← loudness_cleared, h, loudness_cleared]

theorem alike_of_cleared_eq (he : e.outline.IsWhole) (h : e.cleared = e'.cleared) : e.Alike e' :=
  ⟨loudness_of_cleared_eq h, encodeFrames_of_cleared_eq he h⟩

theorem hearing_eq_self (h : (e.hearing frame).loudness = e.loudness) : e.hearing frame = e := by
  cases e with
  | atrac1 e => exact congrArg (fun l => atrac1 { e with loudness := l }) h
  | atrac3 e => exact congrArg (fun l => atrac3 { e with loudness := l }) h
  | atrac3Plus e => exact congrArg (fun l => atrac3Plus { e with loudness := l }) h

theorem not_comesLate_of_refusal (h : e.refusal frame = some cause) :
    comesLate e.codec cause = false := by
  cases e with
  | atrac1 e => exact Atrac1.Encoder.not_comesLate_of_refusal h
  | atrac3 e => exact Atrac3.Encoder.not_comesLate_of_refusal h
  | atrac3Plus e => exact Atrac3Plus.Encoder.not_comesLate_of_refusal h

/-- A frame that is refused once it was heard is refused for a cause that comes late. -/
theorem comesLate_of_refused (he : e.IsWhole) (h : e.refusal frame = none) {sink : Sink}
    (hrefused : (e.encodeFrame frame sink).1 = .error cause)
    (hkind : cause.kind = .invalidArgument) : comesLate e.codec cause = true := by
  cases e with
  | atrac1 e => exact Atrac1.Encoder.comesLate_of_refused he h hrefused hkind
  | atrac3 e => exact Atrac3.Encoder.comesLate_of_refused h hrefused hkind
  | atrac3Plus e => exact Atrac3Plus.Encoder.comesLate_of_refused he h hrefused hkind

end Encoder

namespace Session

/-- **A refused frame leaves no trace, unless its cause comes late and hearing it changes the
estimate. If its cause comes late, it is heard like a frame that was encoded.** -/
theorem alike_of_refused {codec : CodecId} {calls : List Call} {frame : SpectralFrame}
    {sink : Sink} {cause : Error}
    (hrefused : ((after codec calls).encoder.encodeFrame frame sink).1 = .error cause)
    (hkind : cause.kind = .invalidArgument) :
    let e := (after codec calls).encoder
    let later := (e.encodeFrame frame sink).2.1
    (later.Alike e ↔
        (Encoder.comesLate codec cause = true → (e.hearing frame).loudness = e.loudness)) ∧
      (Encoder.comesLate codec cause = true → later.Alike (e.hearing frame)) := by
  intro e later
  obtain ⟨hcodec, hwhole, -⟩ := of_origin_eq_ok (origin_after codec calls)
  rw [Encoder.codec_outline] at hcodec
  have he : e.IsWhole := Encoder.isWhole_of_outline hwhole
  cases hheard : e.refusal frame with
  | some cause' =>
    -- refused unheard, so that the encoder is the one before
    have hdone := Encoder.encodeFrame_of_refusal hheard sink
    obtain rfl : cause' = cause := Except.error.inj ((congrArg Prod.fst hdone).symm.trans hrefused)
    have hlate : Encoder.comesLate codec cause' = false :=
      hcodec ▸ Encoder.not_comesLate_of_refusal hheard
    have hsame : later = e := congrArg (·.2.1) hdone
    rw [hsame, hlate]
    exact ⟨⟨fun _ => nofun, fun _ => Encoder.Alike.refl e⟩, nofun⟩
  | none =>
    -- refused once it was heard: what the stages remember differs, and no later frame sees that
    have hlate : Encoder.comesLate codec cause = true :=
      hcodec ▸ Encoder.comesLate_of_refused he hheard hrefused hkind
    have hlater : later.outline.IsWhole := Encoder.isWhole_encodeFrame hwhole frame sink
    have halike : later.Alike (e.hearing frame) :=
      Encoder.alike_of_cleared_eq hlater (Encoder.cleared_encodeFrame he hheard sink)
    refine ⟨⟨fun h _ => halike.1.symm.trans h.1, fun h => ?_⟩, fun _ => halike⟩
    rwa [Encoder.hearing_eq_self (h hlate)] at halike

/-- A frame without channels. -/
def noChannels : SpectralFrame := ⟨[]⟩

/-- A single channel without lines. -/
def noLines : SpectralFrame := ⟨[{ lines := [] }]⟩

/-- An empty sink for one channel. -/
def monoMemory : Sink := .packets { name := "", channels := 1 }

/-- An encoder that has been opened for one channel. -/
def monoEncoder : Encoder := (after .atrac1 [.openWith mono]).encoder

theorem alike_noChannels_noLines :
    (monoEncoder.encodeFrame noChannels monoMemory).1 = .error (.channelCount 1 0) ∧
      (monoEncoder.encodeFrame noChannels monoMemory).2.1.Alike monoEncoder ∧
      (monoEncoder.encodeFrame noLines monoMemory).1 = .error (.spectrumLength 0 512) ∧
      (monoEncoder.encodeFrame noLines monoMemory).2.1.Alike (monoEncoder.hearing noLines) := by
  unfold monoEncoder
  have hearly : ((after .atrac1 [.openWith mono]).encoder.encodeFrame noChannels monoMemory).1 =
      .error (.channelCount 1 0) := rfl
  have hlate : ((after .atrac1 [.openWith mono]).encoder.encodeFrame noLines monoMemory).1 =
      .error (.spectrumLength 0 512) := rfl
  obtain ⟨htraceless, -⟩ := alike_of_refused hearly rfl
  obtain ⟨-, hheard⟩ := alike_of_refused hlate rfl
  exact ⟨hearly, htraceless.2 nofun, hlate, hheard rfl⟩

theorem loudness_noLines :
    (monoEncoder.encodeFrame noLines monoMemory).1 = .error (.spectrumLength 0 512) ∧
      (Error.spectrumLength 0 512).kind = .invalidArgument ∧
      (monoEncoder.encodeFrame noLines monoMemory).2.1.loudness ≠ monoEncoder.loudness := by
  refine ⟨rfl, rfl, fun hsame => ?_⟩
  have hbits := congrArg (·.value.toBits) hsame
  revert hbits
  decide +kernel

end Session

end SpectralCoding
