import SpectralCoding.Atrac3Plus.Stages
import SpectralCoding.Bits.Writer
import SpectralCoding.Hearing.Loudness
import SpectralCoding.Sink

/-!
# The ATRAC3+ encoder

* `Atrac3Plus.Encoder`, `Encoder.openWith`, `Encoder.reset`, `Encoder.encodeFrame` : an encoder,
  which makes frames of a size chosen when it is opened.
-/

namespace SpectralCoding

namespace Atrac3Plus

/-- The stages in single precision. -/
abbrev FramePipeline := Pipeline Float32 Frame Fields

/-- The stages with nothing remembered. -/
def freshPipeline : FramePipeline := .ofStages (stages.map fun s => (s, []))

/-- What an encoder was opened with. -/
structure Setup where
  channels : Nat
  /-- The bytes of a frame. -/
  frameSize : Nat
  deriving DecidableEq, Repr, Inhabited

/-- An encoder between frames. -/
structure Encoder where
  /-- What the encoder was opened with, if it is open. -/
  setup : Option Setup := none
  pipeline : FramePipeline := freshPipeline
  loudness : Loudness := .initial

/-- The least and the greatest frame size in bytes. -/
def leastFrameSize : Nat := 8

/-- The greatest frame size in bytes. -/
def greatestFrameSize : Nat := 8192

/-- The weights of the 2048 spectral lines in the loudness of a frame. -/
def lineWeights : List Float32 := loudnessCurve Layout.atrac3Plus.frameLines

/-- One channel, checked and scaled, with its loudness. -/
def prepareChannel (ch : ChannelSpectrum) : Except Error (Channel × Float32) := do
  checkTones ch.tones
  let blocks ← Layout.atrac3Plus.scaleFrame ch.lines .long
  return ({ blocks, spread := spread blocks, tones := ch.tones }, frameLoudness ch.lines lineWeights)

namespace Encoder

/-- An encoder that is not open. -/
def closed : Encoder := {}

/-- Take on parameters. -/
def openWith (e : Encoder) (p : Parameters) : Except Error Unit × Encoder :=
  match p.check .atrac3Plus with
  | .error cause => (.error cause, e)
  | .ok () =>
    match p.atrac3Plus? with
    | none => (.error (.missingOptions .atrac3Plus), e)
    | some options =>
      let size := options.frameSize
      if size < leastFrameSize ∨ greatestFrameSize < size then
        (.error (.frameSize size leastFrameSize greatestFrameSize), e)
      else if size * 8 < leastBits p.channels then (.error (.frameTooSmall size p.channels), e)
      else
        (.ok (),
          { e with
            setup := some ⟨p.channels, size⟩, pipeline := freshPipeline, loudness := .initial })

/-- Forget the programme heard so far. -/
def reset (e : Encoder) : Encoder := { e with loudness := .initial }

/-- Encode a frame. -/
def encodeFrame (e : Encoder) (frame : SpectralFrame) (sink : Sink) :
    Except Error Unit × Encoder × Sink :=
  match e.setup with
  | none => (.error (.notOpen .atrac3Plus), e, sink)
  | some setup =>
    if frame.channels.length ≠ setup.channels then
      (.error (.channelCount setup.channels frame.channels.length), e, sink)
    else match frame.channels.mapM prepareChannel with
      | .error cause => (.error cause, e, sink)
      | .ok prepared =>
        let loudness := e.loudness.trackChannels (prepared.map (·.2))
        let size := setup.frameSize * 8
        let encoded := e.pipeline.encode
          { size, channels := prepared.map (·.1), thresholds := audibility
            loudness := loudness.relative }
        let e := { e with loudness, pipeline := encoded.pipeline }
        match encoded.emission.fault with
        | some cause => (.error cause, e, sink)
        | none =>
          let bits := encoded.emission.bits
          if size < bits.length then (.error (.frameBudget bits.length size), e, sink)
          else
            let (result, sink) := sink.write ((BitWriter.empty.append bits).padTo size).finish
            (result, e, sink)

end Encoder

end Atrac3Plus

end SpectralCoding
