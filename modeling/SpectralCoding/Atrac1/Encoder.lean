import SpectralCoding.Atrac1.Stages
import SpectralCoding.Bits.Writer
import SpectralCoding.Hearing.Loudness
import SpectralCoding.Sink
import SpectralCoding.Spectrum

/-!
# The ATRAC1 encoder

* `Atrac1.Encoder` : an encoder between frames.
* `Encoder.openWith`, `Encoder.reset` : take on parameters; forget the programme heard so far.
* `Encoder.encodeFrame` : one sound unit per channel, each handed to the sink as soon as it is made.

The loudness estimate follows the frames: both channels where all their windows are long, the first
channel alone where only its windows are.
-/

namespace SpectralCoding

namespace Atrac1

/-- The stages of one channel, in single precision. -/
abbrev ChannelPipeline := Pipeline Float32 Frame (List Nat)

/-- What an encoder was opened with. -/
structure Setup where
  channels : Nat
  /-- The index of the number of blocks a frame starts with. -/
  index : Nat
  deriving DecidableEq, Repr, Inhabited

/-- An encoder between frames. -/
structure Encoder where
  /-- What the encoder was opened with, if it is open. -/
  setup : Option Setup := none
  /-- The stages of every channel. -/
  pipelines : List ChannelPipeline := []
  loudness : Loudness := .initial

/-- The weights of the 512 spectral lines in the loudness of a frame. -/
def lineWeights : List Float32 := loudnessCurve Layout.atrac1.frameLines

/-- The table index that a choice of the number of blocks starts with. -/
def startIndex : Option Nat → Except Error Nat
  | none => .ok lastIndex
  | some n => if 1 ≤ n ∧ n ≤ blockCounts.length then .ok (n - 1) else .error (.blockTableIndex n)

/-- The windows of a channel fit the window fields. -/
def fitsWindowFields (windows : WindowMode) : Bool :=
  (List.zipWith (fun c limit => decide (c ≤ limit)) windows.toList windowLimits).all id && windows.top == 0

/-- The loudness estimate after a frame. -/
def hear (loudness : Loudness) (frame : SpectralFrame) : Loudness :=
  let heard := frame.channels.map fun ch => frameLoudness ch.lines lineWeights
  match frame.channels.map (·.windows.isAllLong), heard with
  | [true, true], [l, r] => loudness.trackPair l r
  | true :: _, l :: _ => loudness.track l
  | _, _ => loudness

/-- One channel, made into the bytes of a sound unit. -/
def encodeUnit (index : Nat) (loudness : Float32) (pipeline : ChannelPipeline) (ch : ChannelSpectrum) :
    Except Error (List UInt8) × ChannelPipeline :=
  match Layout.atrac1.scaleFrame ch.lines ch.windows with
  | .error e => (.error e, pipeline)
  | .ok blocks =>
    let frame := { blocks, windows := ch.windows, loudness, spread := spread blocks, index }
    let encoded := pipeline.encode frame
    match encoded.emission.fault with
    | some e => (.error e, encoded.pipeline)
    | none =>
      (.ok ((BitWriter.empty.append encoded.emission.bits).padTo unitBits).finish, encoded.pipeline)

/-- The channels of a frame, one after the other, each handed to the sink; the first failure ends
the frame. -/
def encodeChannels (index : Nat) (loudness : Float32) :
    List (ChannelPipeline × ChannelSpectrum) → Sink → Except Error Unit × List ChannelPipeline × Sink
  | [], sink => (.ok (), [], sink)
  | (pipeline, ch) :: rest, sink =>
    match encodeUnit index loudness pipeline ch with
    | (.error e, pipeline) => (.error e, pipeline :: rest.map (·.1), sink)
    | (.ok bytes, pipeline) =>
      match sink.write bytes with
      | (.error e, sink) => (.error e, pipeline :: rest.map (·.1), sink)
      | (.ok (), sink) =>
        let (result, pipelines, sink) := encodeChannels index loudness rest sink
        (result, pipeline :: pipelines, sink)

namespace Encoder

/-- An encoder that is not open. -/
def closed : Encoder := {}

/-- Take on parameters. -/
def openWith (e : Encoder) (p : Parameters) : Except Error Unit × Encoder :=
  match p.check .atrac1 with
  | .error cause => (.error cause, e)
  | .ok () =>
    match p.atrac1? with
    | none => (.error (.missingOptions .atrac1), e)
    | some options =>
      match startIndex options.blockIndex with
      | .error cause => (.error cause, e)
      | .ok index =>
        (.ok (),
          { e with
            setup := some { channels := p.channels, index }
            pipelines := List.replicate p.channels
              (.ofStages (stages options.blockIndex.isNone options.isFast))
            loudness := .initial })

/-- Forget the programme heard so far. -/
def reset (e : Encoder) : Encoder := { e with loudness := .initial }

/-- Encode a frame. -/
def encodeFrame (e : Encoder) (frame : SpectralFrame) (sink : Sink) :
    Except Error Unit × Encoder × Sink :=
  match e.setup with
  | none => (.error (.notOpen .atrac1), e, sink)
  | some setup =>
    if frame.channels.length ≠ setup.channels then
      (.error (.channelCount setup.channels frame.channels.length), e, sink)
    else match frame.channels.find? fun ch => !fitsWindowFields ch.windows with
      | some ch => (.error (.windowMode ch.windows.toList), e, sink)
      | none =>
        let loudness := hear e.loudness frame
        let (result, pipelines, sink) :=
          encodeChannels setup.index loudness.relative (e.pipelines.zip frame.channels) sink
        (result, { e with loudness, pipelines }, sink)

end Encoder

end Atrac1

end SpectralCoding
