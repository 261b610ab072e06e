import SpectralCoding.Atrac3.Gain
import SpectralCoding.Atrac3.TonalSearch
import SpectralCoding.Bits.Writer
import SpectralCoding.Hearing.Loudness
import SpectralCoding.Sink

/-!
# The ATRAC3 encoder

A frame is two sound units of equal size; one channel is written twice.

    6       0x28
    2       number of bands less one
            gain curves, tonal components, spectrum

* `Atrac3.Profile` : the frame sizes by bit rate.
* `Atrac3.emitSoundUnit` : the serialisation of a sound unit.
* `Atrac3.Encoder`, `Encoder.openWith`, `Encoder.reset`, `Encoder.encodeFrame` : the encoder.
-/

namespace SpectralCoding

namespace Atrac3

/-! ### Profiles -/

/-- A bit rate and its frame size. -/
structure Profile where
  bitRate : Nat
  /-- The bytes of a frame, both sound units together. -/
  frameSize : Nat
  isJointStereo : Bool := false
  deriving DecidableEq, Repr, Inhabited

/-- The profiles by rising bit rate. -/
def profiles : List Profile :=
  [⟨66150, 192, true⟩, ⟨93713, 272, true⟩, ⟨104738, 304, false⟩, ⟨132300, 384, false⟩,
   ⟨146081, 424, false⟩, ⟨176400, 512, false⟩, ⟨264600, 768, false⟩, ⟨352800, 1024, false⟩]

/-- The slowest profile of at least the given bit rate. -/
def profileFor (bitRate : Nat) : Option Profile := profiles.find? (bitRate ≤ ·.bitRate)

/-! ### Sound units -/

/-- The mark that opens a sound unit. -/
def unitMark : Nat := 0x28

/-- The bits of a sound unit before the gain curves. -/
def headerBits : Nat := 6 + 2

/-- A sound unit. -/
def emitSoundUnit (gain : List (List GainPoint)) (tonal : TonalGroups) (blocks : List ScaledBlock)
    (coding : SpectrumCoding) : Emission :=
  .concat
    [.field 6 unitMark, .field 2 (codedBands - 1), emitGain gain, tonal.emit, coding.emit blocks]

/-! ### The encoder -/

/-- What an encoder was opened with. -/
structure Setup where
  channels : Nat
  /-- The bytes of a frame. -/
  frameSize : Nat
  /-- A fixed number of blocks. -/
  fixedCount : Option Nat
  /-- Tonal components are coded. -/
  isTonal : Bool
  deriving DecidableEq, Repr, Inhabited

/-- The bits of a sound unit. -/
def Setup.unitBits (s : Setup) : Nat := s.frameSize / 2 * 8

/-- An encoder between frames. -/
structure Encoder where
  /-- What the encoder was opened with, if it is open. -/
  setup : Option Setup := none
  loudness : Loudness := .initial
  deriving Inhabited

/-- The weights of the 1024 spectral lines in the loudness of a frame. -/
def lineWeights : List Float32 := loudnessCurve Layout.atrac3.frameLines

/-- The loudness estimate after a frame. -/
def hear (loudness : Loudness) (frame : SpectralFrame) : Loudness :=
  loudness.trackChannels (frame.channels.map fun ch => frameLoudness ch.lines lineWeights)

/-- The blocks of a spectrum and the scatter of their scale factors. -/
def scaleSpectrum (spectrum : List Float32) : Except Error (List ScaledBlock × Float32) :=
  match Layout.atrac3.scaleFrame spectrum .long with
  | .error e => .error e
  | .ok blocks => .ok (blocks, spread blocks)

/-- The parts of a sound unit that are decided on one channel. -/
structure UnitParts where
  tonal : TonalGroups
  blocks : List ScaledBlock
  coding : SpectrumCoding
  deriving Inhabited

/-- The parts of the sound unit of one channel. A quarter of what gain curves leave may go to tonal
components; the spectrum without them gets the rest. -/
def decideUnit (s : Setup) (loudness : Float32) (ch : ChannelSpectrum) : Except Error UnitParts := do
  checkGain ch.gain
  let (whole, wholeSpread) ← scaleSpectrum ch.lines
  let available := s.unitBits - (headerBits + gainCost ch.gain)
  let (tonal, residue) :=
    if s.isTonal then extractTonal ch.lines wholeSpread (available / 4) else (.build [], ch.lines)
  let (blocks, spread) ← if tonal.isEmpty then pure (whole, wholeSpread) else scaleSpectrum residue
  let allotment :=
    { blocks, spread, thresholds := audibility, loudness, fixedCount := s.fixedCount }
  return { tonal, blocks, coding := allocate Float32 allotment (available - tonal.bits) }

/-- One channel, made into the bytes of a sound unit. -/
def encodeUnit (s : Setup) (loudness : Float32) (ch : ChannelSpectrum) : Except Error (List UInt8) := do
  let parts ← decideUnit s loudness ch
  let emission := emitSoundUnit ch.gain parts.tonal parts.blocks parts.coding
  if let some e := emission.fault then throw e
  if s.unitBits < emission.bits.length then throw (.unitBudget emission.bits.length s.unitBits)
  return ((BitWriter.empty.append emission.bits).padTo s.unitBits).finish

/-- The bytes of a frame: the sound units of both channels, or that of the only one twice. -/
def encodeUnits (s : Setup) (loudness : Float32) (channels : List ChannelSpectrum) :
    Except Error (List UInt8) := do
  let units ← channels.mapM (encodeUnit s loudness)
  return if s.channels = 1 then units.flatten ++ units.flatten else units.flatten

namespace Encoder

/-- An encoder that is not open. -/
def closed : Encoder := {}

/-- The bytes of a frame, zero before the encoder is opened. -/
def frameSize (e : Encoder) : Nat := (e.setup.map (·.frameSize)).getD 0

/-- Take on parameters. -/
def openWith (e : Encoder) (p : Parameters) : Except Error Unit × Encoder :=
  match p.check .atrac3 with
  | .error cause => (.error cause, e)
  | .ok () =>
    match p.atrac3? with
    | none => (.error (.missingOptions .atrac3), e)
    | some options =>
      match profileFor p.bitRate with
      | none => (.error (.noProfile p.bitRate), e)
      | some profile =>
        if profile.isJointStereo then (.error (.jointStereo profile.bitRate), e)
        else
          match options.blocks.filter fun n => decide (n = 0 ∨ Layout.atrac3.blocks < n) with
          | some n => (.error (.fixedBlockCount n), e)
          | none =>
            let setup : Setup :=
              { channels := p.channels
                frameSize := profile.frameSize
                fixedCount := options.blocks
                isTonal := !options.isPlain }
            (.ok (), { e with setup := some setup, loudness := .initial })

/-- Forget the programme heard so far. -/
def reset (e : Encoder) : Encoder := { e with loudness := .initial }

/-- Encode a frame. -/
def encodeFrame (e : Encoder) (frame : SpectralFrame) (sink : Sink) :
    Except Error Unit × Encoder × Sink :=
  match e.setup with
  | none => (.error (.notOpen .atrac3), e, sink)
  | some setup =>
    if frame.channels.length ≠ setup.channels then
      (.error (.channelCount setup.channels frame.channels.length), e, sink)
    else
      let loudness := hear e.loudness frame
      let e := { e with loudness }
      match encodeUnits setup loudness.relative frame.channels with
      | .error cause => (.error cause, e, sink)
      | .ok bytes =>
        let (result, sink) := sink.write bytes
        (result, e, sink)

end Encoder

end Atrac3

end SpectralCoding
