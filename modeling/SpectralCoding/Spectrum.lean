import SpectralCoding.Window

/-!
# Frames of spectral lines

What an encoder is given: one spectrum per channel, already transformed, with the side information
that the analysis found.

* `GainPoint` : a point of an ATRAC3 gain curve.
* `Wave`, `Envelope`, `ToneBand` : the sinusoids of an ATRAC3+ tone band and the time they sound.
* `ChannelSpectrum`, `SpectralFrame` : one channel and one frame.
-/

namespace SpectralCoding

/-- A point of a gain curve. -/
structure GainPoint where
  /-- The level, four bits. -/
  level : Nat
  /-- The location in time, five bits. -/
  location : Nat
  deriving DecidableEq, Repr, Inhabited

/-- A sinusoid. -/
structure Wave where
  /-- The frequency index, ten bits. -/
  frequency : Nat
  /-- The scale factor index of the amplitude, six bits. -/
  amplitude : Nat
  /-- The phase index, five bits. -/
  phase : Nat
  deriving DecidableEq, Repr, Inhabited

/-- The time during which the waves of a band sound, in units of four samples; open where not
given. -/
structure Envelope where
  start : Option Nat := none
  stop : Option Nat := none
  deriving DecidableEq, Repr, Inhabited

/-- The sinusoids of one tone band, in ascending order of frequency. -/
structure ToneBand where
  waves : List Wave := []
  envelope : Envelope := {}
  deriving DecidableEq, Repr, Inhabited

/-- One channel of a frame. -/
structure ChannelSpectrum where
  /-- The spectral lines. -/
  lines : List Float32
  /-- The windows they were transformed with. -/
  windows : WindowMode := .long
  /-- The gain points of each band (ATRAC3). -/
  gain : List (List GainPoint) := []
  /-- The tone bands (ATRAC3+). -/
  tones : List ToneBand := []
  deriving Inhabited

/-- One frame, a spectrum per channel. -/
structure SpectralFrame where
  channels : List ChannelSpectrum
  deriving Inhabited

end SpectralCoding
