import SpectralCoding.Block

/-!
# The threshold of hearing

* `hearingThreshold` : the faintest audible level at each spectral line, after Terhardt's
  approximation.
* `blockThreshold` : the energy below which a block of a layout is inaudible, the least over its
  lines.

All steps are in single precision and in the order written.
-/

namespace SpectralCoding

/-- The level in decibels that full scale stands above zero of the approximation. -/
def thresholdOffset : Float32 := 100

/-- The faintest audible level in decibels at `f` kilohertz. -/
def thresholdAt (f : Float32) : Float32 :=
  let square := f * f
  3.64 * Float32.pow f (-0.8) - 6.5 * Float32.exp (-0.6 * (f - 3.3) * (f - 3.3))
    + 0.001 * (square * square)

/-- The faintest audible levels of `lines` equally wide bands up to half the sampling rate. -/
def hearingThreshold (lines rate : Nat) : List Float32 :=
  let top := Float32.ofNat rate / 2000
  (List.range lines).map fun i =>
    thresholdAt (Float32.ofNat (i + 1) * top / Float32.ofNat lines) - thresholdOffset

/-- The least of `xs`, infinity if there is none; what is not a number does not count. -/
def least (xs : List Float32) : Float32 :=
  xs.foldl (fun m x => if x < m then x else m) (Float32.ofBits 0x7f800000)

/-- The energy of `level` decibels. -/
def energyOfDecibels (level : Float32) : Float32 := Float32.pow 10 (0.1 * level)

/-- The energy below which each block is inaudible. -/
def blockThreshold (L : Layout) (rate : Nat) : List Float32 :=
  let levels := hearingThreshold L.frameLines rate
  (List.range L.blocks).map fun block =>
    energyOfDecibels (least (L.blockLines .long levels block))

end SpectralCoding
