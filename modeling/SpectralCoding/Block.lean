import SpectralCoding.Binary32
import SpectralCoding.Error
import SpectralCoding.Layout
import SpectralCoding.Window

/-!
# Scaled blocks

A block of spectral lines is stored as a scale factor index and values of magnitude below one.

* `ScaledBlock` : index, values and peak energy of a block.
* `Layout.scaleIndex` : the least scale factor that covers a magnitude.
* `Layout.scale` : a block of lines, scaled.
* `Layout.scaleFrame` : a whole frame, cut and scaled under a window mode.
* `spread` : how far the scale factor indices of a frame scatter, from zero (noise) to one (tones).
-/

namespace SpectralCoding

/-- A block of spectral lines divided by a scale factor. -/
structure ScaledBlock where
  /-- The index of the scale factor. -/
  index : Nat
  /-- The scaled lines. -/
  values : List Float32
  /-- The square of the greatest magnitude before scaling. -/
  energy : Float32
  deriving Inhabited

/-- The greatest magnitude among `values`; what is not a number does not count. -/
def peakMagnitude (values : List Float32) : Float32 :=
  values.foldl (fun m v => if m < v.abs then v.abs else m) 0

/-- The magnitude that a scaled value of one or more is set to. -/
def clippedMagnitude : Float32 := 0.99999

/-- `v`, with a magnitude of one or more set to `clippedMagnitude`. -/
def clip (v : Float32) : Float32 :=
  if 1 ≤ v.abs then (if v < 0 then -clippedMagnitude else clippedMagnitude) else v

/-- A number small enough to be exact, as a binary32 number. -/
def ofCount (n : Nat) : Float32 := Float32.ofNat n

/-- The standard deviation of scale factor indices beyond which a frame counts as tones only. -/
def widestDeviation : Float32 := 14

/-- The scatter of scale factor indices: their standard deviation as a share of
`widestDeviation`. -/
def indexSpread (indices : List Nat) : Float32 :=
  if indices.isEmpty then 0
  else
    let n := ofCount indices.length
    let mean := Binary32.sum (indices.map ofCount) / n
    let variance := Binary32.sum (indices.map fun i => (ofCount i - mean) * (ofCount i - mean)) / n
    let deviation := variance.sqrt
    (if deviation < widestDeviation then deviation else widestDeviation) / widestDeviation

/-- The scatter of the scale factor indices of `blocks`. -/
def spread (blocks : List ScaledBlock) : Float32 := indexSpread (blocks.map (·.index))

namespace Layout

variable (L : Layout)

/-- The index of the least scale factor not below `magnitude`, or the last index if there is
none. -/
def scaleIndex (magnitude : Float32) : Nat :=
  min (L.scaleFactors.takeWhile (· < magnitude)).length (ScaleFactor.count - 1)

/-- A block of lines, scaled. -/
def scale (values : List Float32) : ScaledBlock :=
  let peak := peakMagnitude values
  let index := L.scaleIndex peak
  let factor := L.scaleFactor index
  { index, values := values.map fun v => clip (v / factor), energy := peak * peak }

/-- The first line of block `block` under a window mode. -/
def firstLine (mode : WindowMode) (block : Nat) : Nat :=
  if mode.isShort (L.bandOf block) then L.shortStarts.getD block 0 else L.longStarts.getD block 0

/-- The lines of block `block` under a window mode. -/
def blockLines (mode : WindowMode) (spectrum : List Float32) (block : Nat) : List Float32 :=
  (spectrum.drop (L.firstLine mode block)).take (L.lines.getD block 0)

/-- A frame cut into blocks, each scaled. -/
def scaleFrame (spectrum : List Float32) (mode : WindowMode) : Except Error (List ScaledBlock) :=
  if spectrum.length = L.frameLines then
    .ok ((List.range L.blocks).map fun block => L.scale (L.blockLines mode spectrum block))
  else .error (.spectrumLength spectrum.length L.frameLines)

theorem scaleIndex_lt (magnitude : Float32) : L.scaleIndex magnitude < ScaleFactor.count := by
  simp only [scaleIndex, ScaleFactor.count]
  omega

end Layout

end SpectralCoding
