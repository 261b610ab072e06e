import SpectralCoding.Binary32

/-!
# Loudness

* `loudnessCurve` : the weight of each spectral line, greatest in the middle frequencies.
* `frameLoudness` : the weighted energy of a spectrum.
* `Loudness` : the running estimate over frames, a first-order low-pass over about fifty of them.
* `Loudness.relative` : the estimate as a multiple of the one it starts from.
-/

namespace SpectralCoding

/-- The weight of a line at `f` hertz. -/
def loudnessWeight (f : Float32) : Float32 :=
  let t := Float32.log10 f - 3.5
  let level := -10 * t * t + 3 - f / 3000
  Float32.pow 10 (0.1 * level)

/-- The weights of `lines` spectral lines. -/
def loudnessCurve (lines : Nat) : List Float32 :=
  (List.range lines).map fun i =>
    loudnessWeight (Float32.ofNat (i + 3) * 0.5 * 44100 / Float32.ofNat lines)

/-- The weighted energy of a spectrum; lines without a weight and weights without a line do not
count. -/
def frameLoudness (spectrum curve : List Float32) : Float32 :=
  Binary32.sum (List.zipWith (fun s c => s * s * c) spectrum curve)

/-- The running estimate of loudness. -/
structure Loudness where
  /-- The estimate. -/
  value : Float32
  deriving Inhabited

namespace Loudness

/-- The estimate before the first frame, and the unit of relative loudness. -/
def unit : Float32 := 0.006

/-- The estimate before the first frame. -/
def initial : Loudness := ⟨unit⟩

/-- Take a frame of one channel into account. -/
def track (e : Loudness) (l : Float32) : Loudness := ⟨0.98 * e.value + 0.02 * l⟩

/-- Take a frame of two channels into account. -/
def trackPair (e : Loudness) (l r : Float32) : Loudness := ⟨0.98 * e.value + 0.01 * (l + r)⟩

/-- Take a frame into account, given the loudness of each of its one or two channels. -/
def trackChannels (e : Loudness) : List Float32 → Loudness
  | [l] => e.track l
  | [l, r] => e.trackPair l r
  | _ => e

/-- The estimate as a multiple of the initial one. -/
def relative (e : Loudness) : Float32 := e.value / unit

end Loudness

end SpectralCoding
