import SpectralCoding.Atrac3.Allocation
import SpectralCoding.Atrac3.TonalGroup

/-!
# Finding tonal components

* `Atrac3.extractComponents` : lines that stand out in their block, taken from the spectrum.
* `Atrac3.extractTonal` : as many of them as a budget pays for, the strongest first; the others are
  put back.

A block yields at most one component: a run of up to eight lines that begins with its peak, if the
peak stands above a multiple of the median magnitude. Blocks are searched from the lowest up, each
on what the ones before have left.
-/

namespace SpectralCoding

namespace Atrac3

/-- The most components of a frame. -/
def mostComponents : Nat := 31

/-- The most lines of a component. -/
def longestComponent : Nat := 8

/-- How far above the median a peak has to stand, by band. -/
def peakFactors : List Float32 := [10, 8, 8, 6]

/-- Peaks up to this magnitude are left alone. -/
def faintestPeak : Float32 := 1e-4

/-- The least positive number with a leading one. -/
def leastNormal : Float32 := Float32.ofBits 0x00800000

/-- The middle one of the magnitudes in order, the upper one of two. -/
def medianMagnitude (values : List Float32) : Float32 :=
  let patterns := (values.map fun v => Binary32.pattern v.abs).mergeSort (· ≤ ·)
  Float32.ofBits (UInt32.ofNat (patterns.getD (patterns.length / 2) 0))

/-- The place and magnitude of the last greatest magnitude in the order of bit patterns. -/
def peakOf (values : List Float32) : Nat × Float32 :=
  values.zipIdx.foldl
    (fun best (v, i) => if Binary32.orderKey best.2 ≤ Binary32.orderKey v.abs then (i, v.abs) else best)
    (0, 0)

/-- The selector of a component: one above that of its block without a shift, at least two. -/
def componentSelector (spread : Float32) (scaled : ScaledBlock) (block : Nat) : Nat :=
  let s := clampSelector (blend spread scaled.index (fixedSelectors.getD block 0) 0)
  max 2 (min 7 (s + 1))

/-- A spectrum being searched and the components taken from it. -/
structure Extraction where
  spectrum : List Float32
  found : List TonalComponent
  deriving Inhabited

/-- `values` in place of as many lines from `first` on. -/
def putLines (spectrum : List Float32) (first : Nat) (values : List Float32) : List Float32 :=
  spectrum.take first ++ values ++ spectrum.drop (first + values.length)

/-- Search one block. -/
def searchBlock (spread : Float32) (e : Extraction) (block : Nat) : Extraction :=
  let start := Layout.atrac3.longStarts.getD block 0
  let lines := (e.spectrum.drop start).take (Layout.atrac3.lines.getD block 0)
  if lines.isEmpty then e
  else
    let (offset, peak) := peakOf lines
    let median := medianMagnitude lines
    let floor := if leastNormal < median then median else leastNormal
    let threshold := peakFactors.getD (Layout.atrac3.bandOf block) 0 * floor
    if peak ≤ threshold || peak ≤ faintestPeak then e
    else
      -- the run may go on past the end of the block
      let position := start + offset
      let follow := ((e.spectrum.drop (position + 1)).take (longestComponent - 1)).takeWhile
        (threshold < ·.abs)
      let length := 1 + follow.length
      let scaled := Layout.atrac3.scale ((e.spectrum.drop position).take length)
      let selector := componentSelector spread scaled block
      let mantissas := quantise scaled.values selector
      { spectrum := putLines e.spectrum position (List.replicate length 0)
        found := e.found ++ [{ position, block, selector, scaled, mantissas }] }

/-- Put the lines of components back, as their scaled values give them. -/
def restore (spectrum : List Float32) (cs : List TonalComponent) : List Float32 :=
  cs.foldl
    (fun spectrum c =>
      putLines spectrum c.position
        (c.scaled.values.map (· * Layout.atrac3.scaleFactor c.scaled.index)))
    spectrum

/-- Components by falling peak, those with equal peaks in the order given. -/
def byPeak (cs : List TonalComponent) : List TonalComponent :=
  cs.mergeSort fun a b => Binary32.orderKey b.scaled.energy ≤ Binary32.orderKey a.scaled.energy

/-- The strongest components of a spectrum by falling peak, and the spectrum without them. -/
def extractComponents (spectrum : List Float32) (spread : Float32) : Extraction :=
  let all := (List.range Layout.atrac3.blocks).foldl (searchBlock spread) ⟨spectrum, []⟩
  let sorted := byPeak all.found
  { spectrum := restore all.spectrum (sorted.drop mostComponents)
    found := sorted.take mostComponents }

/-- The groups of the longest row of components that `budget` pays for, at most the first `count`,
and its length. -/
def affordable (cs : List TonalComponent) (budget : Nat) : (count : Nat) → TonalGroups × Nat
  | 0 => (.build [], 0)
  | count + 1 =>
    let t := TonalGroups.build (cs.take (count + 1))
    if t.bits ≤ budget then (t, count + 1) else affordable cs budget count

/-- The groups of the tonal components within a budget, and the spectrum without them. -/
def extractTonal (spectrum : List Float32) (spread : Float32) (budget : Nat) :
    TonalGroups × List Float32 :=
  let e := extractComponents spectrum spread
  let (groups, count) := affordable e.found budget e.found.length
  -- a component is dropped for want of bits or for want of a group
  let coded := groups.components.map (·.position)
  let dropped := e.found.drop count ++ (e.found.take count).filter (!coded.contains ·.position)
  (groups, if coded.length < e.found.length then restore e.spectrum dropped else e.spectrum)

end Atrac3

end SpectralCoding
