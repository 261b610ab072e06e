import SpectralCoding.Allocation.ShiftSearch
import SpectralCoding.Atrac3.SpectrumCoding
import SpectralCoding.Hearing.Threshold
import SpectralCoding.Parameters

/-!
# Allotting selectors

* `Atrac3.selector` : the selector of a block at a shift.
* `Atrac3.Allotment` : what selectors are found for.
* `Atrac3.allocate` : the spectrum coded within a number of bits. The inner search is for the shift;
  the outer one gives up blocks at the end that came out silent and searches again.
-/

namespace SpectralCoding

namespace Atrac3

/-- The fixed selectors. -/
def fixedSelectors : List Float32 :=
  [4, 4, 4, 4, 4, 4, 4, 4, 3, 3, 3, 3, 3, 3, 3, 3,
   2, 2, 2, 2, 2, 2, 2, 2, 2, 2, 1, 1, 1, 1, 0, 0]

/-- The energies below which the blocks are inaudible. -/
def audibility : List Float32 := blockThreshold .atrac3 samplingRate

/-- A blended length as a selector: below zero is silence, zero itself counts as one. -/
def clampSelector (t : Int) : Nat :=
  if (greatestSelector : Int) < t then greatestSelector
  else if t < 0 then 0
  else if t = 0 then 1
  else t.toNat

/-- The block is too faint to hear. -/
def isInaudible (block : ScaledBlock) (threshold loudness : Float32) : Bool :=
  block.energy < threshold * loudness

/-- The selector of block `i` at a shift. -/
def selector (spread shift loudness : Float32) (i : Nat) (entry : ScaledBlock × Float32) : Nat :=
  if isInaudible entry.1 entry.2 loudness then 0
  else clampSelector (blend spread entry.1.index (fixedSelectors.getD i 0) shift)

/-- The selectors of the first `count` blocks at a shift. -/
def selectors (blocks : List ScaledBlock) (count : Nat) (spread shift : Float32)
    (thresholds : List Float32) (loudness : Float32) : List Nat :=
  ((blocks.zip thresholds).take count).mapIdx (selector spread shift loudness)

/-- The selectors of the first `count` blocks, if there are so many blocks and thresholds, and a
fixed selector for each that can be heard. -/
def selectors? (blocks : List ScaledBlock) (count : Nat) (spread shift : Float32)
    (thresholds : List Float32) (loudness : Float32) : Except Error (List Nat) :=
  let pastTable := ((blocks.zip thresholds).take count).drop fixedSelectors.length
  if count ≤ blocks.length ∧ count ≤ thresholds.length
      ∧ pastTable.all fun (b, threshold) => isInaudible b threshold loudness then
    .ok (selectors blocks count spread shift thresholds loudness)
  else .error .outOfRange

/-- What selectors are found for. -/
structure Allotment where
  blocks : List ScaledBlock
  spread : Float32
  /-- The energies below which the blocks are inaudible. -/
  thresholds : List Float32
  loudness : Float32
  /-- A fixed number of blocks; by default blocks at the end that come out silent are given up. -/
  fixedCount : Option Nat
  deriving Inhabited

namespace Allotment

/-- The number of blocks the search begins with. -/
def initialCount (a : Allotment) (target : Nat) : Nat :=
  let most := Layout.atrac3.blocks
  max 1 (min most (a.fixedCount.getD (min most ((target - 6) / 3))))

/-- The first `count` blocks quantised with the selectors at a shift. -/
def codingAt (a : Allotment) (count : Nat) (shift : Float32) : SpectrumCoding :=
  .make a.blocks (selectors a.blocks count a.spread shift a.thresholds a.loudness)

variable (κ : Type) [Dial κ]

/-- The first `count` blocks quantised at the shift that the search ends with. -/
def codingFor (a : Allotment) (target count : Nat) : SpectrumCoding :=
  let found : Allocation := Id.run <| ShiftSearch.search target 0 count fun shift : κ =>
    let coding := a.codingAt count (Dial.toFloat32 shift)
    pure ⟨coding.selectors, coding.bits⟩
  .make a.blocks found.wordLengths

end Allotment

/-- The number of blocks up to the last one that is not silent, at least one. -/
def usedCount (selectors : List Nat) : Nat :=
  max 1 (selectors.reverse.dropWhile (· == 0)).length

/-- The spectrum coded within `target` bits on at most `count` blocks. -/
def allocateFrom (κ : Type) [Dial κ] (a : Allotment) (target count : Nat) : SpectrumCoding :=
  let coding := a.codingFor κ target count
  let used := usedCount coding.selectors
  if _h : a.fixedCount = none ∧ used < count then allocateFrom κ a target used else coding
termination_by count
decreasing_by exact _h.2

/-- The spectrum coded within `target` bits. -/
def allocate (κ : Type) [Dial κ] (a : Allotment) (target : Nat) : SpectrumCoding :=
  allocateFrom κ a target (a.initialCount target)

/-- The spectrum coded within `target` bits, if there are blocks and thresholds to begin with. -/
def allocate? (κ : Type) [Dial κ] (a : Allotment) (target : Nat) : Except Error SpectrumCoding :=
  let count := a.initialCount target
  if count ≤ a.blocks.length ∧ count ≤ a.thresholds.length then .ok (allocate κ a target)
  else .error .outOfRange

end Atrac3

end SpectralCoding
