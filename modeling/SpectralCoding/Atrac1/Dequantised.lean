import SpectralCoding.Atrac1.SoundUnit
import SpectralCoding.Bits.Reader

/-!
# Reading an ATRAC1 sound unit back

* `Atrac1.Dequantised` : what a sound unit holds, the spectrum restored.
* `Atrac1.dequantise` : a sound unit read from bytes, of which only the first 212 count.

The inverse transform is not part of it. Reserved bits are passed over. Blocks that are not
transmitted have word length and scale factor index zero, and lines of a block without a word length
are zero.
-/

namespace SpectralCoding

namespace Atrac1

/-- What a sound unit holds. -/
structure Dequantised where
  windows : WindowMode
  /-- The index of the number of blocks. -/
  index : Nat
  /-- The word length of all 52 blocks. -/
  lengths : List Nat
  /-- The scale factor index of all 52 blocks. -/
  scales : List Nat
  /-- The 512 spectral lines. -/
  spectrum : List Float32
  deriving Inhabited

/-- Read the window fields of the bands from `band` on, whose greatest logarithms are `limits`. -/
def readWindows : (band : Nat) → (limits : List Nat) → BitReader → Except Error (List Nat × BitReader)
  | _, [], r => .ok ([], r)
  | band, limit :: limits, r => do
    let (field, r) ← r.read 2
    if limit < field then throw (.windowField band field)
    let (counts, r) ← readWindows (band + 1) limits r
    return ((limit - field) :: counts, r)

/-- A list followed by zeros up to length `n`. -/
def padded (n : Nat) (xs : List Nat) : List Nat := xs ++ List.replicate (n - xs.length) 0

/-- `values` in place of as many entries of `xs` from `first` on. -/
def overlay {α : Type} (xs : List α) (first : Nat) (values : List α) : List α :=
  xs.take first ++ values ++ xs.drop (first + values.length)

/-- The lines of a block with these mantissas. -/
def restored (length scale : Nat) (mantissas : List Int) : List Float32 :=
  let step := Layout.atrac1.scaleFactor scale / multiplier length
  mantissas.map fun m => step * Float32.ofInt m

/-- Read the mantissas of one block after the other into `spectrum`. An entry gives the block, its
word length and its scale factor index. -/
def readBlocks (windows : WindowMode) :
    (entries : List (Nat × Nat × Nat)) → (spectrum : List Float32) → BitReader →
      Except Error (List Float32 × BitReader)
  | [], spectrum, r => .ok (spectrum, r)
  | (block, length, scale) :: entries, spectrum, r =>
    if length = 0 then readBlocks windows entries spectrum r
    else do
      let (mantissas, r) ← r.readManySigned length (Layout.atrac1.lines.getD block 0)
      let first := Layout.atrac1.firstLine windows block
      readBlocks windows entries (overlay spectrum first (restored length scale mantissas)) r

/-- Read a sound unit. -/
def dequantise (bytes : List UInt8) : Except Error Dequantised := do
  if bytes.length < unitBytes then throw (.unitTooShort bytes.length unitBytes)
  let r := BitReader.ofBytes (bytes.take unitBytes)
  let (counts, r) ← readWindows 0 windowLimits r
  let windows := WindowMode.ofList counts
  let r ← r.skip 2
  let (index, r) ← r.read indexWidth
  let r ← r.skip 5
  let count := blockCounts.getD index 0
  let (fields, r) ← r.readMany lengthWidth count
  let (scales, r) ← r.readMany scaleWidth count
  let blocks := Layout.atrac1.blocks
  let lengths := padded blocks (fields.map lengthOfField)
  let scales := padded blocks scales
  let silence := List.replicate Layout.atrac1.frameLines (0 : Float32)
  let entries := (List.range blocks).zip (lengths.zip scales)
  let (spectrum, _) ← readBlocks windows entries silence r
  return { windows, index, lengths, scales, spectrum }

end Atrac1

end SpectralCoding
