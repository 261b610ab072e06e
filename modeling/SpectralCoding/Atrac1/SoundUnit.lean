import SpectralCoding.Allocation
import SpectralCoding.Bits.Emission

/-!
# The ATRAC1 sound unit

One channel of a frame takes 212 bytes:

    2 2 2   windows of the low, mid and high band: the maximum less the logarithm of their number
    2       reserved
    3       index of the number of blocks
    5       reserved
    4 each  word length of every block: zero, or the length less one
    6 each  scale factor index of every block
            mantissas of every block with a word length, each of that length
    24      reserved

* `Atrac1.blockCounts`, `Atrac1.unitBits`, `Atrac1.availableBits` : the possible numbers of blocks,
  the size of a unit, and what it leaves for mantissas.
* `Atrac1.fieldOfLength`, `Atrac1.lengthOfField` : a word length as a field and back.
* `Atrac1.SoundUnit` : windows, table index and word lengths of a unit; with the scaled blocks,
  `SoundUnit.emit` is its serialisation and `SoundUnit.cost` its length.
-/

namespace SpectralCoding

namespace Atrac1

/-- The bytes of a sound unit. -/
def unitBytes : Nat := 212

/-- The bits of a sound unit. -/
def unitBits : Nat := unitBytes * 8

/-- The possible numbers of blocks. -/
def blockCounts : List Nat := [20, 28, 32, 36, 40, 44, 48, 52]

/-- The greatest index into `blockCounts`. -/
def lastIndex : Nat := 7

/-- The width of the table index. -/
def indexWidth : Nat := 3

/-- The width of a word length field. -/
def lengthWidth : Nat := 4

/-- The width of a scale factor index. -/
def scaleWidth : Nat := 6

/-- The bits of a unit before the word lengths. -/
def headerBits : Nat := 16

/-- The reserved bits at the end of a unit. -/
def trailerBits : Nat := 24

/-- The greatest word length. -/
def greatestLength : Nat := 16

/-- The greatest logarithm of the number of windows in the low, mid and high band. -/
def windowLimits : List Nat := [2, 2, 3]

/-- What a unit with `blocks` blocks leaves for mantissas, with a reserve for the fixed fields. -/
def availableBits (blocks : Nat) : Nat :=
  unitBits - indexWidth - 32 - 2 - 3 - blocks * (lengthWidth + scaleWidth)

/-- The greatest quantised magnitude at a word length, which is what scaled values are multiplied
by. -/
def multiplier (length : Nat) : Float32 :=
  if length < 2 then 0 else Float32.ofNat (2 ^ (length - 1) - 1)

/-- The word length that a field stands for. -/
def lengthOfField (field : Nat) : Nat := if field = 0 then 0 else field + 1

/-- The field a word length is written as. -/
def fieldOfLength (length : Nat) : Nat := length - 1

/-- The integer that a scaled value is written as at a word length. -/
def mantissa (length : Nat) (value : Float32) : Int := Binary32.round32 (value * multiplier length)

theorem lengthOfField_fieldOfLength {length : Nat} (h : length ≠ 1) :
    lengthOfField (fieldOfLength length) = length := by
  unfold lengthOfField fieldOfLength
  split <;> omega

/-- The decisions of a sound unit. -/
structure SoundUnit where
  windows : WindowMode
  /-- The index of the number of blocks. -/
  index : Nat
  /-- The word length of every block. -/
  lengths : List Nat
  deriving DecidableEq, Repr, Inhabited

namespace SoundUnit

/-- The number of bits of a unit with the given word lengths. -/
def cost (lengths : List Nat) : Nat :=
  headerBits + lengths.length * (lengthWidth + scaleWidth)
    + mantissaBits lengths Layout.atrac1.lines + trailerBits

/-- The window fields. A band with more windows than it can have ends the unit. -/
def windowFields (windows : WindowMode) : Emission :=
  .each (windowLimits.zipIdx.zip windows.toList) fun ((limit, band), count) =>
    if limit < count then .fail (.windowCount band count) else .field 2 (limit - count)

/-- The mantissas of a block; a block of word length zero or one has none. -/
def mantissas (block : ScaledBlock) (length : Nat) : Emission :=
  if length < 2 then .empty
  else .each block.values fun v => .signed length (mantissa length v)

/-- The bits of a unit, its length unchecked. -/
def body (u : SoundUnit) (blocks : List ScaledBlock) : Emission :=
  .concat
    [windowFields u.windows, .zeros 2, .field indexWidth u.index, .zeros 5,
      .each u.lengths fun l => .field lengthWidth (fieldOfLength l),
      .each (blocks.take u.lengths.length) fun b => .field scaleWidth b.index,
      .each (blocks.zip u.lengths) fun (b, l) => mantissas b l,
      .zeros trailerBits]

/-- The bits of a unit. One that is longer than its capacity ends with an error. -/
def emit (u : SoundUnit) (blocks : List ScaledBlock) : Emission :=
  let bits := u.body blocks
  if unitBits < bits.bits.length then bits ++ .fail (.unitOverflow bits.bits.length unitBits)
  else bits

end SoundUnit

end Atrac1

end SpectralCoding
