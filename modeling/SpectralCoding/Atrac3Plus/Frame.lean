import SpectralCoding.Allocation
import SpectralCoding.Atrac3Plus.Tones
import SpectralCoding.Hearing.Threshold
import SpectralCoding.Parameters

/-!
# An ATRAC3+ frame on its way

* `Atrac3Plus.Channel`, `Atrac3Plus.Frame` : the channels of a frame and what the stages decide on
  them.
* `Atrac3Plus.codedUnits` : the numbers of quantisation units that can be written.
* `Atrac3Plus.leastBits` : what a frame takes with every unit silent and no tones.
* `Atrac3Plus.wordLengths` : the word lengths of a channel at a shift.
-/

namespace SpectralCoding

namespace Atrac3Plus

/-- The most quantisation units that are written as such; more are written as all of them. -/
def mostCodedUnits : Nat := 28

/-- The number of units written when `used` are in use. -/
def codedUnits (used : Nat) : Nat := if mostCodedUnits < used then Layout.atrac3Plus.blocks else max used 1

/-- A number of units that can be written. -/
def isCodedUnits (count : Nat) : Bool :=
  (1 ≤ count && count ≤ mostCodedUnits) || count == Layout.atrac3Plus.blocks

theorem isCodedUnits_codedUnits (used : Nat) : isCodedUnits (codedUnits used) = true := by
  have hb : Layout.atrac3Plus.blocks = 32 := rfl
  by_cases h : 28 < used
  · simp [isCodedUnits, codedUnits, mostCodedUnits, hb, h]
  · have : 1 ≤ max used 1 ∧ max used 1 ≤ 28 := by omega
    simp [isCodedUnits, codedUnits, mostCodedUnits, hb, h, this]

/-- One channel of a frame. -/
structure Channel where
  blocks : List ScaledBlock
  spread : Float32
  tones : List ToneBand := []
  deriving Inhabited

/-- A frame on its way through the stages. -/
structure Frame where
  /-- The bits of the frame. -/
  size : Nat
  channels : List Channel
  /-- The energies below which the units are inaudible. -/
  thresholds : List Float32
  /-- The loudness of the programme as a multiple of the usual one. -/
  loudness : Float32
  /-- The number of units written. -/
  units : Nat := 0
  /-- The number of units up to the last one with a word length. -/
  usedUnits : Nat := 0
  /-- Units from here on are silenced. -/
  limit : Nat := Layout.atrac3Plus.blocks
  /-- The word lengths of every channel. -/
  lengths : List (List Nat) := []
  /-- The kind of words of every unit of every channel: zero for fixed, one for variable length. -/
  kinds : List (List Nat) := []
  /-- The mantissas of every unit of every channel. -/
  mantissas : List (List (List Int)) := []
  deriving Inhabited

/-- The bits of the stereo, window and gain flags. -/
def flagBits (channels : Nat) : Nat := (if channels = 2 then 2 else 0) + 2 * channels

/-- The bits of the noise flag and the terminator. -/
def terminatorBits : Nat := 1 + 2

/-- The bits of a frame with every unit silent and no tones. -/
def leastBits (channels : Nat) : Nat := 3 + 6 + 5 * channels + flagBits channels + 1 + terminatorBits

/-- The fields of the tones of a frame. -/
def Frame.toneFields? (frame : Frame) : Except Error Fields := packTones? (frame.channels.map (·.tones))

/-! ### Word lengths -/

/-- The greatest word length. -/
def greatestLength : Nat := 7

/-- The fixed word lengths. -/
def fixedLengths : List Float32 :=
  [7, 7, 7, 7, 7, 7, 7, 7, 6, 6, 6, 6, 6, 6, 6, 6,
   5, 5, 5, 5, 5, 5, 4, 4, 4, 3, 3, 2, 2, 1, 0, 0]

/-- The energies below which the units are inaudible. -/
def audibility : List Float32 := blockThreshold .atrac3Plus samplingRate

/-- A blended length held between zero and seven. -/
def clampLength (t : Int) : Nat := min t.toNat greatestLength

/-- The unit is too faint to hear. -/
def isInaudible (block : ScaledBlock) (threshold loudness : Float32) : Bool :=
  block.energy < threshold * loudness

/-- The word length of unit `i` at a shift. -/
def wordLength (spread shift loudness : Float32) (i : Nat) (entry : ScaledBlock × Float32) : Nat :=
  if isInaudible entry.1 entry.2 loudness then 0
  else clampLength (blend spread entry.1.index (fixedLengths.getD i 0) shift)

/-- The word lengths of a channel at a shift. -/
def wordLengths (ch : Channel) (shift : Float32) (thresholds : List Float32) (loudness : Float32) :
    List Nat :=
  (ch.blocks.zip thresholds).mapIdx (wordLength ch.spread shift loudness)

/-- There is a threshold for every unit of a channel, and a fixed length for each that can be
heard. -/
def hasTables (ch : Channel) (thresholds : List Float32) (loudness : Float32) : Bool :=
  ch.blocks.length ≤ thresholds.length
    && ((ch.blocks.zip thresholds).drop fixedLengths.length).all fun (b, threshold) =>
      isInaudible b threshold loudness

/-- The word lengths of a channel at a shift, if there are tables for all units. -/
def wordLengths? (ch : Channel) (shift : Float32) (thresholds : List Float32) (loudness : Float32) :
    Except Error (List Nat) :=
  if hasTables ch thresholds loudness then .ok (wordLengths ch shift thresholds loudness)
  else .error .outOfRange

end Atrac3Plus

end SpectralCoding
