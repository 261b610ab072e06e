import SpectralCoding.Atrac3Plus.Frame
import SpectralCoding.Atrac3Plus.SpectrumFields
import SpectralCoding.Atrac3Plus.WordLengthFields
import SpectralCoding.Pipeline.Basic

/-!
# The stages of an ATRAC3+ frame

    1       zero
    2       one or two channels, less one
    5 1     number of units less one, mute flag
            word lengths
            scale factor indices
            kinds of words
            mantissas
            stereo, window and gain flags
            tones
    1 2     noise flag, terminator

One stage each makes these parts, `Atrac3Plus.opening` to `Atrac3Plus.terminating`, in this order in
`Atrac3Plus.stages`. The second turns the shift and the sixth submits the cost. If even the greatest
shift costs too much, the last unit in use is given up and the frame begins again.

A stage whose frame has fewer blocks, word lengths or kinds than its counts say breaks off: the
frame was not made by the stages before it.
-/

namespace SpectralCoding

namespace Atrac3Plus

variable {κ : Type} [Dial κ]

/-- A stage that works out fields without taking part in the search. -/
def plainStage (work : Frame → Except Error (Frame × Fields)) : Stage κ Frame Fields where
  work frame _ :=
    match work frame with
    | .error e => .done { frame, memory := [], verdict := .error e }
    | .ok (frame, fields) => .done { frame, memory := fields, verdict := .ok .proceed }
  emit _ fields := fields.emit
  forget _ := []
  cost fields := Fields.cost fields

/-- Open the frame and the search. What comes after the mantissas is set aside. -/
def opening : Stage κ Frame Fields where
  work frame _ :=
    let channels := frame.channels.length
    let memory : Fields := [⟨0, 1⟩, ⟨channels - 1, 2⟩]
    match frame.toneFields? with
    | .error e => .done { frame, memory, verdict := .error e }
    | .ok tones =>
      let least := leastBits channels - 1 + Fields.cost tones
      -- not even silence and the tones fit
      if frame.size < least then
        .done { frame, memory, verdict := .error (.toneOverflow least frame.size) }
      else
        let tail := flagBits channels + Fields.cost tones + terminatorBits
        .start (frame.size - tail) leastShift greatestShift
          (.done { frame, memory, verdict := .ok .proceed })
  emit _ fields := fields.emit
  forget _ := []
  cost fields := Fields.cost fields

/-- Word lengths with units from `limit` on silenced. -/
def silenceFrom (limit : Nat) (lengths : List Nat) : List Nat :=
  lengths.take limit ++ List.replicate (lengths.length - limit) 0

/-- The number of units up to the last one with a word length. -/
def unitsInUse (lengths : List Nat) : Nat := (lengths.reverse.dropWhile (· == 0)).length

/-- A list cut or filled up with zeros to length `n`. -/
def resize (n : Nat) (xs : List Nat) : List Nat := xs.take n ++ List.replicate (n - xs.length) 0

/-- A frame with the word lengths of all channels at a shift. -/
def Frame.withShift (frame : Frame) (shift : Float32) : Frame :=
  let lengths := frame.channels.map fun ch =>
    silenceFrom frame.limit (wordLengths ch shift frame.thresholds frame.loudness)
  let used := (lengths.map unitsInUse).foldl max 0
  let units := codedUnits used
  { frame with units, usedUnits := used, lengths := lengths.map (resize units) }

/-- Find the word lengths at the shift being tried. -/
def allotting : Stage κ Frame Fields where
  work frame memory :=
    .probe fun shift =>
      if frame.channels.all fun ch => hasTables ch frame.thresholds frame.loudness then
        let frame := frame.withShift (Dial.toFloat32 shift)
        .done { frame, memory := [⟨frame.units - 1, 5⟩, ⟨0, 1⟩], verdict := .ok .proceed }
      else .done { frame, memory, verdict := .error .outOfRange }
  emit _ fields := fields.emit
  forget _ := []
  cost fields := Fields.cost fields

/-- Write the word lengths. -/
def writingLengths : Stage κ Frame Fields :=
  plainStage fun frame =>
    if frame.lengths.all (frame.units ≤ ·.length) then
      .ok (frame, lengthFields frame.units frame.lengths)
    else .error .outOfRange

/-- The scale factor indices of the units in use, behind the mode of every channel. -/
def scaleFields (used : Nat) (channels : List Channel) : Fields :=
  if used = 0 then []
  else channels.flatMap fun ch => ⟨0, 2⟩ :: (ch.blocks.take used).map fun b => ⟨b.index, 6⟩

/-- Write the scale factor indices. -/
def writingScales : Stage κ Frame Fields :=
  plainStage fun frame =>
    if frame.channels.all (frame.usedUnits ≤ ·.blocks.length) then
      .ok (frame, scaleFields frame.usedUnits frame.channels)
    else .error .outOfRange

/-- The units in use of a channel, coded. -/
def codeUnits (used : Nat) (lengths : List Nat) (blocks : List ScaledBlock) : List CodedUnit :=
  (List.range used).map fun i => codeUnit (lengths.getD i 0) blocks[i]?

/-- A channel has a word length for every unit in use, and for one with mantissas words and a
block. -/
def canCode (used : Nat) (lengths : List Nat) (blocks : List ScaledBlock) : Bool :=
  used ≤ lengths.length
    && (lengths.take used).zipIdx.all fun (l, i) => l == 0 || (hasFixedWords l && i < blocks.length)

/-- Code the units in use and write the kinds of words. -/
def choosingKinds : Stage κ Frame Fields :=
  plainStage fun frame =>
    let used := frame.usedUnits
    if used = 0 then
      let none := frame.channels.map fun _ => []
      .ok ({ frame with kinds := none, mantissas := frame.channels.map fun _ => [] }, [])
    else
      let rows := frame.lengths.zip frame.channels
      if frame.channels.length ≤ frame.lengths.length
          ∧ rows.all fun (ls, ch) => canCode used ls ch.blocks then
        let coded := rows.map fun (ls, ch) => codeUnits used ls ch.blocks
        let kinds := coded.map (·.map (·.kind))
        let mantissas := coded.map (·.map (·.mantissas))
        .ok ({ frame with kinds, mantissas }, kindFields used frame.lengths kinds)
      else .error .outOfRange

/-- A channel has a word length for every unit with mantissas, and for one that is not silent words
of its kind. -/
def canWrite (lengths kinds : List Nat) (units : List (List Int)) : Bool :=
  (List.range units.length).all fun i =>
    match lengths[i]? with
    | none => false
    | some l =>
      l == 0 || (match kinds[i]? with
        | none => false
        | some kind => kind != fixedKind || hasFixedWords l)

/-- The mantissas of a channel. -/
def channelMantissas (lengths kinds : List Nat) (units : List (List Int)) : Fields :=
  units.zipIdx.flatMap fun (ms, i) => mantissaFields (lengths.getD i 0) (kinds.getD i 0) ms

/-- The mantissas of all channels. -/
def Frame.mantissaFields (frame : Frame) : Fields :=
  frame.mantissas.zipIdx.flatMap fun (units, channel) =>
    channelMantissas (frame.lengths.getD channel []) (frame.kinds.getD channel []) units

/-- All mantissas of the frame can be written. -/
def Frame.canWrite (frame : Frame) : Bool :=
  frame.mantissas.zipIdx.all fun (units, channel) =>
    Atrac3Plus.canWrite (frame.lengths.getD channel []) (frame.kinds.getD channel []) units

/-- Write the mantissas and submit the cost so far. -/
def writingMantissas : Stage κ Frame Fields where
  work frame memory :=
    if frame.canWrite then
      let fields := frame.mantissaFields
      .spent fun spent =>
        let total := spent + Fields.cost fields
        .submit total fun stands =>
          .target fun target =>
            -- too much even at the greatest shift
            if stands ∧ target < total ∧ 0 < frame.usedUnits then
              .done
                { frame := { frame with limit := frame.usedUnits - 1 }
                  memory := fields
                  verdict := .ok .restart }
            else .done { frame, memory := fields, verdict := .ok .proceed }
    else .done { frame, memory, verdict := .error .outOfRange }
  emit _ fields := fields.emit
  forget _ := []
  cost fields := Fields.cost fields

/-- The stereo, window and gain flags, all clear. -/
def flagFields (channels : Nat) : Fields := List.replicate (flagBits channels) (.flag false)

/-- Write the stereo, window and gain flags. -/
def writingFlags : Stage κ Frame Fields :=
  plainStage fun frame => .ok (frame, flagFields frame.channels.length)

/-- Write the tones. -/
def writingTones : Stage κ Frame Fields :=
  plainStage fun frame => do return (frame, ← frame.toneFields?)

/-- Write the noise flag and the terminator. -/
def terminating : Stage κ Frame Fields := plainStage fun frame => .ok (frame, [⟨0, 1⟩, ⟨3, 2⟩])

/-- The stages of a frame. -/
def stages : List (Stage κ Frame Fields) :=
  [opening, allotting, writingLengths, writingScales, choosingKinds, writingMantissas, writingFlags,
   writingTones, terminating]

end Atrac3Plus

end SpectralCoding
