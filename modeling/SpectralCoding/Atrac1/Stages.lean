import SpectralCoding.Atrac1.WordLength
import SpectralCoding.Pipeline.Basic

/-!
# The stages of an ATRAC1 frame

* `Atrac1.Frame` : one channel of a frame on its way.
* `Atrac1.budgeting` : sets the budget for the number of blocks and opens the search for the shift.
* `Atrac1.allotting` : finds the word lengths, drops blocks that are not used, and puts the unit
  out.
* `Atrac1.stages` : the two of them.

A probe whose cost is within `acceptSlack` below the target is taken at once, without submitting it.
When even the greatest shift costs too much, the highest blocks are silenced.
-/

namespace SpectralCoding

namespace Atrac1

/-- One channel of a frame on its way through the stages. -/
structure Frame where
  blocks : List ScaledBlock
  windows : WindowMode
  /-- The loudness of the programme as a multiple of the usual one. -/
  loudness : Float32
  spread : Float32
  /-- The index of the number of blocks. -/
  index : Nat
  /-- The budget for mantissas with that number of blocks. -/
  budget : Nat := 0
  deriving Inhabited

/-- A cost that stays below the target by no more than this is taken at once. -/
def acceptSlack : Nat := 110

variable {κ : Type} [Dial κ]

/-- Set the budget for the number of blocks and open the search. -/
def budgeting : Stage κ Frame (List Nat) where
  work frame memory :=
    match blockCounts[frame.index]? with
    | none => .done { frame, memory, verdict := .error (.blockIndex frame.index) }
    | some count =>
      let frame := { frame with budget := availableBits count }
      .start frame.budget leastShift greatestShift (.done { frame, memory, verdict := .ok .proceed })
  emit _ _ := .empty
  forget memory := memory
  cost _ := 0

/-- The table index to go on with when `used` is the least one that serves, if it is to be
lowered. -/
def loweredIndex (isAuto isFast : Bool) (index used : Nat) : Option Nat :=
  if isAuto && used < index then some (if isFast then used else index - 1) else none

/-- Keep word lengths that cost `bits` at a shift that stands, with the rest of the budget spent; or
drop blocks that are not used and begin again. -/
def settleLengths (isAuto isFast : Bool) (frame : Frame) (memory lengths : List Nat) (bits : Nat) :
    Turn Frame (List Nat) :=
  match loweredIndex isAuto isFast frame.index (usedIndex lengths) with
  | some index => { frame := { frame with index }, memory, verdict := .ok .restart }
  | none => { frame, memory := (boost lengths bits frame.budget).lengths, verdict := .ok .proceed }

/-- The word lengths of a frame at a shift, if it has as many blocks as its index asks for. -/
def Frame.lengthsAt? (frame : Frame) (shift : Float32) : Except Error (List Nat) :=
  wordLengths? frame.blocks (blockCounts.getD frame.index 0) frame.spread shift frame.windows
    frame.loudness

/-- Find the word lengths and put the unit out. -/
def allotting (isAuto isFast : Bool) : Stage κ Frame (List Nat) where
  work frame memory :=
    .probe fun shift =>
      match frame.lengthsAt? (Dial.toFloat32 shift) with
      | .error cause => .done { frame, memory, verdict := .error cause }
      | .ok lengths =>
        let bits := mantissaBits lengths Layout.atrac1.lines
        .target fun target =>
          -- close enough below the target, whatever the search would try next
          if bits ≤ target ∧ target ≤ bits + acceptSlack then
            .done (settleLengths isAuto isFast frame memory lengths bits)
          else
            .submit bits fun stands =>
              if stands then
                -- a cost can stand above the target only once the search has nothing left to try
                let (lengths, bits) :=
                  if target < bits then trim target lengths Layout.atrac1.lines else (lengths, bits)
                .done (settleLengths isAuto isFast frame memory lengths bits)
              else .done { frame, memory, verdict := .ok .proceed }
  emit frame lengths :=
    SoundUnit.emit { windows := frame.windows, index := frame.index, lengths } frame.blocks
  forget _ := []
  cost lengths := SoundUnit.cost lengths

/-- The stages of a frame, with nothing remembered. -/
def stages (isAuto isFast : Bool) : List (Stage κ Frame (List Nat) × List Nat) :=
  [(budgeting, []), (allotting isAuto isFast, [])]

end Atrac1

end SpectralCoding
