/-!
# The members of the ATRAC family

* `CodecId` : the three codecs, in the order of their introduction.
* `CodecId.name` : the name a codec is registered and displayed under.
* `CodecId.frameLines` : the number of spectral lines in one frame of one channel.
-/

namespace SpectralCoding

/-- A codec of the ATRAC family. -/
inductive CodecId where
  /-- MiniDisc, one 212-byte sound unit per channel and frame. -/
  | atrac1
  /-- LP2 and LP4, the frame size follows from the bit rate. -/
  | atrac3
  /-- Hi-MD, the frame size is free. -/
  | atrac3Plus
  deriving DecidableEq, Repr, Inhabited

namespace CodecId

/-- All codecs, in order. -/
def all : List CodecId := [atrac1, atrac3, atrac3Plus]

/-- The name a codec is registered and displayed under. -/
def name : CodecId → String
  | atrac1 => "atrac1"
  | atrac3 => "atrac3"
  | atrac3Plus => "atrac3plus"

/-- The spelling of a codec in running text. -/
def title : CodecId → String
  | atrac1 => "ATRAC1"
  | atrac3 => "ATRAC3"
  | atrac3Plus => "ATRAC3+"

/-- The number of spectral lines in one frame of one channel. -/
def frameLines : CodecId → Nat
  | atrac1 => 512
  | atrac3 => 1024
  | atrac3Plus => 2048

theorem mem_all (c : CodecId) : c ∈ all := by cases c <;> decide

end CodecId

end SpectralCoding
