import SpectralCoding.Error

/-!
# Parameters of an encoder

* `Options` : what only one codec has to choose.
* `Parameters` : codec, sampling rate, channels, bit rate and options.
* `Parameters.default` : the parameters of a codec with its usual options.
* `Parameters.check` : the checks that all encoders share, in the order in which they are reported.
-/

namespace SpectralCoding

/-- The choices of ATRAC1. -/
structure Atrac1Options where
  /-- A fixed number of blocks, as an index from 1 to 8 into the table of block counts; by default
  the number follows from what is used. -/
  blockIndex : Option Nat := none
  /-- Drop to the blocks in use at once, not one step of the table at a time. -/
  isFast : Bool := false
  deriving DecidableEq, Repr, Inhabited

/-- The choices of ATRAC3. -/
structure Atrac3Options where
  /-- A fixed number of blocks from 1 to 32; by default the number follows from what is used. -/
  blocks : Option Nat := none
  /-- Code no tonal components. -/
  isPlain : Bool := false
  deriving DecidableEq, Repr, Inhabited

/-- The choices of ATRAC3+. -/
structure Atrac3PlusOptions where
  /-- The bytes of a frame, all channels together. -/
  frameSize : Nat := 2048
  deriving DecidableEq, Repr, Inhabited

/-- The choices of one codec. -/
inductive Options where
  | atrac1 (options : Atrac1Options)
  | atrac3 (options : Atrac3Options)
  | atrac3Plus (options : Atrac3PlusOptions)
  deriving DecidableEq, Repr, Inhabited

/-- The usual options of a codec. -/
def Options.default : CodecId → Options
  | .atrac1 => .atrac1 {}
  | .atrac3 => .atrac3 {}
  | .atrac3Plus => .atrac3Plus {}

/-- The only supported sampling rate in hertz. -/
def samplingRate : Nat := 44100

/-- What an encoder is opened with. -/
structure Parameters where
  codec : CodecId
  /-- Samples per second. -/
  rate : Nat := samplingRate
  channels : Nat
  /-- Bits per second; chooses the profile of ATRAC3. -/
  bitRate : Nat
  options : Options
  deriving DecidableEq, Repr, Inhabited

namespace Parameters

/-- The parameters of a codec with its usual options. -/
def default (codec : CodecId) (channels bitRate : Nat) : Parameters :=
  { codec, channels, bitRate, options := .default codec }

/-- The ATRAC1 options, if the parameters have them. -/
def atrac1? (p : Parameters) : Option Atrac1Options :=
  match p.options with
  | .atrac1 o => some o
  | _ => none

/-- The ATRAC3 options, if the parameters have them. -/
def atrac3? (p : Parameters) : Option Atrac3Options :=
  match p.options with
  | .atrac3 o => some o
  | _ => none

/-- The ATRAC3+ options, if the parameters have them. -/
def atrac3Plus? (p : Parameters) : Option Atrac3PlusOptions :=
  match p.options with
  | .atrac3Plus o => some o
  | _ => none

/-- The parameters suit an encoder of `codec`, its options apart. -/
def check (p : Parameters) (codec : CodecId) : Except Error Unit :=
  if p.codec ≠ codec then .error (.codecMismatch codec p.codec)
  else if p.rate ≠ samplingRate then .error (.sampleRate codec samplingRate p.rate)
  else if p.channels = 0 ∨ 2 < p.channels then .error (.channelSupport codec p.channels)
  else .ok ()

end Parameters

end SpectralCoding
