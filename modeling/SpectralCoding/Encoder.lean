import SpectralCoding.Atrac1.Encoder
import SpectralCoding.Atrac3.Encoder
import SpectralCoding.Atrac3Plus.Encoder

/-!
# Encoders

* `Encoder` : an encoder of any codec.
* `Encoder.openWith`, `Encoder.encodeFrame`, `Encoder.reset` : what all of them do.
* `Registry`, `Registry.standard` : the encoders known by codec.

Parameters that are refused leave an encoder as it was. Of several encoders registered for one codec
the first is made.
-/

namespace SpectralCoding

/-- An encoder of any codec. -/
inductive Encoder where
  | atrac1 (encoder : Atrac1.Encoder)
  | atrac3 (encoder : Atrac3.Encoder)
  | atrac3Plus (encoder : Atrac3Plus.Encoder)

namespace Encoder

/-- An encoder that is not open. -/
def closed : CodecId → Encoder
  | .atrac1 => atrac1 .closed
  | .atrac3 => atrac3 .closed
  | .atrac3Plus => atrac3Plus .closed

/-- The codec of an encoder. -/
def codec : Encoder → CodecId
  | atrac1 _ => .atrac1
  | atrac3 _ => .atrac3
  | atrac3Plus _ => .atrac3Plus

/-- The name of an encoder. -/
def name (e : Encoder) : String := e.codec.name

/-- Take on parameters. -/
def openWith (e : Encoder) (p : Parameters) : Except Error Unit × Encoder :=
  match e with
  | atrac1 e => (e.openWith p).map id atrac1
  | atrac3 e => (e.openWith p).map id atrac3
  | atrac3Plus e => (e.openWith p).map id atrac3Plus

/-- Encode a frame into a sink. -/
def encodeFrame (e : Encoder) (frame : SpectralFrame) (sink : Sink) :
    Except Error Unit × Encoder × Sink :=
  match e with
  | atrac1 e =>
    let (result, e, sink) := e.encodeFrame frame sink
    (result, atrac1 e, sink)
  | atrac3 e =>
    let (result, e, sink) := e.encodeFrame frame sink
    (result, atrac3 e, sink)
  | atrac3Plus e =>
    let (result, e, sink) := e.encodeFrame frame sink
    (result, atrac3Plus e, sink)

/-- Forget the programme heard so far. -/
def reset : Encoder → Encoder
  | atrac1 e => atrac1 e.reset
  | atrac3 e => atrac3 e.reset
  | atrac3Plus e => atrac3Plus e.reset

@[simp] theorem codec_closed (c : CodecId) : (closed c).codec = c := by cases c <;> rfl

end Encoder

/-! ### The registry -/

/-- An encoder registered for a codec. -/
structure Registration where
  codec : CodecId
  name : String
  /-- The encoder, or why it cannot be made. -/
  make : Except Error Encoder

/-- The registered encoders, in the order of registration. -/
structure Registry where
  entries : List Registration := []

namespace Registry

/-- The registry without encoders. -/
def empty : Registry := {}

/-- Register an encoder. -/
def register (r : Registry) (entry : Registration) : Registry := ⟨r.entries ++ [entry]⟩

/-- Register the encoders of all codecs under their names. -/
def registerAll (r : Registry) : Registry :=
  CodecId.all.foldl (fun r c => r.register ⟨c, c.name, .ok (.closed c)⟩) r

/-- The registry of the encoders of all codecs. -/
def standard : Registry := empty.registerAll

/-- The encoders registered for a codec. -/
def registered (r : Registry) (c : CodecId) : List Registration := r.entries.filter (·.codec == c)

/-- Make the encoder first registered for a codec. -/
def create (r : Registry) (c : CodecId) : Except Error Encoder :=
  match r.registered c with
  | [] => .error (.noEncoder c)
  | entry :: _ => entry.make

/-- Codecs and names of the registered encoders, codec by codec. -/
def list (r : Registry) : List (CodecId × String) :=
  CodecId.all.flatMap fun c => (r.registered c).map fun entry => (entry.codec, entry.name)

end Registry

/-- The version of the library. -/
def version : String := "0.1.0"

end SpectralCoding
