import SpectralCoding.Error

/-!
# Where frames go

An encoder hands every finished frame to a sink.

* `Packet`, `PacketSink` : frames collected in memory, numbered from zero.
* `ByteSink` : frames written one after the other to a device of limited room.
* `Sink` : either of them; `Sink.write` takes a frame.

A device takes what still fits. When it has no room at all it either refuses, in its own words, or
takes nothing; both end the write with an error, and what was taken before stays written.
-/

namespace SpectralCoding

/-- A frame with its number. -/
structure Packet where
  bytes : List UInt8
  /-- The number of the frame, from zero. -/
  number : Nat
  deriving DecidableEq, Repr, Inhabited

/-- The number of bytes of a packet. -/
def Packet.size (p : Packet) : Nat := p.bytes.length

/-- Frames collected in memory. -/
structure PacketSink where
  name : String
  channels : Nat
  packets : List Packet := []
  deriving DecidableEq, Repr, Inhabited

namespace PacketSink

/-- Append a frame, numbered by the packets already held. -/
def write (s : PacketSink) (bytes : List UInt8) : PacketSink :=
  { s with packets := s.packets ++ [⟨bytes, s.packets.length⟩] }

/-- The packets held, and the sink without them. -/
def take (s : PacketSink) : List Packet × PacketSink := (s.packets, { s with packets := [] })

end PacketSink

/-- Frames written to a device. -/
structure ByteSink where
  name : String
  channels : Nat
  /-- The bytes the device has room for; without a bound if not given. -/
  capacity : Option Nat := none
  /-- The words in which a full device refuses; a device without words takes nothing. -/
  refusal : Option String
  /-- The bytes taken so far. -/
  bytes : List UInt8 := []
  deriving DecidableEq, Repr, Inhabited

namespace ByteSink

/-- How many of `n` further bytes the device takes. -/
def room (s : ByteSink) (n : Nat) : Nat :=
  match s.capacity with
  | none => n
  | some capacity => min n (capacity - s.bytes.length)

/-- The error with which a full device ends a write. -/
def fullError (s : ByteSink) : Error :=
  match s.refusal with
  | some text => .device text
  | none => .shortWrite

/-- Write a frame as far as it fits. -/
def write (s : ByteSink) (bytes : List UInt8) : Except Error Unit × ByteSink :=
  let taken := s.room bytes.length
  let after := { s with bytes := s.bytes ++ bytes.take taken }
  (if taken < bytes.length then .error s.fullError else .ok (), after)

end ByteSink

/-- Where frames go. -/
inductive Sink where
  | packets (sink : PacketSink)
  | device (sink : ByteSink)
  deriving Inhabited

namespace Sink

/-- Take a frame. -/
def write (s : Sink) (bytes : List UInt8) : Except Error Unit × Sink :=
  match s with
  | packets p => (.ok (), packets (p.write bytes))
  | device d =>
    let (result, d) := d.write bytes
    (result, device d)

/-- The name of the programme. -/
def name : Sink → String
  | packets p => p.name
  | device d => d.name

/-- The number of channels of the programme. -/
def channels : Sink → Nat
  | packets p => p.channels
  | device d => d.channels

end Sink

end SpectralCoding
