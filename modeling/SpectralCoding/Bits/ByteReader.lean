import SpectralCoding.Bits.Basic
import SpectralCoding.Overflow

/-!
# Reading bits from bytes

* `ByteReader` : a byte string and a place in it.
* `read`, `readSigned`, `skip` : take a field, a field in two's complement, or nothing but the room
  of it.
* `lowMask`, `extendSign` : low bits set, and the low bits of a word as a signed number. To set 31
  of them takes a number that there is not, see `Overflow`.

A field is taken a byte's share at a time. A failed read leaves no reader behind.
-/

namespace SpectralCoding

/-- A byte string being read. -/
structure ByteReader where
  data : Array UInt8
  /-- The number of bytes that have been read. -/
  bytePos : Nat := 0
  /-- The number of bits of the next byte that have been read. -/
  bitPos : Nat := 0
  bitPos_lt : bitPos < 8 := by decide

namespace ByteReader

theorem firstBit_lt : 0 < 8 := by decide

/-- A reader in front of the first bit of a byte string. -/
def ofBytes (bytes : List UInt8) : ByteReader :=
  { data := bytes.toArray, bitPos_lt := firstBit_lt }

/-- The number of bits read. -/
def bitsRead (r : ByteReader) : Nat := r.bytePos * 8 + r.bitPos

/-- The number of bits ahead. -/
def bitsLeft (r : ByteReader) : Nat :=
  if r.data.size ≤ r.bytePos then 0 else (r.data.size - r.bytePos) * 8 - r.bitPos

/-- The reader `n` bits further on. -/
def advance (r : ByteReader) (n : Nat) : ByteReader :=
  { r with
    bytePos := r.bytePos + (r.bitPos + n) / 8
    bitPos := (r.bitPos + n) % 8
    bitPos_lt := Nat.mod_lt _ (by decide) }

/-- The reader `width` bits further on within a byte or at the end of it. -/
def step (r : ByteReader) (width : Nat) : ByteReader :=
  if hinside : r.bitPos + width < 8 then { r with bitPos := r.bitPos + width, bitPos_lt := hinside }
  else { r with bytePos := r.bytePos + 1, bitPos := 0, bitPos_lt := firstBit_lt }

/-- The next `width` bits of a byte. -/
def share (r : ByteReader) (width : Nat) : UInt8 :=
  (r.data.getD r.bytePos 0 >>> UInt8.ofNat (8 - r.bitPos - width)) &&&
    ((1 <<< UInt32.ofNat width) - 1 : UInt32).toUInt8

/-- Take the next `n` bits behind those of `v`. -/
def take (r : ByteReader) (v : UInt32) (n : Nat) : UInt32 × ByteReader :=
  if n = 0 then (v, r)
  else
    let width := min n (8 - r.bitPos)
    (r.step width).take ((v <<< UInt32.ofNat width) ||| (r.share width).toUInt32) (n - width)
termination_by n
decreasing_by
  have hinside := r.bitPos_lt
  omega

/-- Read `n` bits as a number; at most 32 at once, none of them is zero wherever the reader
stands. -/
def read (r : ByteReader) (n : Nat) : Except Error (UInt32 × ByteReader) :=
  if n = 0 then .ok (0, r)
  else if 32 < n then .error (.readWidth n)
  else if r.bitsLeft < n then .error .endOfStream
  else .ok (r.take 0 n)

/-- Pass over `n` bits. -/
def skip (r : ByteReader) (n : Nat) : Except Error ByteReader :=
  if r.bitsLeft < n then .error .endOfStream else .ok (r.advance n)

end ByteReader

/-- The number whose low `n` bits are ones. It is one less than a power of two, and there is no
number below the least one. -/
def lowMask (o : Overflow) (n : Nat) : Except Error Int32 :=
  let power : Int32 := 1 <<< Int32.ofNat n
  o.word (power ≠ Int32.minValue) (power - 1)

/-- The low `n` bits of `v` in two's complement. A word whose bit `n - 1` is clear is taken
whole. -/
def extendSign (o : Overflow) (v : UInt32) (n : Nat) : Except Error Int32 :=
  if n = 0 then .ok 0
  else if 32 ≤ n then .ok v.toInt32
  else if (v >>> UInt32.ofNat (n - 1)) &&& 1 ≠ 0 then (lowMask o n).map (v.toInt32 ||| ~~~·)
  else .ok v.toInt32

namespace ByteReader

/-- Read `n` bits as a number in two's complement. -/
def readSigned (o : Overflow) (r : ByteReader) (n : Nat) : Except Error (Int32 × ByteReader) :=
  match r.read n with
  | .error cause => .error cause
  | .ok (v, r) => (extendSign o v n).map fun x => (x, r)

end ByteReader

end SpectralCoding
