import SpectralCoding.Bits.Basic
import SpectralCoding.Error

/-!
# Reading bits

* `BitReader` : the bits that are still unread, and how many have been.
* `read`, `readSigned`, `skip` : take a field, a field in two's complement, or nothing but the room
  of it.
* `signExtend` : a field of a 32-bit word as a signed number.

A failed read leaves no reader behind, so the caller goes on with the one it had: a failure moves
nothing.
-/

namespace SpectralCoding

/-- A bit stream being read. -/
structure BitReader where
  /-- The number of bits read. -/
  bitsRead : Nat := 0
  /-- The bits ahead. -/
  unread : List Bool
  deriving DecidableEq, Repr, Inhabited

namespace BitReader

/-- A reader in front of the first bit of a byte string. -/
def ofBytes (bytes : List UInt8) : BitReader := { unread := Bits.unpack bytes }

/-- The number of bits ahead. -/
def bitsLeft (r : BitReader) : Nat := r.unread.length

/-- The reader `n` bits further on. -/
def advance (r : BitReader) (n : Nat) : BitReader := ⟨r.bitsRead + n, r.unread.drop n⟩

/-- Read `width` bits as a number; at most 32 at once, none of them is zero wherever the reader
stands. -/
def read (r : BitReader) (width : Nat) : Except Error (Nat × BitReader) :=
  if width = 0 then .ok (0, r)
  else if 32 < width then .error (.readWidth width)
  else if r.bitsLeft < width then .error .endOfStream
  else .ok (Bits.toNat (r.unread.take width), r.advance width)

/-- Pass over `n` bits. -/
def skip (r : BitReader) (n : Nat) : Except Error BitReader :=
  if r.bitsLeft < n then .error .endOfStream else .ok (r.advance n)

end BitReader

/-- The 32-bit word `v` as a signed number. -/
def signedWord (v : Nat) : Int := Int.bmod v (2 ^ 32)

/-- The low `width` bits of the 32-bit word `v` in two's complement. A word whose bit `width - 1` is
clear is taken whole. -/
def signExtend (v width : Nat) : Int :=
  if width = 0 then 0
  else if 32 ≤ width then signedWord v
  else if v.testBit (width - 1) then (v % 2 ^ width : Nat) - (2 ^ width : Nat)
  else signedWord v

namespace BitReader

/-- Read `width` bits as a number in two's complement. -/
def readSigned (r : BitReader) (width : Nat) : Except Error (Int × BitReader) :=
  match r.read width with
  | .error e => .error e
  | .ok (v, r) => .ok (signExtend v width, r)

/-- Read one field after the other, each of `width` bits. -/
def readMany (r : BitReader) (width : Nat) : (count : Nat) → Except Error (List Nat × BitReader)
  | 0 => .ok ([], r)
  | count + 1 =>
    match r.read width with
    | .error e => .error e
    | .ok (v, r) =>
      match readMany r width count with
      | .error e => .error e
      | .ok (vs, r) => .ok (v :: vs, r)

/-- Read one signed field after the other, each of `width` bits. -/
def readManySigned (r : BitReader) (width : Nat) : (count : Nat) → Except Error (List Int × BitReader)
  | 0 => .ok ([], r)
  | count + 1 =>
    match r.readSigned width with
    | .error e => .error e
    | .ok (v, r) =>
      match readManySigned r width count with
      | .error e => .error e
      | .ok (vs, r) => .ok (v :: vs, r)

end BitReader

end SpectralCoding
