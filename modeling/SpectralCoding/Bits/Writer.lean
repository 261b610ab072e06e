import SpectralCoding.Bits.Basic

/-!
# Writing bits

* `BitWriter` : what has been written so far, as a bit string.
* `write`, `writeSigned`, `writeBit`, `writeZeros`, `padTo`, `align` : append a field, one bit,
  zeros, zeros up to a total, zeros up to the next byte.
* `completeBytes`, `finish` : the bytes that are full, and all bytes with the last one filled up.

Every operation appends, so what it does to the stream is one equation on `bits`.
-/

namespace SpectralCoding

/-- A bit stream under construction. -/
structure BitWriter where
  /-- The bits written so far. -/
  bits : List Bool := []
  deriving DecidableEq, Repr, Inhabited

namespace BitWriter

/-- The stream with nothing in it. -/
def empty : BitWriter := {}

/-- The number of bits written. -/
def size (w : BitWriter) : Nat := w.bits.length

/-- Append a bit string. -/
def append (w : BitWriter) (bits : List Bool) : BitWriter := ⟨w.bits ++ bits⟩

/-- Append the low bit of `v`. -/
def writeBit (w : BitWriter) (v : Nat) : BitWriter := w.append [v.testBit 0]

/-- Append the low `width` bits of `v`. -/
def write (w : BitWriter) (width v : Nat) : BitWriter := w.append (Bits.ofNat width v)

/-- Append the low `width` bits of `v` in two's complement. -/
def writeSigned (w : BitWriter) (width : Nat) (v : Int) : BitWriter :=
  w.append (Bits.ofInt width v)

/-- Append `n` zeros. -/
def writeZeros (w : BitWriter) (n : Nat) : BitWriter := w.append (List.replicate n false)

/-- Append zeros until `total` bits are written; a longer stream stays as it is. -/
def padTo (w : BitWriter) (total : Nat) : BitWriter := w.writeZeros (total - w.size)

/-- Append zeros up to the next whole byte. -/
def align (w : BitWriter) : BitWriter := w.padTo ((w.size + 7) / 8 * 8)

/-- The bytes of which all bits are written. -/
def completeBytes (w : BitWriter) : List UInt8 := Bits.pack (w.bits.take (w.size / 8 * 8))

/-- All bytes, the last one filled up with zeros. -/
def finish (w : BitWriter) : List UInt8 := Bits.pack w.bits

@[simp] theorem bits_empty : empty.bits = [] := rfl

@[simp] theorem bits_append (w : BitWriter) (bits : List Bool) :
    (w.append bits).bits = w.bits ++ bits := rfl

@[simp] theorem bits_write (w : BitWriter) (width v : Nat) :
    (w.write width v).bits = w.bits ++ Bits.ofNat width v := rfl

@[simp] theorem bits_writeSigned (w : BitWriter) (width : Nat) (v : Int) :
    (w.writeSigned width v).bits = w.bits ++ Bits.ofInt width v := rfl

@[simp] theorem bits_writeZeros (w : BitWriter) (n : Nat) :
    (w.writeZeros n).bits = w.bits ++ List.replicate n false := rfl

@[simp] theorem size_padTo (w : BitWriter) (total : Nat) : (w.padTo total).size = max w.size total := by
  simp only [padTo, size, bits_writeZeros, List.length_append, List.length_replicate]
  omega

end BitWriter

end SpectralCoding
