import SpectralCoding.Bits.Basic

/-!
# Writing bits into bytes

The stream as it lies in memory: bytes that are full, and one on its way, whose bits lie at its low
end until it is full.

* `ByteWriter` : such a stream under construction.
* `ByteWriter.store`, `ByteWriter.join`, `ByteWriter.chunk` : put a byte by, move bits up behind
  others, and cut them out of a word.
* `writeBit`, `write`, `writeSigned`, `writeZeros`, `padTo`, `align` : append a bit, a field, zeros,
  zeros up to a total, zeros up to the next byte.
* `completeBytes`, `finish` : the bytes that are full, and all bytes with the last one filled up.

A field is cut where a byte ends, so that every step moves bits within one byte.
-/

namespace SpectralCoding

/-- A bit stream under construction, in bytes. -/
structure ByteWriter where
  /-- The bytes of which all bits are written. -/
  full : Array UInt8
  /-- The byte on its way, its bits at the low end. -/
  current : UInt8
  /-- The number of its bits. -/
  count : Nat
  count_lt : count < 8
  current_lt : current.toNat < 2 ^ count

namespace ByteWriter

/-- The stream with nothing in it. -/
def empty : ByteWriter := ⟨#[], 0, 0, by decide, by decide⟩

/-- The number of bits written. -/
def size (w : ByteWriter) : Nat := w.full.size * 8 + w.count

/-! ### Steps within a byte -/

/-- A stream whose byte on its way has `count` bits. A byte with all its bits is put by. -/
def store (full : Array UInt8) (current : UInt8) (count : Nat) (h : current.toNat < 2 ^ count) :
    ByteWriter :=
  if hroom : count < 8 then ⟨full, current, count, hroom, h⟩
  else ⟨full.push current, 0, 0, by decide, by decide⟩

/-- The bits of a byte moved up by `width`, with `bits` behind them. -/
def join (current : UInt8) (width : Nat) (bits : UInt8) : UInt8 :=
  if 8 ≤ width then bits else (current <<< UInt8.ofNat width) ||| bits

/-- The `width` bits of `v` that lie above the lowest `shift`. -/
def chunk (v : UInt32) (shift width : Nat) : UInt8 :=
  ((v >>> UInt32.ofNat shift) &&& ((1 <<< UInt32.ofNat width) - 1)).toUInt8

theorem join_lt {current bits : UInt8} {count width : Nat} (hcurrent : current.toNat < 2 ^ count)
    (hbits : bits.toNat < 2 ^ width) : (join current width bits).toNat < 2 ^ (count + width) := by
  have hbits' : bits.toNat < 2 ^ (count + width) :=
    Nat.lt_of_lt_of_le hbits (Nat.pow_le_pow_right (by decide) (Nat.le_add_left ..))
  unfold join
  split
  · exact hbits'
  · have hshift : current.toNat * 2 ^ width < 2 ^ (count + width) := by
      rw [Nat.pow_add]
      exact Nat.mul_lt_mul_of_pos_right hcurrent (Nat.two_pow_pos width)
    have hwidth : (UInt8.ofNat width).toNat % 8 = width := by
      rw [UInt8.toNat_ofNat']
      omega
    rw [UInt8.toNat_or, UInt8.toNat_shiftLeft, hwidth, Nat.shiftLeft_eq]
    exact Nat.or_lt_two_pow (Nat.lt_of_le_of_lt (Nat.mod_le ..) hshift) hbits'

theorem toNat_mask {width : Nat} (h : width ≤ 8) :
    ((1 : UInt32) <<< UInt32.ofNat width - 1).toNat = 2 ^ width - 1 := by
  have hle : 2 ^ width ≤ 2 ^ 8 := Nat.pow_le_pow_right (by decide) h
  have hpos := Nat.two_pow_pos width
  have hwidth : (UInt32.ofNat width).toNat % 32 = width := by
    rw [UInt32.toNat_ofNat']
    omega
  have hone : ((1 : UInt32) <<< UInt32.ofNat width).toNat = 2 ^ width := by
    rw [UInt32.toNat_shiftLeft, hwidth, Nat.shiftLeft_eq]
    exact (congrArg (· % 2 ^ 32) (Nat.one_mul _)).trans (Nat.mod_eq_of_lt (by omega))
  rw [UInt32.toNat_sub_of_le, hone]
  · rfl
  · rw [UInt32.le_iff_toNat_le, hone]
    exact hpos

theorem chunk_lt (v : UInt32) (shift : Nat) {width : Nat} (hwidth : width ≤ 8) :
    (chunk v shift width).toNat < 2 ^ width := by
  have hpos := Nat.two_pow_pos width
  rw [chunk, UInt32.toNat_toUInt8, UInt32.toNat_and, toNat_mask hwidth]
  have hle := Nat.and_le_right (n := (v >>> UInt32.ofNat shift).toNat) (m := 2 ^ width - 1)
  exact Nat.lt_of_le_of_lt (Nat.mod_le ..) (by omega)

theorem chunk_lt_of_room (v : UInt32) (n : Nat) {w : ByteWriter} :
    (chunk v (n - min n (8 - w.count)) (min n (8 - w.count))).toNat <
      2 ^ min n (8 - w.count) :=
  chunk_lt v _ (Nat.le_trans (Nat.min_le_right ..) (Nat.sub_le ..))

/-! ### Fields -/

/-- Append the low bit of `bit`. -/
def writeBit (w : ByteWriter) (bit : UInt32) : ByteWriter :=
  store w.full (join w.current 1 (chunk bit 0 1)) (w.count + 1)
    (join_lt w.current_lt (chunk_lt bit 0 (by decide)))

/-- Append the low `n` bits of `v`. -/
def write (w : ByteWriter) (v : UInt32) (n : Nat) : ByteWriter :=
  if n = 0 then w
  else
    let width := min n (8 - w.count)
    let bits := chunk v (n - width) width
    let stored := store w.full (join w.current width bits) (w.count + width)
      (join_lt w.current_lt (chunk_lt_of_room v n))
    stored.write v (n - width)
termination_by n
decreasing_by
  have hroom := w.count_lt
  omega

/-- Append the low `n` bits of `v` in two's complement. -/
def writeSigned (w : ByteWriter) (v : Int32) (n : Nat) : ByteWriter :=
  if n = 0 then w
  else w.write (v.toUInt32 &&& ((1 <<< UInt64.ofNat n) - 1 : UInt64).toUInt32) n

/-- The most zeros that are written at once. -/
def mostZeros : Nat := 32

/-- Append `n` zeros. -/
def writeZeros (w : ByteWriter) (n : Nat) : ByteWriter :=
  if n = 0 then w else (w.write 0 (min n mostZeros)).writeZeros (n - min n mostZeros)
termination_by n
decreasing_by
  unfold mostZeros
  omega

/-- Append zeros until `total` bits are written; a longer stream stays as it is. -/
def padTo (w : ByteWriter) (total : Nat) : ByteWriter :=
  if w.size < total then w.writeZeros (total - w.size) else w

/-! ### Bytes -/

/-- Append zeros up to the next whole byte. -/
def align (w : ByteWriter) : ByteWriter :=
  if 0 < w.count then
    ⟨w.full.push (w.current <<< UInt8.ofNat (8 - w.count)), 0, 0, by decide, by decide⟩
  else w

/-- The bytes of which all bits are written. -/
def completeBytes (w : ByteWriter) : List UInt8 := w.full.toList

/-- All bytes, the last one filled up with zeros. -/
def finish (w : ByteWriter) : List UInt8 := w.align.full.toList

end ByteWriter

end SpectralCoding
