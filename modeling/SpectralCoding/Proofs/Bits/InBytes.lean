import SpectralCoding.Bits.ByteReader
import SpectralCoding.Bits.ByteWriter
import SpectralCoding.Proofs.Bits.Reading

/-!
# Streams in bytes are streams of bits

The bits of a stream, and its bytes with one of them half done, are two views of one thing. Every
operation in bytes is the operation of the same name in bits.

* `ByteWriter.view`, `ByteWriter.view_injective` : the bits that a writer has written tell all of
  it.
* `ByteWriter.view_writeBit`, `view_write`, `view_writeSigned`, `view_writeZeros`, `view_padTo`,
  `view_align`, `finish_view`, `completeBytes_view` : what a writer does, in bits.
* `ByteReader.view` : the bits ahead of a reader.
* `ByteReader.take_spec` : bits taken a byte's share at a time.
* `ByteReader.read_view`, `skip_view` : what a reader does, in bits.
* `ByteReader.SignOverflows`, `readSigned_of_read` : a signed number is that of the bits ahead, and
  the one width and the one sign for which a program may stop instead.
-/

namespace SpectralCoding

namespace ByteWriter

variable {w : ByteWriter}

/-- The bits that have been written. -/
def view (w : ByteWriter) : BitWriter :=
  ⟨Bits.unpack w.full.toList ++ Bits.ofNat w.count w.current.toNat⟩

theorem size_view (w : ByteWriter) : w.view.size = w.size := by
  simp only [BitWriter.size, view, List.length_append, Bits.length_unpack, Bits.length_ofNat,
    Array.length_toList, size]
  omega

/-- A writer is told by its bits. -/
theorem view_injective : Function.Injective view := by
  intro w w' h
  have hsize := congrArg BitWriter.size h
  rw [size_view, size_view] at hsize
  obtain ⟨full, current, count, hlt, hsmall⟩ := w
  obtain ⟨full', current', count', hlt', hsmall'⟩ := w'
  simp only [size] at hsize
  obtain ⟨hfull, hcurrent⟩ := List.append_inj (congrArg BitWriter.bits h) (by simp; omega)
  obtain rfl : full = full' := Array.toList_inj.1 (Bits.unpack_injective hfull)
  obtain rfl : count = count' := by omega
  obtain rfl : current = current' := UInt8.toNat_inj.1 (Bits.ofNat_inj hsmall hsmall' hcurrent)
  rfl

/-! ### Steps within a byte -/

theorem toNat_chunk (v : UInt32) {shift width : Nat} (hshift : shift < 32) (hwidth : width ≤ 8) :
    (chunk v shift width).toNat = v.toNat / 2 ^ shift % 2 ^ width := by
  have hle : 2 ^ width ≤ 2 ^ 8 := Nat.pow_le_pow_right (by decide) hwidth
  have hlt := Nat.mod_lt (v.toNat / 2 ^ shift) (Nat.two_pow_pos width)
  have hamount : (UInt32.ofNat shift).toNat % 32 = shift := by
    rw [UInt32.toNat_ofNat']
    omega
  rw [chunk, UInt32.toNat_toUInt8, UInt32.toNat_and, toNat_mask hwidth, UInt32.toNat_shiftRight,
    hamount, Nat.and_two_pow_sub_one_eq_mod, Nat.shiftRight_eq_div_pow]
  exact Nat.mod_eq_of_lt (by omega)

theorem toNat_join {current bits : UInt8} {count width : Nat} (hcurrent : current.toNat < 2 ^ count)
    (hbits : bits.toNat < 2 ^ width) (hroom : count + width ≤ 8) :
    (join current width bits).toNat = current.toNat * 2 ^ width + bits.toNat := by
  unfold join
  split
  · obtain rfl : count = 0 := by omega
    rw [Nat.lt_one_iff.1 hcurrent, Nat.zero_mul, Nat.zero_add]
  · have hwidth : (UInt8.ofNat width).toNat % 8 = width := by
      rw [UInt8.toNat_ofNat']
      omega
    have hfits : current.toNat <<< width < 2 ^ 8 := by
      rw [Nat.shiftLeft_eq]
      refine Nat.lt_of_lt_of_le (Nat.mul_lt_mul_of_pos_right hcurrent (Nat.two_pow_pos width)) ?_
      rw [← Nat.pow_add]
      exact Nat.pow_le_pow_right (by decide) hroom
    rw [UInt8.toNat_or, UInt8.toNat_shiftLeft, hwidth, Nat.mod_eq_of_lt hfits,
      ← Nat.shiftLeft_add_eq_or_of_lt hbits, Nat.shiftLeft_eq]

/-- The bits of a byte keep their order when more are put behind them. -/
theorem ofNat_join {current bits : UInt8} {count width : Nat} (hcurrent : current.toNat < 2 ^ count)
    (hbits : bits.toNat < 2 ^ width) (hroom : count + width ≤ 8) :
    Bits.ofNat (count + width) (join current width bits).toNat =
      Bits.ofNat count current.toNat ++ Bits.ofNat width bits.toNat := by
  have hquotient : (current.toNat * 2 ^ width + bits.toNat) / 2 ^ width = current.toNat := by
    rw [Nat.mul_comm, Nat.mul_add_div (Nat.two_pow_pos width), Nat.div_eq_of_lt hbits, Nat.add_zero]
  rw [toNat_join hcurrent hbits hroom, Bits.ofNat_add, hquotient, Nat.add_comm, Bits.ofNat_add_mul]

theorem bits_store (full : Array UInt8) {current : UInt8} {count : Nat}
    (h : current.toNat < 2 ^ count) (hroom : count ≤ 8) :
    (store full current count h).view.bits =
      Bits.unpack full.toList ++ Bits.ofNat count current.toNat := by
  unfold store
  split
  · rfl
  · obtain rfl : count = 8 := by omega
    simp only [view, Array.toList_push, Bits.ofNat_zero, List.append_nil]
    rw [Bits.unpack_append, Bits.unpack_singleton]

/-- What is put behind the bits of a byte is appended to the stream. -/
theorem bits_store_join {bits : UInt8} {width : Nat} (hbits : bits.toNat < 2 ^ width)
    (hroom : w.count + width ≤ 8) :
    (store w.full (join w.current width bits) (w.count + width)
        (join_lt w.current_lt hbits)).view.bits =
      w.view.bits ++ Bits.ofNat width bits.toNat := by
  rw [bits_store _ _ hroom, ofNat_join w.current_lt hbits hroom, ← List.append_assoc]
  rfl

/-! ### Fields -/

@[simp] theorem view_writeBit (w : ByteWriter) (bit : UInt32) :
    (w.writeBit bit).view = w.view.writeBit bit.toNat := by
  have hroom : w.count + 1 ≤ 8 := w.count_lt
  refine congrArg BitWriter.mk ((bits_store_join (chunk_lt bit 0 (by decide)) hroom).trans ?_)
  rw [toNat_chunk bit (by decide) (by decide), Bits.ofNat_mod_two_pow (Nat.le_refl 1)]
  simp [Bits.ofNat]

/-- A field in bytes is the field in bits. -/
theorem view_write (w : ByteWriter) (v : UInt32) {n : Nat} (hn : n ≤ 32) :
    (w.write v n).view = w.view.write n v.toNat := by
  fun_induction write w v n with
  | case1 w =>
    exact congrArg BitWriter.mk (List.append_nil _).symm
  | case2 w n hpos width bits stored ih =>
    have hroom := w.count_lt
    have hlow : n - width < 32 := by omega
    have hbyte : width ≤ 8 := by omega
    have hstored : stored.view.bits = w.view.bits ++ Bits.ofNat width bits.toNat :=
      bits_store_join (chunk_lt_of_room v n) (by omega)
    have hbits : Bits.ofNat width bits.toNat = Bits.ofNat width (v.toNat / 2 ^ (n - width)) := by
      rw [toNat_chunk v hlow hbyte, Bits.ofNat_mod_two_pow (Nat.le_refl width)]
    have hsplit : n = width + (n - width) := by omega
    rw [ih (by omega)]
    refine congrArg BitWriter.mk ?_
    rw [hstored, hbits, List.append_assoc, ← Bits.ofNat_add, ← hsplit]

theorem toNat_mask_signed {n : Nat} (hn : n ≤ 32) :
    ((1 <<< UInt64.ofNat n) - 1 : UInt64).toUInt32.toNat = 2 ^ n - 1 := by
  have hle : 2 ^ n ≤ 2 ^ 32 := Nat.pow_le_pow_right (by decide) hn
  have hpos := Nat.two_pow_pos n
  have hamount : (UInt64.ofNat n).toNat % 64 = n := by
    rw [UInt64.toNat_ofNat']
    omega
  have hone : ((1 : UInt64) <<< UInt64.ofNat n).toNat = 2 ^ n := by
    rw [UInt64.toNat_shiftLeft, hamount, Nat.shiftLeft_eq]
    exact (congrArg (· % 2 ^ 64) (Nat.one_mul _)).trans (Nat.mod_eq_of_lt (by omega))
  rw [UInt64.toNat_toUInt32, UInt64.toNat_sub_of_le, hone]
  · exact Nat.mod_eq_of_lt (show 2 ^ n - 1 < 2 ^ 32 by omega)
  · rw [UInt64.le_iff_toNat_le, hone]
    exact hpos

theorem toNat_toUInt32_mod (v : Int32) {n : Nat} (hn : n ≤ 32) :
    v.toUInt32.toNat % 2 ^ n = (v.toInt % (2 ^ n : Nat)).toNat := by
  have hdvd : ((2 ^ n : Nat) : Int) ∣ (2 ^ 32 : Nat) := by
    exact_mod_cast Nat.pow_dvd_pow 2 hn
  have hword : (v.toUInt32.toNat : Int) = v.toInt % (2 ^ 32 : Nat) := by
    have hbits : v.toUInt32.toNat = (BitVec.ofInt 32 v.toBitVec.toInt).toNat := by
      rw [BitVec.ofInt_toInt]
      rfl
    rw [hbits, BitVec.toNat_ofInt]
    exact Int.toNat_of_nonneg (Int.emod_nonneg _ (by decide))
  have hlow : ((v.toUInt32.toNat % 2 ^ n : Nat) : Int) = v.toInt % (2 ^ n : Nat) := by
    rw [Int.natCast_emod, hword, Int.emod_emod_of_dvd _ hdvd]
  rw [← hlow, Int.toNat_natCast]

theorem view_writeSigned (w : ByteWriter) (v : Int32) {n : Nat} (hn : n ≤ 32) :
    (w.writeSigned v n).view = w.view.writeSigned n v.toInt := by
  unfold writeSigned
  split
  · rename_i hzero
    subst hzero
    exact congrArg BitWriter.mk (List.append_nil _).symm
  · rw [view_write w _ hn]
    refine congrArg BitWriter.mk (congrArg (w.view.bits ++ ·) ?_)
    rw [UInt32.toNat_and, toNat_mask_signed hn, Nat.and_two_pow_sub_one_eq_mod, Bits.ofInt,
      toNat_toUInt32_mod v hn]

/-- Zeros in bytes are zeros in bits. -/
@[simp] theorem view_writeZeros (w : ByteWriter) (n : Nat) :
    (w.writeZeros n).view = w.view.writeZeros n := by
  fun_induction writeZeros w n with
  | case1 w => exact congrArg BitWriter.mk (List.append_nil _).symm
  | case2 w n hpos ih =>
    have hsplit : n = min n mostZeros + (n - min n mostZeros) := by omega
    have hnarrow : min n mostZeros ≤ 32 := Nat.min_le_right ..
    rw [ih, view_write w 0 hnarrow]
    refine congrArg BitWriter.mk ?_
    rw [BitWriter.bits_write, UInt32.toNat_zero, Bits.ofNat_of_zero, List.append_assoc,
      List.replicate_append_replicate, ← hsplit]

@[simp] theorem view_padTo (w : ByteWriter) (total : Nat) :
    (w.padTo total).view = w.view.padTo total := by
  unfold padTo BitWriter.padTo
  rw [size_view]
  split
  · exact view_writeZeros ..
  · have hnone : total - w.size = 0 := by omega
    rw [hnone]
    exact congrArg BitWriter.mk (List.append_nil _).symm

@[simp] theorem view_align (w : ByteWriter) : w.align.view = w.view.align := by
  unfold align BitWriter.align BitWriter.padTo
  rw [size_view]
  have hcount := w.count_lt
  split
  · have hzeros : (w.size + 7) / 8 * 8 - w.size = 8 - w.count := by
      unfold size
      omega
    have hamount : (UInt8.ofNat (8 - w.count)).toNat % 8 = 8 - w.count := by
      rw [UInt8.toNat_ofNat']
      omega
    have hfits : w.current.toNat * 2 ^ (8 - w.count) < 2 ^ 8 := by
      refine Nat.lt_of_lt_of_eq
        (Nat.mul_lt_mul_of_pos_right w.current_lt (Nat.two_pow_pos (8 - w.count))) ?_
      rw [← Nat.pow_add, Nat.add_sub_cancel' (Nat.le_of_lt hcount)]
    have hbyte : Bits.ofNat 8 (w.current <<< UInt8.ofNat (8 - w.count)).toNat =
        Bits.ofNat w.count w.current.toNat ++ List.replicate (8 - w.count) false := by
      rw [UInt8.toNat_shiftLeft, hamount, Nat.shiftLeft_eq, Nat.mod_eq_of_lt hfits,
        ← Bits.ofNat_mul_two_pow, Nat.add_sub_cancel' (Nat.le_of_lt hcount)]
    rw [hzeros]
    refine congrArg BitWriter.mk ?_
    simp only [Array.toList_push, Bits.ofNat_zero, List.append_nil]
    rw [Bits.unpack_append, Bits.unpack_singleton, hbyte, ← List.append_assoc]
    rfl
  · have hnone : (w.size + 7) / 8 * 8 - w.size = 0 := by
      unfold size
      omega
    rw [hnone]
    exact congrArg BitWriter.mk (List.append_nil _).symm

/-! ### Bytes -/

theorem count_align (w : ByteWriter) : w.align.count = 0 := by
  have hcount := w.count_lt
  unfold align
  split
  · rfl
  · omega

theorem unpack_finish (w : ByteWriter) : Bits.unpack w.finish = w.view.align.bits := by
  rw [← view_align, view, count_align, Bits.ofNat_zero, List.append_nil]
  rfl

/-- The bytes of a stream are those of its bits. -/
@[simp] theorem finish_view (w : ByteWriter) : w.view.finish = w.finish := by
  refine Bits.unpack_injective ?_
  rw [unpack_finish, BitWriter.finish, Bits.unpack_pack_eq]
  rfl

@[simp] theorem completeBytes_view (w : ByteWriter) : w.view.completeBytes = w.completeBytes := by
  have hcount := w.count_lt
  have hwhole : w.size / 8 * 8 = (Bits.unpack w.full.toList).length := by
    rw [Bits.length_unpack, Array.length_toList, size]
    omega
  rw [BitWriter.completeBytes, size_view, hwhole, view, List.take_left, Bits.pack_unpack]
  rfl

end ByteWriter

theorem BitReader.advance_advance (r : BitReader) (m n : Nat) :
    (r.advance m).advance n = r.advance (m + n) := by
  simp only [BitReader.advance, Nat.add_assoc, List.drop_drop]

namespace ByteReader

variable {r : ByteReader}

/-- The bits ahead, and the number of those that have been read. -/
def view (r : ByteReader) : BitReader :=
  ⟨r.bitsRead, (Bits.unpack r.data.toList).drop r.bitsRead⟩

@[simp] theorem view_ofBytes (bytes : List UInt8) :
    (ofBytes bytes).view = BitReader.ofBytes bytes := rfl

@[simp] theorem bitsLeft_view (r : ByteReader) : r.view.bitsLeft = r.bitsLeft := by
  have hinside := r.bitPos_lt
  simp only [BitReader.bitsLeft, view, List.length_drop, Bits.length_unpack, Array.length_toList,
    bitsLeft, bitsRead]
  split <;> omega

@[simp] theorem view_advance (r : ByteReader) (n : Nat) :
    (r.advance n).view = r.view.advance n := by
  have hread : (r.advance n).bitsRead = r.bitsRead + n := by
    simp only [advance, bitsRead]
    omega
  rw [view, hread, BitReader.advance, view, List.drop_drop]
  rfl

/-! ### A byte's share -/

theorem view_step {width : Nat} (h : r.bitPos + width ≤ 8) :
    (r.step width).view = r.view.advance width := by
  have hread : (r.step width).bitsRead = r.bitsRead + width := by
    unfold step
    split
    · simp only [bitsRead]
      omega
    · simp only [bitsRead]
      omega
  have hdata : (r.step width).data = r.data := by
    unfold step
    split <;> rfl
  rw [view, hread, hdata, BitReader.advance, view, List.drop_drop]

theorem unread_view (h : r.bytePos < r.data.size) :
    r.view.unread = Bits.ofNat (8 - r.bitPos) (r.data.getD r.bytePos 0).toNat ++
      Bits.unpack (r.data.toList.drop (r.bytePos + 1)) := by
  have hinside : r.bitPos ≤ 8 := Nat.le_of_lt r.bitPos_lt
  have hbyte : r.data.toList.drop r.bytePos =
      r.data.getD r.bytePos 0 :: r.data.toList.drop (r.bytePos + 1) := by
    rw [List.drop_eq_getElem_cons (by simpa using h), Array.getD, dif_pos h]
    rfl
  have hfield := Bits.drop_ofNat r.bitPos (8 - r.bitPos) (r.data.getD r.bytePos 0).toNat
  rw [Nat.add_sub_cancel' hinside] at hfield
  rw [view, bitsRead, ← List.drop_drop, Bits.drop_unpack, hbyte, Bits.unpack_cons,
    List.drop_append_of_le_length (by simpa using hinside), hfield]

/-- The share of a byte is the number that the bits ahead hold. -/
theorem toNat_share {width : Nat} (hpos : 0 < width) (hroom : r.bitPos + width ≤ 8)
    (hbyte : r.bytePos < r.data.size) :
    (r.share width).toNat = Bits.toNat (r.view.unread.take width) := by
  have hsplit : 8 - r.bitPos = width + (8 - r.bitPos - width) := by omega
  have hlow : width ≤ (Bits.ofNat (8 - r.bitPos) (r.data.getD r.bytePos 0).toNat).length := by
    rw [Bits.length_ofNat]
    omega
  have hamount : (UInt8.ofNat (8 - r.bitPos - width)).toNat % 8 = 8 - r.bitPos - width := by
    rw [UInt8.toNat_ofNat']
    omega
  have hmask : ((1 <<< UInt32.ofNat width) - 1 : UInt32).toUInt8.toNat = 2 ^ width - 1 := by
    have hle : 2 ^ width ≤ 2 ^ 8 := Nat.pow_le_pow_right (by decide) (by omega)
    have hpos := Nat.two_pow_pos width
    rw [UInt32.toNat_toUInt8, ByteWriter.toNat_mask (by omega)]
    omega
  rw [unread_view hbyte, List.take_append_of_le_length hlow, hsplit, Bits.take_ofNat,
    Bits.toNat_ofNat, share, UInt8.toNat_and, UInt8.toNat_shiftRight, hamount, hmask,
    Nat.and_two_pow_sub_one_eq_mod, Nat.shiftRight_eq_div_pow]

/-- A word has room for more bits behind its own. -/
theorem toNat_shifted {v : UInt32} {bits : UInt8} {n width : Nat} (hwidth : width < 32)
    (hle : width ≤ n) (hn : n ≤ 32) (hv : v.toNat < 2 ^ (32 - n))
    (hbits : bits.toNat < 2 ^ width) :
    ((v <<< UInt32.ofNat width) ||| bits.toUInt32).toNat = v.toNat * 2 ^ width + bits.toNat ∧
      v.toNat * 2 ^ width + bits.toNat < 2 ^ (32 - (n - width)) := by
  have hsplit : 32 - (n - width) = 32 - n + width := by omega
  have hlt : v.toNat * 2 ^ width + bits.toNat < 2 ^ (32 - (n - width)) := by
    have hnext : (v.toNat + 1) * 2 ^ width ≤ 2 ^ (32 - n) * 2 ^ width :=
      Nat.mul_le_mul_right _ hv
    rw [hsplit, Nat.pow_add]
    rw [Nat.succ_mul] at hnext
    omega
  have hfits : v.toNat <<< width < 2 ^ 32 := by
    have hle : 2 ^ (32 - (n - width)) ≤ 2 ^ 32 := Nat.pow_le_pow_right (by decide) (Nat.sub_le ..)
    rw [Nat.shiftLeft_eq]
    omega
  have hamount : (UInt32.ofNat width).toNat % 32 = width := by
    rw [UInt32.toNat_ofNat']
    omega
  refine ⟨?_, hlt⟩
  rw [UInt32.toNat_or, UInt32.toNat_shiftLeft, hamount, Nat.mod_eq_of_lt hfits,
    UInt8.toNat_toUInt32, ← Nat.shiftLeft_add_eq_or_of_lt hbits, Nat.shiftLeft_eq]

/-- Bits taken byte by byte are the bits ahead. -/
theorem take_spec {v : UInt32} {n : Nat} (hn : n ≤ 32) (hv : v.toNat < 2 ^ (32 - n))
    (hleft : n ≤ r.bitsLeft) :
    (r.take v n).2.view = r.view.advance n ∧
      (r.take v n).1.toNat = v.toNat * 2 ^ n + Bits.toNat (r.view.unread.take n) := by
  fun_induction take r v n with
  | case1 r v =>
    refine ⟨?_, ?_⟩
    · rw [← bitsLeft_view] at hleft
      rfl
    · rw [List.take_zero, Bits.toNat_nil, Nat.pow_zero, Nat.mul_one, Nat.add_zero]
  | case2 r v n hpos width ih =>
    have hinside := r.bitPos_lt
    have hroom : r.bitPos + width ≤ 8 := by omega
    have hbyte : r.bytePos < r.data.size := by
      unfold bitsLeft at hleft
      split at hleft <;> omega
    have hstep := view_step hroom
    have hsome : 0 < width := by omega
    have hshare := toNat_share hsome hroom hbyte
    have hsmall : (r.share width).toNat < 2 ^ width := by
      rw [hshare]
      refine Nat.lt_of_lt_of_le (Bits.toNat_lt _) (Nat.pow_le_pow_right (by decide) ?_)
      exact List.length_take_le ..
    obtain ⟨hword, hfits⟩ := toNat_shifted (by omega) (Nat.min_le_left ..) hn hv hsmall
    have hleft' : n - width ≤ (r.step width).bitsLeft := by
      rw [← bitsLeft_view, hstep, BitReader.bitsLeft, BitReader.advance, List.length_drop]
      rw [← bitsLeft_view, BitReader.bitsLeft] at hleft
      omega
    obtain ⟨hview, hvalue⟩ := ih (by omega) (hword ▸ hfits) hleft'
    have hsum : width + (n - width) = n := by omega
    have hahead : r.view.unread.take n = r.view.unread.take width ++
        (r.view.unread.drop width).take (n - width) := by
      rw [← List.take_add, hsum]
    have hlength : ((r.view.unread.drop width).take (n - width)).length = n - width := by
      rw [← bitsLeft_view, hstep, BitReader.bitsLeft] at hleft'
      exact List.length_take_of_le hleft'
    have hpower : v.toNat * 2 ^ width * 2 ^ (n - width) = v.toNat * 2 ^ n := by
      rw [Nat.mul_assoc, ← Nat.pow_add, hsum]
    refine ⟨?_, ?_⟩
    · rw [hview, hstep, BitReader.advance_advance, hsum]
    · rw [hvalue, hword, hstep, hshare, hahead, Bits.toNat_append, hlength, Nat.add_mul, hpower,
        Nat.add_assoc]
      rfl

/-! ### Fields -/

theorem read_view (r : ByteReader) (n : Nat) :
    (r.read n).map (fun (v, r) => (v.toNat, r.view)) = r.view.read n := by
  unfold read BitReader.read
  rw [bitsLeft_view]
  split
  · rfl
  · split
    · rfl
    · split
      · rfl
      · obtain ⟨hview, hvalue⟩ := take_spec (r := r) (v := 0) (n := n) (by omega)
          (Nat.two_pow_pos _) (by omega)
        rw [UInt32.toNat_zero, Nat.zero_mul, Nat.zero_add] at hvalue
        exact congrArg Except.ok (Prod.ext hvalue hview)

@[simp] theorem skip_view (r : ByteReader) (n : Nat) : (r.skip n).map view = r.view.skip n := by
  unfold skip BitReader.skip
  rw [bitsLeft_view]
  split
  · rfl
  · exact congrArg Except.ok (view_advance r n)

/-! ### Signs -/

theorem toInt_toInt32 (v : UInt32) : v.toInt32.toInt = signedWord v.toNat := by
  rw [← Int32.toInt_toBitVec]
  exact BitVec.toInt_eq_toNat_bmod v.toInt32.toBitVec

/-- To a word that has no more bits than it should, bits are added by setting them. -/
theorem or_high {v n : Nat} (hv : v < 2 ^ 32) (hn : n ≤ 32) :
    v ||| (2 ^ 32 - 2 ^ n) = v % 2 ^ n + (2 ^ 32 - 2 ^ n) := by
  have hlow := Nat.mod_lt v (Nat.two_pow_pos n)
  have hhigh : 2 ^ 32 - 2 ^ n = 2 ^ n * (2 ^ (32 - n) - 1) := by
    rw [Nat.mul_sub, ← Nat.pow_add, Nat.add_sub_cancel' hn, Nat.mul_one]
  refine Nat.eq_of_testBit_eq fun i => ?_
  rw [hhigh, Nat.add_comm, Nat.testBit_or, Nat.testBit_two_pow_mul_add _ hlow,
    Nat.testBit_two_pow_mul, Nat.testBit_two_pow_sub_one]
  rcases Nat.lt_or_ge i n with hlt | hge
  · rw [if_pos hlt, Nat.testBit_mod_two_pow, decide_eq_true hlt,
      decide_eq_false (Nat.not_le_of_lt hlt), Bool.true_and, Bool.false_and, Bool.or_false]
  · rw [if_neg (Nat.not_lt_of_le hge), decide_eq_true hge, Bool.true_and]
    rcases Nat.lt_or_ge i 32 with hinside | hpast
    · rw [decide_eq_true (by omega : i - n < 32 - n), Bool.or_true]
    · have hclear : v.testBit i = false := Nat.testBit_lt_two_pow
        (Nat.lt_of_lt_of_le hv (Nat.pow_le_pow_right (by decide) hpast))
      rw [hclear, Bool.false_or]

theorem toNat_signMask : ∀ n < 32,
    (~~~((1 <<< Int32.ofNat n) - 1) : Int32).toUInt32.toNat = 2 ^ 32 - 2 ^ n := by
  decide +kernel

theorem signedWord_high {low size : Nat} (hlow : low < size) (hsize : size ≤ 2 ^ 31) :
    signedWord (low + (2 ^ 32 - size)) = low - size := by
  have hsum : ((low + (2 ^ 32 - size) : Nat) : Int) = low - size + (2 ^ 32 : Nat) := by omega
  unfold signedWord
  rw [hsum, Int.add_bmod_right]
  exact Int.bmod_eq_of_le (by omega) (by omega)

/-- A word with all its high bits set is negative. -/
theorem toInt_setSign (v : UInt32) {n : Nat} (hn : n < 32) :
    (v.toInt32 ||| ~~~((1 <<< Int32.ofNat n) - 1)).toInt =
      (v.toNat % 2 ^ n : Nat) - (2 ^ n : Nat) := by
  have hlow := Nat.mod_lt v.toNat (Nat.two_pow_pos n)
  have hle : 2 ^ n ≤ 2 ^ 31 := Nat.pow_le_pow_right (by decide) (by omega)
  have hword : (v ||| (~~~((1 <<< Int32.ofNat n) - 1) : Int32).toUInt32).toNat =
      v.toNat % 2 ^ n + (2 ^ 32 - 2 ^ n) := by
    rw [UInt32.toNat_or, toNat_signMask n hn, or_high v.toNat_lt (Nat.le_of_lt hn)]
  have hsame : (v.toInt32 ||| ~~~((1 <<< Int32.ofNat n) - 1)).toInt =
      signedWord (v ||| (~~~((1 <<< Int32.ofNat n) - 1) : Int32).toUInt32).toNat :=
    toInt_toInt32 _
  rw [hsame, hword, signedWord_high hlow hle]

/-- The mask of 31 bits is the only one that a number is missing for. -/
theorem lowMask_eq (o : Overflow) {n : Nat} (hn : n < 32) :
    lowMask o n = if o = .stops ∧ n = 31 then .error .outOfRange
      else .ok ((1 <<< Int32.ofNat n) - 1) := by
  have hpower : ∀ n < 32, (¬(1 <<< Int32.ofNat n : Int32) ≠ Int32.minValue) ↔ n = 31 := by decide
  simp only [lowMask, Overflow.word, hpower n hn]

/-- The sign of a field of `n` bits in `v` is extended by a mask that no number is left for. -/
def SignOverflows (v n : Nat) : Prop := n = 31 ∧ v.testBit 30 = true

instance (v n : Nat) : Decidable (SignOverflows v n) :=
  inferInstanceAs (Decidable (_ ∧ _))

/-- Signs are extended in words as in numbers, unless the mask overflows and the program stops. -/
theorem toInt_extendSign (o : Overflow) (v : UInt32) (n : Nat) :
    (extendSign o v n).map Int32.toInt =
      if o = .stops ∧ SignOverflows v.toNat n then .error .outOfRange
      else .ok (signExtend v.toNat n) := by
  unfold extendSign signExtend
  split
  · rename_i hzero
    rw [if_neg fun h => absurd (hzero ▸ h.2.1) (by decide)]
    rfl
  · split
    · rename_i hwide
      rw [if_neg fun h => absurd h.2.1 (by omega)]
      exact congrArg Except.ok (toInt_toInt32 v)
    · rename_i hpos hnarrow
      have hlt : n < 32 := by omega
      have hsign : (v >>> UInt32.ofNat (n - 1)) &&& 1 ≠ 0 ↔ v.toNat.testBit (n - 1) = true := by
        have hamount : (UInt32.ofNat (n - 1)).toNat % 32 = n - 1 := by
          rw [UInt32.toNat_ofNat']
          omega
        have hbit : ((v >>> UInt32.ofNat (n - 1)) &&& 1).toNat = v.toNat >>> (n - 1) &&& 1 := by
          rw [UInt32.toNat_and, UInt32.toNat_shiftRight, hamount]
          rfl
        rw [Ne, ← UInt32.toNat_inj, hbit, Nat.testBit, Nat.and_comm, bne_iff_ne]
        rfl
      by_cases hset : v.toNat.testBit (n - 1) = true
      · have hoverflows : SignOverflows v.toNat n ↔ n = 31 :=
          ⟨And.left, fun h => ⟨h, by rwa [h] at hset⟩⟩
        rw [if_pos (hsign.2 hset), if_pos hset, lowMask_eq o hlt]
        simp only [hoverflows]
        split
        · rfl
        · exact congrArg Except.ok (toInt_setSign v hlt)
      · have hfits : ¬SignOverflows v.toNat n := fun ⟨hwidth, htop⟩ => hset (by rwa [hwidth])
        rw [if_neg (mt hsign.1 hset), if_neg hset, if_neg fun h => hfits h.2]
        exact congrArg Except.ok (toInt_toInt32 v)

theorem readSigned_of_read {r r' : ByteReader} {n : Nat} {v : UInt32} (o : Overflow)
    (h : r.read n = .ok (v, r')) :
    (r.readSigned o n).map (fun (x, r) => (x.toInt, r)) =
      if o = .stops ∧ SignOverflows v.toNat n then .error .outOfRange
      else .ok (signExtend v.toNat n, r') := by
  have hpair : (r.readSigned o n).map (fun (x, r) => (x.toInt, r)) =
      ((extendSign o v n).map Int32.toInt).map fun x => (x, r') := by
    simp only [readSigned, h]
    cases extendSign o v n <;> rfl
  rw [hpair, toInt_extendSign]
  split <;> rfl

end ByteReader

end SpectralCoding
