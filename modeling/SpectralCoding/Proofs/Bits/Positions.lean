import SpectralCoding.Proofs.Bits.Reading
import SpectralCoding.Proofs.Results

/-!
# Reading whatever is there

A reader goes through bits that nobody need have written. What it finds, and whether it finds
anything, is said here without a writer.

* `Bits.fieldAt` : the number in a field of a bit string.
* `BitReader.seek` : a reader in front of a bit of a string.
* `read_seek`, `skip_seek`, `readMany_seek` : what is read there.
* `lt_of_read`, `lt_of_readMany` : what is read fits its field.
* `Takes` : a reading of a fixed number of bits, which finds the end of the stream if there are
  fewer: `takes_readManySigned`, `Takes.bind`.
-/

namespace SpectralCoding

namespace Bits

/-- The number in the field of `width` bits from bit `position` on. -/
def fieldAt (bits : List Bool) (position width : Nat) : Nat :=
  toNat ((bits.drop position).take width)

theorem fieldAt_lt (bits : List Bool) (position width : Nat) :
    fieldAt bits position width < 2 ^ width :=
  Nat.lt_of_lt_of_le (toNat_lt _)
    (Nat.pow_le_pow_right (by decide) (List.length_take_le width (bits.drop position)))

theorem take_drop_congr {bits other : List Bool} {position width : Nat}
    (h : ∀ i, position ≤ i → i < position + width → bits[i]? = other[i]?) :
    (bits.drop position).take width = (other.drop position).take width := by
  refine List.ext_getElem? fun i => ?_
  by_cases hi : i < width
  · rw [List.getElem?_take_of_lt hi, List.getElem?_take_of_lt hi, List.getElem?_drop,
      List.getElem?_drop]
    exact h _ (Nat.le_add_right ..) (Nat.add_lt_add_left hi _)
  · rw [List.getElem?_take_eq_none (by omega), List.getElem?_take_eq_none (by omega)]

theorem fieldAt_congr {bits other : List Bool} {position width : Nat}
    (h : ∀ i, position ≤ i → i < position + width → bits[i]? = other[i]?) :
    fieldAt bits position width = fieldAt other position width :=
  congrArg toNat (take_drop_congr h)

end Bits

namespace BitReader

variable {bits : List Bool} {position width : Nat} {r r' : BitReader}

/-- A reader of a bit string in front of bit `position`. -/
def seek (bits : List Bool) (position : Nat) : BitReader := ⟨position, bits.drop position⟩

theorem advance_seek (bits : List Bool) (position n : Nat) :
    (seek bits position).advance n = seek bits (position + n) := by
  rw [seek, advance, List.drop_drop, seek]

theorem bitsLeft_seek (bits : List Bool) (position : Nat) :
    (seek bits position).bitsLeft = bits.length - position := by
  rw [seek, bitsLeft, List.length_drop]

theorem read_seek (hpos : 0 < width) (hle : width ≤ 32) (h : position + width ≤ bits.length) :
    (seek bits position).read width =
      .ok (Bits.fieldAt bits position width, seek bits (position + width)) := by
  have hleft := bitsLeft_seek bits position
  rw [read, if_neg (by omega), if_neg (by omega), if_neg (by omega), advance_seek]
  rfl

theorem skip_seek {n : Nat} (h : position + n ≤ bits.length) :
    (seek bits position).skip n = .ok (seek bits (position + n)) := by
  have hleft := bitsLeft_seek bits position
  rw [skip, if_neg (by omega), advance_seek]

theorem readMany_seek {count : Nat} (hpos : 0 < width) (hle : width ≤ 32)
    (h : position + width * count ≤ bits.length) :
    (seek bits position).readMany width count =
      .ok ((List.range count).map fun i => Bits.fieldAt bits (position + width * i) width,
        seek bits (position + width * count)) := by
  induction count generalizing position with
  | zero => rfl
  | succ count ih =>
    have hstep : ∀ i, position + width * (i + 1) = position + width + width * i := fun i => by
      rw [Nat.mul_succ]
      omega
    rw [hstep] at h
    rw [readMany, read_seek hpos hle (by omega)]
    simp only [ih h, List.range_succ_eq_map, List.map_cons, List.map_map, Nat.mul_zero,
      Nat.add_zero, hstep, Function.comp_def]

/-! ### What is read fits its field -/

theorem lt_of_read {v : Nat} (h : r.read width = .ok (v, r')) : v < 2 ^ width := by
  unfold read at h
  split at h
  · cases h
    exact Nat.two_pow_pos width
  · split at h
    · cases h
    · split at h
      · cases h
      · cases h
        exact Bits.fieldAt_lt r.unread 0 width

theorem lt_of_readMany {count : Nat} {vs : List Nat} (h : r.readMany width count = .ok (vs, r')) :
    vs.length = count ∧ ∀ v ∈ vs, v < 2 ^ width := by
  induction count generalizing r r' vs with
  | zero =>
    cases h
    exact ⟨rfl, fun v hv => absurd hv List.not_mem_nil⟩
  | succ count ih =>
    unfold readMany at h
    split at h
    · cases h
    · rename_i v r₁ hread
      split at h
      · cases h
      · rename_i vs' r₂ hmany
        cases h
        obtain ⟨hlength, hvs⟩ := ih hmany
        exact ⟨congrArg (· + 1) hlength, List.forall_mem_cons.2 ⟨lt_of_read hread, hvs⟩⟩

theorem readManySigned_succ (r : BitReader) (width count : Nat) :
    r.readManySigned width (count + 1) =
      r.readSigned width >>= fun (v, r) =>
        r.readManySigned width count >>= fun (vs, r) => .ok (v :: vs, r) := by
  rw [readManySigned]
  rcases r.readSigned width with e | ⟨v, r₁⟩
  · rfl
  · simp only [bind, Except.bind]
    rcases r₁.readManySigned width count with e | ⟨vs, r₂⟩ <;> rfl

theorem length_of_readManySigned {count : Nat} {vs : List Int}
    (h : r.readManySigned width count = .ok (vs, r')) : vs.length = count := by
  induction count generalizing r r' vs with
  | zero =>
    cases h
    rfl
  | succ count ih =>
    rw [readManySigned_succ] at h
    obtain ⟨⟨v, r₁⟩, -, h⟩ := of_bind_eq_ok h
    obtain ⟨⟨vs', r₂⟩, hmany, h⟩ := of_bind_eq_ok h
    cases h
    exact congrArg (· + 1) (ih hmany)

end BitReader

/-! ### Readings of a fixed number of bits -/

/-- A reading of `count` bits. If there are as many ahead, it takes them, and what it finds in them
does not depend on what follows; if there are fewer, it finds the end of the stream. -/
structure Takes {α : Type} (read : BitReader → Except Error (α × BitReader)) (count : Nat) :
    Prop where
  enough : ∀ bits : List Bool, bits.length = count →
    ∃ a, ∀ n rest, read ⟨n, bits ++ rest⟩ = .ok (a, ⟨n + count, rest⟩)
  short : ∀ r : BitReader, r.bitsLeft < count → read r = .error .endOfStream

section Takes

variable {α β : Type} {read : BitReader → Except Error (α × BitReader)} {count : Nat}

theorem takes_ok (a : α) : Takes (fun r => .ok (a, r)) 0 :=
  ⟨fun bits hbits => ⟨a, fun n rest => by rw [List.eq_nil_of_length_eq_zero hbits]; rfl⟩,
    fun _ h => absurd h (Nat.not_lt_zero _)⟩

/-- What is read first decides what is read next, but not how many bits of it. -/
theorem Takes.bind {next : α → BitReader → Except Error (β × BitReader)} {more : Nat}
    (hread : Takes read count) (hnext : ∀ a, Takes (next a) more) :
    Takes (fun r => read r >>= fun (a, r) => next a r) (count + more) where
  enough bits hbits := by
    obtain ⟨a, ha⟩ := hread.enough (bits.take count) (by rw [List.length_take]; omega)
    obtain ⟨b, hb⟩ := (hnext a).enough (bits.drop count) (by rw [List.length_drop]; omega)
    refine ⟨b, fun n rest => ?_⟩
    have hfirst := ha n (bits.drop count ++ rest)
    rw [← List.append_assoc, List.take_append_drop] at hfirst
    have hsecond := hb (n + count) rest
    rw [Nat.add_assoc] at hsecond
    rw [hfirst]
    exact hsecond
  short r hr := by
    by_cases hfew : r.bitsLeft < count
    · rw [hread.short r hfew]
      rfl
    · have hleft : r.unread.length = r.bitsLeft := rfl
      obtain ⟨a, ha⟩ := hread.enough (r.unread.take count) (by rw [List.length_take]; omega)
      have hfirst := ha r.bitsRead (r.unread.drop count)
      rw [List.take_append_drop] at hfirst
      have hrest : (⟨r.bitsRead + count, r.unread.drop count⟩ : BitReader).bitsLeft < more := by
        rw [BitReader.bitsLeft, List.length_drop]
        omega
      rw [hfirst]
      exact (hnext a).short _ hrest

theorem Takes.run_seek (h : Takes read count) (bits : List Bool) (position : Nat) :
    (position + count ≤ bits.length →
      ∃ a, read (.seek bits position) = .ok (a, .seek bits (position + count))) ∧
    (bits.length < position + count → position ≤ bits.length →
      read (.seek bits position) = .error .endOfStream) := by
  have hleft := BitReader.bitsLeft_seek bits position
  refine ⟨fun hle => ?_, fun hlt hposition => h.short _ (by omega)⟩
  obtain ⟨a, ha⟩ := h.enough ((bits.drop position).take count) (by
    rw [List.length_take, List.length_drop]
    omega)
  have hrun := ha position ((bits.drop position).drop count)
  rw [List.take_append_drop, List.drop_drop] at hrun
  exact ⟨a, hrun⟩

theorem Takes.congr_seek (h : Takes read count) {bits other : List Bool} {position : Nat}
    (hposition : position ≤ bits.length) (hlength : other.length = bits.length)
    (hsame : ∀ i, position ≤ i → i < position + count → bits[i]? = other[i]?) :
    (read (.seek bits position)).map Prod.fst = (read (.seek other position)).map Prod.fst := by
  rcases Nat.lt_or_ge bits.length (position + count) with hlt | hge
  · rw [(h.run_seek bits position).2 hlt hposition,
      (h.run_seek other position).2 (by omega) (by omega)]
  · obtain ⟨a, ha⟩ := h.enough ((bits.drop position).take count) (by
      rw [List.length_take, List.length_drop]
      omega)
    have hrun := ha position ((bits.drop position).drop count)
    have hrun' := ha position ((other.drop position).drop count)
    rw [List.take_append_drop] at hrun
    rw [Bits.take_drop_congr hsame, List.take_append_drop] at hrun'
    rw [BitReader.seek, BitReader.seek, hrun, hrun']
    rfl

end Takes

theorem takes_readSigned {width : Nat} (hpos : 0 < width) (hle : width ≤ 32) :
    Takes (·.readSigned width) width where
  enough bits hbits := by
    subst hbits
    refine ⟨signExtend (Bits.toNat bits) bits.length, fun n rest => ?_⟩
    rw [BitReader.readSigned, BitReader.read_bits bits rest hpos hle]
  short r hr := by
    rw [BitReader.readSigned, BitReader.read, if_neg (by omega), if_neg (by omega), if_pos hr]

theorem takes_readManySigned {width : Nat} (hpos : 0 < width) (hle : width ≤ 32) (count : Nat) :
    Takes (·.readManySigned width count) (width * count) := by
  induction count with
  | zero => exact takes_ok []
  | succ count ih =>
    have hsum : width * (count + 1) = width + (width * count + 0) := by
      rw [Nat.mul_succ]
      omega
    simp only [BitReader.readManySigned_succ, hsum]
    exact (takes_readSigned hpos hle).bind fun v => ih.bind fun vs => takes_ok (v :: vs)

end SpectralCoding
