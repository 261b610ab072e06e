import SpectralCoding.Proofs.Bits.Positions
import SpectralCoding.Proofs.Bits.InBytes

/-!
# The place of a reader

A reader is asked over and over, and goes on from where it stands whether it could answer or not.
Here it is moved in place: what was done before a failure stays done, sums are those of 32-bit
words, and a byte that is not there is a failure of its own. None of this makes a difference. The
one failure that comes after the reader has moved is the overflow of the mask for a sign, in a
program that stops at overflows.

* `ByteReader.Request` : what a reader can be asked for.
* `ByteReader.ask`, `ByteReader.kept` : the answer, and the reader to go on with.
* `ByteReader.serve`, `ByteReader.serveAll` : a request, and requests in a row, served in place.
* `ByteReader.Request.Overflows` : the requests that the mask for a sign overflows at.
* `ByteReader.granted` : the requests in a row that there are bits for.
* `ByteReader.take_eq_advance`, `ByteReader.takeInPlace_eq` : bits are taken from bytes that are
  there, and the place moves on by their number.
* `ByteReader.serve_cases` : all that can come of a request.
* `ByteReader.serve_eq` : to serve in place is to ask and to keep the reader if that fails.
* `ByteReader.serveAll_granted` : requests that fail might as well not be made.
* `ByteReader.serveAll_spec` : **after any requests the next one is answered exactly if there are
  enough bits, moves on by its width if it is, and else leaves everything alone.**
-/

namespace SpectralCoding

namespace ByteReader

/-! ### Requests -/

/-- What a reader can be asked for. -/
inductive Request where
  /-- The next `n` bits as a number. -/
  | bits (n : UInt32)
  /-- The next `n` bits as a number in two's complement. -/
  | signed (n : UInt32)
  /-- To pass over `n` bits. -/
  | skip (n : UInt32)
  deriving DecidableEq, Repr

namespace Request

/-- The number of bits that a request is about. -/
def width : Request → Nat
  | bits n | signed n | skip n => n.toNat

/-- A field is no wider than a word. -/
def IsNarrow : Request → Prop
  | bits n | signed n => n.toNat ≤ 32
  | skip _ => True

instance : DecidablePred IsNarrow
  | bits n | signed n => inferInstanceAs (Decidable (n.toNat ≤ 32))
  | skip _ => .isTrue trivial

/-- The answer to a request in front of bit `position` of a string. -/
def answerAt (stream : List Bool) (position : Nat) : Request → Option Int
  | bits n => some (Bits.fieldAt stream position n.toNat)
  | signed n => some (Bits.toInt ((stream.drop position).take n.toNat))
  | skip _ => none

/-- A request in front of bit `position` of a string is for a negative number of 31 bits, and the
program stops at overflows. -/
def Overflows (o : Overflow) (stream : List Bool) (position : Nat) : Request → Prop
  | signed n => o = .stops ∧ SignOverflows (Bits.fieldAt stream position n.toNat) n.toNat
  | _ => False

instance (o : Overflow) (stream : List Bool) (position : Nat) :
    DecidablePred (Overflows o stream position)
  | signed n => inferInstanceAs
      (Decidable (o = .stops ∧ SignOverflows (Bits.fieldAt stream position n.toNat) n.toNat))
  | bits _ | skip _ => .isFalse id

theorem not_overflows_bits {o : Overflow} {stream : List Bool} {position : Nat} {n : UInt32} :
    ¬(bits n).Overflows o stream position := id

theorem not_overflows_skip {o : Overflow} {stream : List Bool} {position : Nat} {n : UInt32} :
    ¬(skip n).Overflows o stream position := id

end Request

/-- The answer to a request, if there is one, and the reader behind it. -/
def ask (o : Overflow) (r : ByteReader) : Request → Except Error (Option Int × ByteReader)
  | .bits n => (r.read n.toNat).map fun (v, r) => (some v.toNat, r)
  | .signed n => (r.readSigned o n.toNat).map fun (v, r) => (some v.toInt, r)
  | .skip n => (r.skip n.toNat).map fun r => (none, r)

/-- The outcome, and the reader to go on with: the one there was if the outcome is a failure. -/
def kept {α : Type} (r : ByteReader) : Except Error (α × ByteReader) → Except Error α × ByteReader
  | .ok (a, r') => (.ok a, r')
  | .error cause => (.error cause, r)

/-! ### In place -/

/-- Take the next `n` bits behind those of `v`, as long as there are bytes. -/
def takeInPlace (r : ByteReader) (v : UInt32) (n : Nat) : Except Error UInt32 × ByteReader :=
  if n = 0 then (.ok v, r)
  else if r.data.size ≤ r.bytePos then (.error .outOfRange, r)
  else
    let width := min n (8 - r.bitPos)
    (r.step width).takeInPlace ((v <<< UInt32.ofNat width) ||| (r.share width).toUInt32) (n - width)
termination_by n
decreasing_by
  have hinside := r.bitPos_lt
  omega

/-- Read `n` bits as a number. -/
def readInPlace (r : ByteReader) (n : UInt32) : Except Error UInt32 × ByteReader :=
  if n = 0 then (.ok 0, r)
  else if 32 < n then (.error (.readWidth n.toNat), r)
  else if r.bitsLeft < n.toNat then (.error .endOfStream, r)
  else r.takeInPlace 0 n.toNat

/-- Pass over `n` bits. The sum is that of words. -/
def skipInPlace (r : ByteReader) (n : UInt32) : Except Error Unit × ByteReader :=
  if r.bitsLeft < n.toNat then (.error .endOfStream, r)
  else
    let total := UInt32.ofNat r.bitPos + n
    (.ok (), { r with
      bytePos := r.bytePos + (total / 8).toNat
      bitPos := (total % 8).toNat
      bitPos_lt := Nat.mod_lt total.toNat (by decide) })

/-- Serve a request in place. The bits of a signed number are read before its sign is extended. -/
def serve (o : Overflow) (r : ByteReader) : Request → Except Error (Option Int) × ByteReader
  | .bits n => ((r.readInPlace n).1.map fun v => some v.toNat, (r.readInPlace n).2)
  | .signed n =>
    ((r.readInPlace n).1.bind fun v => (extendSign o v n.toNat).map fun x => some x.toInt,
      (r.readInPlace n).2)
  | .skip n => ((r.skipInPlace n).1.map fun _ => none, (r.skipInPlace n).2)

/-- Serve requests one after the other, whether they can be answered or not. -/
def serveAll (o : Overflow) (r : ByteReader) :
    List Request → List (Except Error (Option Int)) × ByteReader
  | [] => ([], r)
  | c :: cs =>
    let (answers, last) := (r.serve o c).2.serveAll o cs
    ((r.serve o c).1 :: answers, last)

/-- The reader had the bits for an outcome: it has moved on, even if the sign of the number could
not be extended. -/
def hadBits : Except Error (Option Int) → Bool
  | .ok _ | .error .outOfRange => true
  | .error _ => false

/-- The requests in a row that there are bits for. -/
def granted (o : Overflow) (r : ByteReader) : List Request → List Request
  | [] => []
  | c :: cs =>
    if hadBits (r.serve o c).1 then c :: (r.serve o c).2.granted o cs
    else (r.serve o c).2.granted o cs

variable {o : Overflow} {r r' : ByteReader} {n : Nat} {c : Request}

/-! ### Places -/

theorem eq_of_bitsRead (hdata : r.data = r'.data) (hread : r.bitsRead = r'.bitsRead) : r = r' := by
  obtain ⟨data, bytePos, bitPos, hlt⟩ := r
  obtain ⟨data', bytePos', bitPos', hlt'⟩ := r'
  simp only [bitsRead] at hread
  obtain rfl : data = data' := hdata
  obtain rfl : bytePos = bytePos' := by omega
  obtain rfl : bitPos = bitPos' := by omega
  rfl

@[simp] theorem bitsRead_advance (r : ByteReader) (n : Nat) :
    (r.advance n).bitsRead = r.bitsRead + n := by
  simp only [advance, bitsRead]
  omega

@[simp] theorem advance_zero (r : ByteReader) : r.advance 0 = r :=
  eq_of_bitsRead rfl (bitsRead_advance r 0)

theorem advance_advance (r : ByteReader) (m n : Nat) :
    (r.advance m).advance n = r.advance (m + n) :=
  eq_of_bitsRead rfl (by simp only [bitsRead_advance, Nat.add_assoc])

theorem step_eq_advance {width : Nat} (h : r.bitPos + width ≤ 8) :
    r.step width = r.advance width := by
  unfold step
  split
  · refine eq_of_bitsRead rfl ?_
    rw [bitsRead_advance]
    simp only [bitsRead, Nat.add_assoc]
  · refine eq_of_bitsRead rfl ?_
    rw [bitsRead_advance]
    simp only [bitsRead]
    omega

theorem bitsLeft_advance (r : ByteReader) (n : Nat) : (r.advance n).bitsLeft = r.bitsLeft - n := by
  rw [← bitsLeft_view, view_advance, ← bitsLeft_view]
  exact List.length_drop

/-- What has been read and what is ahead is all there is, as long as a reader is not past it. -/
theorem bitsRead_add_bitsLeft (h : r.bitsRead ≤ 8 * r.data.size) :
    r.bitsRead + r.bitsLeft = 8 * r.data.size := by
  have hinside := r.bitPos_lt
  unfold bitsRead bitsLeft at *
  split <;> omega

/-! ### Bits taken -/

theorem take_eq_advance (r : ByteReader) (v : UInt32) (n : Nat) : (r.take v n).2 = r.advance n := by
  fun_induction take r v n with
  | case1 r v => exact (advance_zero r).symm
  | case2 r v n hpos width ih =>
    have hinside := r.bitPos_lt
    rw [ih, step_eq_advance (by omega), advance_advance, Nat.add_sub_cancel' (Nat.min_le_left ..)]

theorem takeInPlace_eq {v : UInt32} (hleft : n ≤ r.bitsLeft) :
    r.takeInPlace v n = (.ok (r.take v n).1, (r.take v n).2) := by
  fun_induction takeInPlace r v n with
  | case1 r v => rw [take, if_pos rfl]
  | case2 r v n hpos hpast =>
    rw [bitsLeft, if_pos hpast] at hleft
    omega
  | case3 r v n hpos hbyte width ih =>
    have hinside := r.bitPos_lt
    have hrest : n - width ≤ (r.step width).bitsLeft := by
      rw [step_eq_advance (by omega), bitsLeft_advance]
      omega
    have htake : r.take v n = (r.step width).take
        ((v <<< UInt32.ofNat width) ||| (r.share width).toUInt32) (n - width) := by
      rw [take, if_neg hpos]
    rw [ih hrest, htake]

/-! ### Requests in place -/

theorem readInPlace_eq (r : ByteReader) (n : UInt32) :
    r.readInPlace n = r.kept (r.read n.toNat) := by
  have hzero : n = 0 ↔ n.toNat = 0 := UInt32.toNat_inj.symm
  have hwide : 32 < n ↔ 32 < n.toNat := UInt32.lt_iff_toNat_lt
  unfold readInPlace read
  simp only [hzero, hwide]
  split
  · rfl
  · split
    · rfl
    · split
      · rfl
      · exact takeInPlace_eq (by omega)

/-- The sum of words does not overflow as long as the bits of all bytes can be counted in one. -/
theorem skipInPlace_eq (hsize : r.data.size < 2 ^ 29) (n : UInt32) :
    r.skipInPlace n = r.kept ((r.skip n.toNat).map fun r => ((), r)) := by
  unfold skipInPlace skip
  split
  · rfl
  · rename_i hleft
    have hinside := r.bitPos_lt
    have hfits : r.bitPos + n.toNat < 2 ^ 32 := by
      unfold bitsLeft at hleft
      split at hleft <;> omega
    have htotal : (UInt32.ofNat r.bitPos + n).toNat = r.bitPos + n.toNat := by
      rw [UInt32.toNat_add, UInt32.toNat_ofNat']
      omega
    refine Prod.ext rfl (eq_of_bitsRead rfl ?_)
    simp only [kept, Except.map, bitsRead, advance, UInt32.toNat_div, UInt32.toNat_mod, htotal]
    rfl

/-! ### Outcomes -/

/-- The sign of a field is its first bit, if it has one. -/
theorem signExtend_field {field : List Bool} (h : field.length ≤ 32) :
    signExtend (Bits.toNat field) field.length = Bits.toInt field := by
  cases field with
  | nil => rfl
  | cons b field => exact signExtend_toNat (b :: field) (Nat.succ_pos _) h

theorem read_of_le (hn : n ≤ 32) (hleft : n ≤ r.bitsLeft) :
    ∃ v, r.read n = .ok (v, r.advance n) ∧ v.toNat = Bits.toNat (r.view.unread.take n) := by
  rcases Nat.eq_zero_or_pos n with rfl | hpos
  · refine ⟨0, ?_, rfl⟩
    rw [read, if_pos rfl, advance_zero]
  · obtain ⟨-, hvalue⟩ := take_spec (v := 0) hn (Nat.two_pow_pos _) hleft
    rw [UInt32.toNat_zero, Nat.zero_mul, Nat.zero_add] at hvalue
    refine ⟨(r.take 0 n).1, ?_, hvalue⟩
    rw [read, if_neg (by omega), if_neg (by omega), if_neg (by omega), ← take_eq_advance]

/-! ### Requests served -/

/-- A field that is no wider than a word and that there are bits for is read; any other leaves the
reader alone. -/
theorem readInPlace_cases (r : ByteReader) (n : UInt32) :
    (n.toNat ≤ 32 ∧ n.toNat ≤ r.bitsLeft ∧ ∃ v,
      r.readInPlace n = (.ok v, r.advance n.toNat) ∧ r.read n.toNat = .ok (v, r.advance n.toNat) ∧
      v.toNat = Bits.fieldAt (Bits.unpack r.data.toList) r.bitsRead n.toNat) ∨
    (¬(n.toNat ≤ 32 ∧ n.toNat ≤ r.bitsLeft) ∧
      r.readInPlace n =
        (.error (if n.toNat ≤ 32 then .endOfStream else .readWidth n.toNat), r) ∧
      r.read n.toNat = .error (if n.toNat ≤ 32 then .endOfStream else .readWidth n.toNat)) := by
  rcases Nat.lt_or_ge 32 n.toNat with hwide | hnarrow
  · have hread : r.read n.toNat = .error (.readWidth n.toNat) := by
      rw [read, if_neg (by omega), if_pos hwide]
    refine .inr ⟨fun h => Nat.not_le.2 hwide h.1, ?_⟩
    rw [readInPlace_eq, hread, if_neg (Nat.not_le.2 hwide)]
    exact ⟨rfl, rfl⟩
  · rcases Nat.lt_or_ge r.bitsLeft n.toNat with hfew | henough
    · have hread : r.read n.toNat = .error .endOfStream := by
        rw [read, if_neg (by omega), if_neg (by omega), if_pos hfew]
      refine .inr ⟨fun h => Nat.not_le.2 hfew h.2, ?_⟩
      rw [readInPlace_eq, hread, if_pos hnarrow]
      exact ⟨rfl, rfl⟩
    · obtain ⟨v, hread, hv⟩ := read_of_le hnarrow henough
      refine .inl ⟨hnarrow, henough, v, ?_, hread, hv⟩
      rw [readInPlace_eq, hread]
      rfl

/-- The sign of a number at hand is extended unless the mask overflows and the program stops. -/
theorem extendSign_field {v : UInt32} {field : List Bool} (hlength : field.length ≤ 32)
    (hv : v.toNat = Bits.toNat field) (o : Overflow) :
    ((extendSign o v field.length).map fun x => some x.toInt) =
      if o = .stops ∧ SignOverflows (Bits.toNat field) field.length then .error .outOfRange
      else .ok (some (Bits.toInt field)) := by
  have hcompose : ((extendSign o v field.length).map fun x => some x.toInt) =
      ((extendSign o v field.length).map Int32.toInt).map some := by
    cases extendSign o v field.length <;> rfl
  rw [hcompose, toInt_extendSign, hv, signExtend_field hlength]
  split <;> rfl

section Served

variable (hsize : r.data.size < 2 ^ 29)
include hsize

/-- All that can come of a request: an answer and a place further on, the same place with the
overflow of a mask, or a failure and the place there was. -/
theorem serve_cases (o : Overflow) (c : Request) :
    (c.IsNarrow ∧ c.width ≤ r.bitsLeft ∧ r.serve o c =
      (if c.Overflows o (Bits.unpack r.data.toList) r.bitsRead then .error .outOfRange
        else .ok (c.answerAt (Bits.unpack r.data.toList) r.bitsRead), r.advance c.width)) ∨
    (¬(c.IsNarrow ∧ c.width ≤ r.bitsLeft) ∧ r.serve o c =
      (.error (if c.IsNarrow then .endOfStream else .readWidth c.width), r)) := by
  cases c with
  | bits n =>
    obtain ⟨hnarrow, henough, v, hread, -, hv⟩ | ⟨hno, hread, -⟩ := readInPlace_cases r n
    · refine .inl ⟨hnarrow, henough, ?_⟩
      rw [serve, hread, if_neg Request.not_overflows_bits]
      exact congrArg (fun v : Nat => (Except.ok (some (v : Int)), r.advance n.toNat)) hv
    · refine .inr ⟨hno, ?_⟩
      rw [serve, hread]
      rfl
  | signed n =>
    obtain ⟨hnarrow, henough, v, hread, -, hv⟩ | ⟨hno, hread, -⟩ := readInPlace_cases r n
    · refine .inl ⟨hnarrow, henough, ?_⟩
      have hlength : (r.view.unread.take n.toNat).length = n.toNat :=
        List.length_take_of_le (le_of_le_of_eq henough (bitsLeft_view r).symm)
      have hextend := extendSign_field (le_of_eq_of_le hlength hnarrow) hv o
      rw [hlength] at hextend
      rw [serve, hread]
      exact Prod.ext hextend rfl
    · refine .inr ⟨hno, ?_⟩
      rw [serve, hread]
      rfl
  | skip n =>
    rcases Nat.lt_or_ge r.bitsLeft n.toNat with hfew | henough
    · refine .inr ⟨fun h => Nat.not_le.2 hfew h.2, ?_⟩
      rw [serve, skipInPlace_eq hsize, skip, if_pos hfew]
      rfl
    · refine .inl ⟨trivial, henough, ?_⟩
      rw [serve, skipInPlace_eq hsize, skip, if_neg (Nat.not_lt.2 henough),
        if_neg Request.not_overflows_skip]
      rfl

/-- To serve a request in place is to ask, and to keep the reader if that fails, unless it fails
after the reader has moved. -/
theorem serve_eq (h : ¬c.Overflows o (Bits.unpack r.data.toList) r.bitsRead) :
    r.serve o c = r.kept (r.ask o c) := by
  cases c with
  | bits n =>
    rw [serve, readInPlace_eq, ask]
    cases r.read n.toNat <;> rfl
  | signed n =>
    obtain ⟨-, -, v, hinPlace, hread, hv⟩ | ⟨-, hinPlace, hread⟩ := readInPlace_cases r n
    · simp only [serve, hinPlace, ask, readSigned, hread, Except.bind]
      cases hextend : extendSign o v n.toNat with
      | ok x => rfl
      | error cause =>
        have hnever : ¬(o = .stops ∧ SignOverflows v.toNat n.toNat) := hv ▸ h
        have hall := toInt_extendSign o v n.toNat
        rw [hextend, if_neg hnever] at hall
        cases hall
    · simp only [serve, hinPlace, ask, readSigned, hread]
      rfl
  | skip n =>
    rw [serve, skipInPlace_eq hsize, ask]
    cases r.skip n.toNat <;> rfl

/-- A request is answered exactly if there are enough bits for it, unless the mask for a sign
overflows. -/
theorem serve_eq_ok_iff :
    (∃ answer, (r.serve o c).1 = .ok answer) ↔ c.IsNarrow ∧ c.width ≤ r.bitsLeft ∧
      ¬c.Overflows o (Bits.unpack r.data.toList) r.bitsRead := by
  obtain ⟨hnarrow, hleft, hserve⟩ | ⟨hno, hserve⟩ := serve_cases hsize o c
  · rw [hserve]
    by_cases hover : c.Overflows o (Bits.unpack r.data.toList) r.bitsRead
    · rw [if_pos hover]
      exact ⟨nofun, fun h => absurd hover h.2.2⟩
    · rw [if_neg hover]
      exact ⟨fun _ => ⟨hnarrow, hleft, hover⟩, fun _ => ⟨_, rfl⟩⟩
  · rw [hserve]
    exact ⟨nofun, fun h => absurd ⟨h.1, h.2.1⟩ hno⟩

theorem of_serve_eq_ok {answer : Option Int} (h : (r.serve o c).1 = .ok answer) :
    (r.serve o c).2 = r.advance c.width ∧
      answer = c.answerAt (Bits.unpack r.data.toList) r.bitsRead := by
  obtain ⟨-, -, hserve⟩ | ⟨-, hserve⟩ := serve_cases hsize o c
  · rw [hserve] at h ⊢
    split at h
    · cases h
    · exact ⟨rfl, (Except.ok.inj h).symm⟩
  · rw [hserve] at h
    cases h

theorem of_serve_eq_error {cause : Error} (h : (r.serve o c).1 = .error cause) :
    (¬(c.IsNarrow ∧ c.width ≤ r.bitsLeft) ∧ (r.serve o c).2 = r ∧
      cause = if c.IsNarrow then .endOfStream else .readWidth c.width) ∨
    (c.Overflows o (Bits.unpack r.data.toList) r.bitsRead ∧ c.width ≤ r.bitsLeft ∧
      (r.serve o c).2 = r.advance c.width ∧ cause = .outOfRange) := by
  obtain ⟨-, hleft, hserve⟩ | ⟨hno, hserve⟩ := serve_cases hsize o c
  · rw [hserve] at h ⊢
    split at h
    · rename_i hover
      exact .inr ⟨hover, hleft, rfl, (Except.error.inj h).symm⟩
    · cases h
  · rw [hserve] at h ⊢
    exact .inl ⟨hno, rfl, (Except.error.inj h).symm⟩

/-- A number of bits that can be read can be passed over, and the other way round. -/
theorem serve_skip {n : UInt32} (hn : n.toNat ≤ 32) :
    (r.serve o (.skip n)).1.isOk = (r.serve o (.bits n)).1.isOk ∧
      (r.serve o (.skip n)).2 = (r.serve o (.bits n)).2 := by
  obtain ⟨-, hleft, hskip⟩ | ⟨hno, hskip⟩ := serve_cases hsize o (.skip n)
  · obtain ⟨-, -, hbits⟩ | ⟨hno, -⟩ := serve_cases hsize o (.bits n)
    · rw [hskip, hbits, if_neg Request.not_overflows_skip, if_neg Request.not_overflows_bits]
      exact ⟨rfl, rfl⟩
    · exact absurd ⟨hn, hleft⟩ hno
  · obtain ⟨-, hleft, -⟩ | ⟨-, hbits⟩ := serve_cases hsize o (.bits n)
    · exact absurd ⟨trivial, hleft⟩ hno
    · rw [hskip, hbits]
      exact ⟨rfl, rfl⟩

theorem serve_of_not_hadBits (h : hadBits (r.serve o c).1 = false) : (r.serve o c).2 = r := by
  obtain ⟨-, -, hserve⟩ | ⟨-, hserve⟩ := serve_cases hsize o c
  · rw [hserve] at h
    split at h <;> cases h
  · rw [hserve]

end Served

/-! ### Requests in a row -/

/-- A reader of `bytes` that is not past the end of them. -/
structure IsWithin (bytes : List UInt8) (r : ByteReader) : Prop where
  toList_data : r.data.toList = bytes
  bitsRead_le : r.bitsRead ≤ 8 * bytes.length

section Row

variable {bytes : List UInt8}

theorem isWithin_ofBytes (bytes : List UInt8) : (ofBytes bytes).IsWithin bytes :=
  ⟨rfl, Nat.zero_le _⟩

theorem IsWithin.size_data (h : r.IsWithin bytes) : r.data.size = bytes.length := by
  rw [← h.toList_data, Array.length_toList]

theorem IsWithin.bitsRead_add_bitsLeft (h : r.IsWithin bytes) :
    r.bitsRead + r.bitsLeft = 8 * bytes.length := by
  rw [← h.size_data]
  exact r.bitsRead_add_bitsLeft (h.size_data ▸ h.bitsRead_le)

theorem IsWithin.serve (h : r.IsWithin bytes) (hsize : bytes.length < 2 ^ 29) (o : Overflow)
    (c : Request) : (r.serve o c).2.IsWithin bytes := by
  rw [← h.size_data] at hsize
  obtain ⟨-, hleft, hserve⟩ | ⟨-, hserve⟩ := serve_cases hsize o c
  · have hall := h.bitsRead_add_bitsLeft
    rw [hserve]
    refine ⟨h.toList_data, ?_⟩
    rw [bitsRead_advance]
    omega
  · rwa [hserve]

theorem IsWithin.serveAll (h : r.IsWithin bytes) (hsize : bytes.length < 2 ^ 29) (o : Overflow)
    (requests : List Request) : (r.serveAll o requests).2.IsWithin bytes := by
  induction requests generalizing r with
  | nil => exact h
  | cons c cs ih => exact ih (h.serve hsize o c)

/-- Requests that there are no bits for might as well not be made. -/
theorem serveAll_granted (h : r.IsWithin bytes) (hsize : bytes.length < 2 ^ 29) (o : Overflow)
    (requests : List Request) :
    r.serveAll o (r.granted o requests) =
      ((r.serveAll o requests).1.filter hadBits, (r.serveAll o requests).2) := by
  induction requests generalizing r with
  | nil => rfl
  | cons c cs ih =>
    have hrest := ih (h.serve hsize o c)
    cases hserved : hadBits (r.serve o c).1 with
    | false =>
      have hsame := serve_of_not_hadBits (h.size_data ▸ hsize) hserved
      have hgranted : r.granted o (c :: cs) = r.granted o cs := by
        rw [granted, hserved, hsame]
        rfl
      rw [hsame] at hrest
      rw [hgranted, hrest, ByteReader.serveAll, hsame]
      simp only [List.filter_cons, hserved, Bool.false_eq_true, if_false]
    | true =>
      have hgranted : r.granted o (c :: cs) = c :: (r.serve o c).2.granted o cs := by
        rw [granted, hserved]
        rfl
      rw [hgranted, ByteReader.serveAll, hrest, ByteReader.serveAll]
      simp only [List.filter_cons, hserved, if_true]

/-- **After any requests, what has been read and what is ahead are all there is. The next request is
answered exactly if its width is allowed and there are enough bits for it; the answer is made of the
bits at the place of the reader, first bit first, and the place moves on by their number. A request
that fails leaves the reader alone, and might as well not have been made.** The exception is a
negative number of 31 bits in a program that stops at overflows: the reader has moved on when it
fails. -/
theorem serveAll_spec (hsize : bytes.length < 2 ^ 29) (o : Overflow) (requests : List Request) :
    let r := ((ofBytes bytes).serveAll o requests).2
    r.data.toList = bytes ∧ r.bitsRead + r.bitsLeft = 8 * bytes.length ∧
    (∀ c, ¬c.Overflows o (Bits.unpack bytes) r.bitsRead → r.serve o c = r.kept (r.ask o c)) ∧
    (∀ c, (∃ answer, (r.serve o c).1 = .ok answer) ↔
      c.IsNarrow ∧ c.width ≤ r.bitsLeft ∧ ¬c.Overflows o (Bits.unpack bytes) r.bitsRead) ∧
    (∀ c answer, (r.serve o c).1 = .ok answer →
      (r.serve o c).2.bitsRead = r.bitsRead + c.width ∧
      answer = c.answerAt (Bits.unpack bytes) r.bitsRead) ∧
    (∀ c cause, (r.serve o c).1 = .error cause →
      (¬(c.IsNarrow ∧ c.width ≤ r.bitsLeft) ∧ (r.serve o c).2 = r ∧
        cause = if c.IsNarrow then .endOfStream else .readWidth c.width) ∨
      (c.Overflows o (Bits.unpack bytes) r.bitsRead ∧ c.width ≤ r.bitsLeft ∧
        (r.serve o c).2.bitsRead = r.bitsRead + c.width ∧ cause = .outOfRange)) ∧
    (∀ n : UInt32, n.toNat ≤ 32 → (r.serve o (.skip n)).1.isOk = (r.serve o (.bits n)).1.isOk ∧
      (r.serve o (.skip n)).2 = (r.serve o (.bits n)).2) ∧
    (ofBytes bytes).serveAll o ((ofBytes bytes).granted o requests) =
      (((ofBytes bytes).serveAll o requests).1.filter hadBits, r) := by
  intro r
  have hwithin : r.IsWithin bytes := (isWithin_ofBytes bytes).serveAll hsize o requests
  have hdata : r.data.size < 2 ^ 29 := hwithin.size_data ▸ hsize
  rw [← hwithin.toList_data]
  refine ⟨rfl, ?_, fun c => serve_eq hdata, fun c => serve_eq_ok_iff hdata, fun c answer h => ?_,
    fun c cause h => ?_, fun n hn => serve_skip hdata hn, ?_⟩
  · rw [hwithin.toList_data]
    exact hwithin.bitsRead_add_bitsLeft
  · obtain ⟨hmoved, hanswer⟩ := of_serve_eq_ok hdata h
    rw [hmoved, bitsRead_advance]
    exact ⟨rfl, hanswer⟩
  · refine (of_serve_eq_error hdata h).imp_right fun ⟨hover, hleft, hmoved, hcause⟩ => ?_
    rw [hmoved, bitsRead_advance]
    exact ⟨hover, hleft, rfl, hcause⟩
  · rw [hwithin.toList_data]
    exact serveAll_granted (isWithin_ofBytes bytes) hsize o requests

theorem serveAll_spec_across_bytes :
    let r := ((ofBytes [0xB0, 0x10]).serveAll .stops [.bits 3, .skip 14, .bits 33]).2
    [(0xB0 : UInt8), 0x10].length < 2 ^ 29 ∧ r.bitsRead = 3 ∧ r.bitsLeft = 13 ∧
    (r.serve .stops (.signed 9)).1 = .ok (some (-255)) ∧
    (r.serve .stops (.signed 9)).2.bitsRead = 12 ∧
    (∀ answer, (r.serve .stops (.bits 14)).1 ≠ .ok answer) := by
  intro r
  have hsize : [(0xB0 : UInt8), 0x10].length < 2 ^ 29 := by decide
  obtain ⟨-, hall, -, hok, hmoved, -⟩ :=
    serveAll_spec hsize .stops [.bits 3, .skip 14, .bits 33]
  have hread : r.bitsRead = 3 := by decide +kernel
  have hleft : r.bitsLeft = 13 := Nat.add_left_cancel (hread ▸ hall)
  obtain ⟨answer, hserved⟩ := (hok (.signed 9)).2 ⟨by decide, hleft ▸ by decide, by decide⟩
  obtain ⟨hplace, hanswer⟩ := hmoved _ answer hserved
  refine ⟨hsize, hread, hleft, ?_, ?_, fun answer hserved => ?_⟩
  · rw [hserved, hanswer, hread]
    decide
  · rw [hplace, hread]
    rfl
  · have hfits := ((hok (.bits 14)).1 ⟨answer, hserved⟩).2.1
    rw [hleft] at hfits
    exact absurd hfits (by decide)

end Row

end ByteReader

end SpectralCoding
