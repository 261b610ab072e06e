import SpectralCoding.Proofs.Atrac1.RoundTrip
import SpectralCoding.Proofs.Bits.Positions

/-!
# What the ATRAC1 reader accepts

A sound unit may come from anywhere. The reader refuses one that is too short or has a window field
without a meaning; any other it reads to the end of the last mantissa, and whether the unit reaches
that far follows from the number of blocks and their word lengths alone.

* `Atrac1.UnitString.mantissaEnd` : where the last mantissa ends.
* `Atrac1.dequantise?` : the reader with every index tested before it is used.
* `Atrac1.takes_readBlocks` : mantissas take as many bits as their word lengths say, whatever they
  are.
* `Atrac1.dequantise_eq` : the fields before the mantissas, and the mantissas read behind them.
* `Atrac1.dequantise_accepts` : **the reader accepts well-formed units and nothing else, and leaves
  no table and no spectrum.**
-/

namespace SpectralCoding

namespace Atrac1

/-! ### What a unit says -/

/-- The bits of the unit that a byte string begins with. -/
def unitString (bytes : List UInt8) : List Bool := Bits.unpack (bytes.take unitBytes)

theorem length_unitString {bytes : List UInt8} (h : unitBytes ≤ bytes.length) :
    (unitString bytes).length = 1696 := by
  rw [unitString, Bits.length_unpack, List.length_take_of_le h]
  rfl

namespace UnitString

variable (bits : List Bool)

/-- The index of the number of blocks. -/
def index : Nat := Bits.fieldAt bits 8 3

/-- The number of blocks. -/
def blockCount : Nat := blockCounts.getD (index bits) 0

/-- The word length of a block; blocks that are not transmitted have none. -/
def length (block : Nat) : Nat :=
  if block < blockCount bits then lengthOfField (Bits.fieldAt bits (16 + 4 * block) 4) else 0

/-- The scale factor index of a block, zero for blocks that are not transmitted. -/
def scale (block : Nat) : Nat :=
  if block < blockCount bits then
    Bits.fieldAt bits (16 + 4 * blockCount bits + 6 * block) 6
  else 0

/-- The logarithms of the numbers of windows, if the window fields have a meaning. -/
def windowCounts : List Nat :=
  [2 - Bits.fieldAt bits 0 2, 2 - Bits.fieldAt bits 2 2, 3 - Bits.fieldAt bits 4 2]

/-- The windows, if their fields have a meaning. -/
def windows : WindowMode := .ofList (windowCounts bits)

/-- The bit behind the last mantissa. -/
def mantissaEnd : Nat :=
  16 + 10 * blockCount bits +
    ((List.range (blockCount bits)).map fun block =>
      length bits block * Layout.atrac1.lines.getD block 0).sum

/-- What the reader of mantissas is told of all blocks. -/
def entries : List (Nat × Nat × Nat) :=
  (List.range Layout.atrac1.blocks).map fun block => (block, length bits block, scale bits block)

end UnitString

open UnitString

/-- No unit: bytes are missing, or the low or the mid band has a window field without a meaning. -/
def IsMalformed (bytes : List UInt8) : Prop :=
  bytes.length < 212 ∨ Bits.fieldAt (unitString bytes) 0 2 = 3 ∨
    Bits.fieldAt (unitString bytes) 2 2 = 3

/-- Reserved bits. -/
def IsReserved (position : Nat) : Prop :=
  position = 6 ∨ position = 7 ∨ 11 ≤ position ∧ position < 16

/-- Two byte strings begin with units that agree in all bits up to the last mantissa, but for
reserved ones. -/
def SaysTheSame (bytes other : List UInt8) : Prop :=
  212 ≤ bytes.length ∧ 212 ≤ other.length ∧
    ∀ position < mantissaEnd (unitString bytes), ¬IsReserved position →
      (unitString bytes)[position]? = (unitString other)[position]?

/-! ### The reader with every index tested -/

/-- The tables have an entry for a block and its scale factor, and the spectrum has its lines. -/
def IsInRange (windows : WindowMode) (spectrum : List Float32) (block scale : Nat) : Prop :=
  block < Layout.atrac1.lines.length ∧ block < Layout.atrac1.longStarts.length ∧
    block < Layout.atrac1.shortStarts.length ∧ scale < Layout.atrac1.scaleFactors.length ∧
      Layout.atrac1.firstLine windows block + Layout.atrac1.lines.getD block 0 ≤ spectrum.length

instance (windows : WindowMode) (spectrum : List Float32) (block scale : Nat) :
    Decidable (IsInRange windows spectrum block scale) :=
  inferInstanceAs (Decidable (_ ∧ _))

/-- Read mantissas as `readBlocks` does, but test every index first. -/
def readBlocks? (windows : WindowMode) :
    (entries : List (Nat × Nat × Nat)) → (spectrum : List Float32) → BitReader →
      Except Error (List Float32 × BitReader)
  | [], spectrum, r => .ok (spectrum, r)
  | (block, length, scale) :: entries, spectrum, r =>
    if length = 0 then readBlocks? windows entries spectrum r
    else if ¬IsInRange windows spectrum block scale then .error .outOfRange
    else do
      let (mantissas, r) ← r.readManySigned length (Layout.atrac1.lines.getD block 0)
      let first := Layout.atrac1.firstLine windows block
      readBlocks? windows entries (overlay spectrum first (restored length scale mantissas)) r

/-- Read a sound unit as `dequantise` does, but test every index first. -/
def dequantise? (bytes : List UInt8) : Except Error Dequantised := do
  if bytes.length < unitBytes then throw (.unitTooShort bytes.length unitBytes)
  let r := BitReader.ofBytes (bytes.take unitBytes)
  let (counts, r) ← readWindows 0 windowLimits r
  let windows := WindowMode.ofList counts
  let r ← r.skip 2
  let (index, r) ← r.read indexWidth
  let r ← r.skip 5
  if blockCounts.length ≤ index then throw .outOfRange
  let count := blockCounts.getD index 0
  let blocks := Layout.atrac1.blocks
  if blocks < count then throw .outOfRange
  let (fields, r) ← r.readMany lengthWidth count
  let (scales, r) ← r.readMany scaleWidth count
  let lengths := padded blocks (fields.map lengthOfField)
  let scales := padded blocks scales
  let silence := List.replicate Layout.atrac1.frameLines (0 : Float32)
  let entries := (List.range blocks).zip (lengths.zip scales)
  let (spectrum, _) ← readBlocks? windows entries silence r
  return { windows, index, lengths, scales, spectrum }

/-! ### Mantissas -/

/-- The bits of the mantissas of some blocks. -/
def mantissaSpan (entries : List (Nat × Nat × Nat)) : Nat :=
  (entries.map fun e => e.2.1 * Layout.atrac1.lines.getD e.1 0).sum

section ReadBlocks

variable {windows : WindowMode} {entries : List (Nat × Nat × Nat)} {spectrum after : List Float32}
  {r r' : BitReader}

/-- Mantissas take as many bits as their word lengths say, whatever they are. -/
theorem takes_readBlocks (windows : WindowMode) (h : ∀ e ∈ entries, e.2.1 ≤ 32)
    (spectrum : List Float32) :
    Takes (readBlocks windows entries spectrum) (mantissaSpan entries) := by
  induction entries generalizing spectrum with
  | nil => exact takes_ok spectrum
  | cons e entries ih =>
    obtain ⟨block, length, scale⟩ := e
    obtain ⟨hle, hentries⟩ := List.forall_mem_cons.1 h
    have hspan : mantissaSpan ((block, length, scale) :: entries) =
        length * Layout.atrac1.lines.getD block 0 + mantissaSpan entries := by
      rw [mantissaSpan, List.map_cons, List.sum_cons]
      rfl
    rw [hspan]
    by_cases hzero : length = 0
    · have hread : readBlocks windows ((block, length, scale) :: entries) spectrum =
          readBlocks windows entries spectrum := funext fun r => if_pos hzero
      rw [hread, hzero, Nat.zero_mul, Nat.zero_add]
      exact ih hentries spectrum
    · have hread : readBlocks windows ((block, length, scale) :: entries) spectrum = fun r =>
          r.readManySigned length (Layout.atrac1.lines.getD block 0) >>= fun (mantissas, r) =>
            readBlocks windows entries (overlay spectrum (Layout.atrac1.firstLine windows block)
              (restored length scale mantissas)) r := funext fun r => if_neg hzero
      have hnext (mantissas : List Int) : Takes (readBlocks windows entries
          (overlay spectrum (Layout.atrac1.firstLine windows block)
            (restored length scale mantissas))) (mantissaSpan entries) := ih hentries _
      rw [hread]
      exact (takes_readManySigned (Nat.pos_of_ne_zero hzero) hle _).bind hnext

theorem length_restored_of_read {length scale width count : Nat} {mantissas : List Int}
    (hread : r.readManySigned width count = .ok (mantissas, r')) :
    (restored length scale mantissas).length = count := by
  rw [restored, List.length_map, BitReader.length_of_readManySigned hread]

theorem length_overlay_restored {block length scale width : Nat} {mantissas : List Int}
    (hblock : block < Layout.atrac1.blocks) (hlength : spectrum.length = Layout.atrac1.frameLines)
    (hread : r.readManySigned width (Layout.atrac1.lines.getD block 0) = .ok (mantissas, r')) :
    (overlay spectrum (Layout.atrac1.firstLine windows block)
      (restored length scale mantissas)).length = Layout.atrac1.frameLines := by
  refine (length_overlay ?_).trans hlength
  rw [length_restored_of_read hread, hlength]
  exact Layout.firstLine_add_le Layout.isWithin_atrac1 hblock windows

/-- What is read is drawn into the lines of blocks with a word length only. -/
theorem getElem?_of_readBlocks (hlength : spectrum.length = Layout.atrac1.frameLines)
    (hentries : ∀ e ∈ entries, e.1 < Layout.atrac1.blocks)
    (h : readBlocks windows entries spectrum r = .ok (after, r')) :
    after.length = Layout.atrac1.frameLines ∧
      ∀ line, (∀ e ∈ entries, e.2.1 ≠ 0 → ¬Layout.atrac1.Covers windows e.1 line) →
        after[line]? = spectrum[line]? := by
  induction entries generalizing spectrum r with
  | nil =>
    cases h
    exact ⟨hlength, fun _ _ => rfl⟩
  | cons e entries ih =>
    obtain ⟨block, length, scale⟩ := e
    obtain ⟨hblock, hentries⟩ :
        block < Layout.atrac1.blocks ∧ ∀ e ∈ entries, e.1 < Layout.atrac1.blocks :=
      List.forall_mem_cons.1 hentries
    by_cases hzero : length = 0
    · rw [readBlocks, if_pos hzero] at h
      obtain ⟨hafter, hlines⟩ := ih hlength hentries h
      exact ⟨hafter, fun line hline => hlines line fun e he => hline e (List.mem_cons_of_mem _ he)⟩
    · rw [readBlocks, if_neg hzero] at h
      obtain ⟨⟨mantissas, r₁⟩, hread, h⟩ := of_bind_eq_ok h
      obtain ⟨hafter, hlines⟩ := ih (length_overlay_restored hblock hlength hread) hentries h
      refine ⟨hafter, fun line hline => ?_⟩
      rw [hlines line fun e he => hline e (List.mem_cons_of_mem _ he),
        getElem?_overlay_of_outside]
      · rw [length_restored_of_read hread, hlength]
        exact Layout.firstLine_add_le Layout.isWithin_atrac1 hblock windows
      · have hnot : ¬Layout.atrac1.Covers windows block line :=
          hline (block, length, scale) List.mem_cons_self hzero
        rw [length_restored_of_read hread]
        unfold Layout.Covers at hnot
        omega

theorem readBlocks?_eq (hlength : spectrum.length = Layout.atrac1.frameLines)
    (hentries : ∀ e ∈ entries, e.1 < Layout.atrac1.blocks ∧ e.2.2 < ScaleFactor.count)
    (r : BitReader) :
    readBlocks? windows entries spectrum r = readBlocks windows entries spectrum r := by
  induction entries generalizing spectrum r with
  | nil => rfl
  | cons e entries ih =>
    obtain ⟨block, length, scale⟩ := e
    obtain ⟨⟨hblock, hscale⟩, hentries⟩ := List.forall_mem_cons.1 hentries
    rw [readBlocks?, readBlocks]
    by_cases hzero : length = 0
    · rw [if_pos hzero, if_pos hzero, ih hlength hentries]
    · have hrange : IsInRange windows spectrum block scale := by
        refine ⟨hblock, hblock, hblock, hscale, ?_⟩
        rw [hlength]
        exact Layout.firstLine_add_le Layout.isWithin_atrac1 hblock windows
      rw [if_neg hzero, if_neg hzero, if_neg (Decidable.not_not.2 hrange)]
      refine bind_congr_of_ok ?_
      rintro ⟨mantissas, r₁⟩ hread
      exact ih (length_overlay_restored hblock hlength hread) hentries r₁

end ReadBlocks

theorem lt_of_mem_padded {n bound : Nat} {xs : List Nat} (hpos : 0 < bound)
    (h : ∀ x ∈ xs, x < bound) : ∀ x ∈ padded n xs, x < bound := by
  intro x hx
  rcases List.mem_append.1 hx with hx | hx
  · exact h x hx
  · rw [List.eq_of_mem_replicate hx]
    exact hpos

theorem dequantise?_eq (bytes : List UInt8) : dequantise? bytes = dequantise bytes := by
  unfold dequantise? dequantise
  by_cases hshort : bytes.length < unitBytes
  · rw [if_pos hshort, if_pos hshort]
    rfl
  rw [if_neg hshort, if_neg hshort]
  refine bind_congr_of_ok ?_
  rintro ⟨counts, r₁⟩ -
  refine bind_congr_of_ok ?_
  rintro r₂ -
  refine bind_congr_of_ok ?_
  rintro ⟨index, r₃⟩ hindex
  refine bind_congr_of_ok ?_
  rintro r₄ -
  have hindex : index < blockCounts.length := BitReader.lt_of_read hindex
  have hcount : blockCounts.getD index 0 ≤ Layout.atrac1.blocks := getD_blockCounts_le index
  rw [if_neg (Nat.not_le.2 hindex), if_neg (Nat.not_lt.2 hcount)]
  refine bind_congr_of_ok ?_
  rintro ⟨fields, r₅⟩ -
  refine bind_congr_of_ok ?_
  rintro ⟨scales, r₆⟩ hscales
  obtain ⟨-, hscales⟩ := BitReader.lt_of_readMany hscales
  have hsilence : (List.replicate Layout.atrac1.frameLines (0 : Float32)).length =
      Layout.atrac1.frameLines := List.length_replicate
  dsimp only
  rw [readBlocks?_eq hsilence]
  rintro ⟨block, length, scale⟩ he
  obtain ⟨hblock, he⟩ := List.of_mem_zip he
  exact ⟨List.mem_range.1 hblock,
    lt_of_mem_padded (by decide) hscales scale (List.of_mem_zip he).2⟩

/-! ### The fields before the mantissas -/

section Fields

variable {bits : List Bool}

theorem readWindows_seek (h : 6 ≤ bits.length) :
    readWindows 0 windowLimits (.seek bits 0) =
      if Bits.fieldAt bits 0 2 = 3 then .error (.windowField 0 3)
      else if Bits.fieldAt bits 2 2 = 3 then .error (.windowField 1 3)
      else .ok (windowCounts bits, .seek bits 6) := by
  have hlow := Bits.fieldAt_lt bits 0 2
  have hmid := Bits.fieldAt_lt bits 2 2
  have hhigh := Bits.fieldAt_lt bits 4 2
  have hread (position : Nat) (hposition : position + 2 ≤ bits.length) :
      (BitReader.seek bits position).read 2 =
        .ok (Bits.fieldAt bits position 2, .seek bits (position + 2)) :=
    BitReader.read_seek (by decide) (by decide) hposition
  simp only [windowLimits, readWindows, bind, Except.bind, pure, Except.pure]
  rw [hread 0 (by omega)]
  simp only
  by_cases hbad : Bits.fieldAt bits 0 2 = 3
  · rw [if_pos hbad, hbad]
    rfl
  rw [if_neg hbad, if_neg (by omega), hread 2 (by omega)]
  simp only
  by_cases hbad : Bits.fieldAt bits 2 2 = 3
  · rw [if_pos hbad, hbad]
    rfl
  rw [if_neg hbad, if_neg (by omega), hread 4 (by omega)]
  simp only
  rw [if_neg (by omega)]
  rfl

theorem blockCount_le (bits : List Bool) : blockCount bits ≤ Layout.atrac1.blocks :=
  getD_blockCounts_le _

/-- Fields that are read one after the other, with zeros behind them. -/
theorem padded_map_range {n count : Nat} (h : count ≤ n) (f : Nat → Nat) :
    padded n ((List.range count).map f) =
      (List.range n).map fun i => if i < count then f i else 0 := by
  obtain ⟨more, rfl⟩ := Nat.exists_eq_add_of_le h
  have hfirst : (List.range count).map f =
      (List.range count).map fun i => if i < count then f i else 0 :=
    List.map_congr_left fun i hi => (if_pos (List.mem_range.1 hi)).symm
  have hrest : List.replicate more 0 =
      (List.range more).map fun i => if count + i < count then f (count + i) else 0 := by
    refine (List.eq_replicate_iff.2 ⟨by simp, fun x hx => ?_⟩).symm
    obtain ⟨i, -, rfl⟩ := List.mem_map.1 hx
    exact if_neg (by omega)
  rw [padded, List.length_map, List.length_range, Nat.add_sub_cancel_left, hrest, hfirst,
    List.range_add, List.map_append, List.map_map]
  rfl

theorem zip_eq_entries (bits : List Bool) :
    (List.range Layout.atrac1.blocks).zip (((List.range Layout.atrac1.blocks).map (length bits)).zip
      ((List.range Layout.atrac1.blocks).map (scale bits))) = entries bits := by
  have hzip := List.zip_map' (f := id) (g := fun block => (length bits block, scale bits block))
    (l := List.range Layout.atrac1.blocks)
  rw [List.map_id] at hzip
  rw [List.zip_map', hzip]
  rfl

/-- The fields before the mantissas are read, and the mantissas from what stands behind them. -/
theorem dequantise_eq {bytes : List UInt8} (h : ¬IsMalformed bytes) :
    dequantise bytes =
      (readBlocks (windows (unitString bytes)) (entries (unitString bytes))
        (List.replicate Layout.atrac1.frameLines 0)
        (.seek (unitString bytes) (16 + 10 * blockCount (unitString bytes)))).map
      fun (spectrum, _) =>
        { windows := windows (unitString bytes), index := index (unitString bytes)
          lengths := (List.range Layout.atrac1.blocks).map (length (unitString bytes))
          scales := (List.range Layout.atrac1.blocks).map (scale (unitString bytes))
          spectrum } := by
  obtain ⟨hlong, hbad⟩ := not_or.1 h
  obtain ⟨hlow, hmid⟩ := not_or.1 hbad
  have hsize := length_unitString (Nat.not_lt.1 hlong)
  generalize hbits : unitString bytes = bits at *
  have hreader : BitReader.ofBytes (bytes.take unitBytes) = .seek bits 0 :=
    congrArg (BitReader.seek · 0) hbits
  have hblocks : Layout.atrac1.blocks = 52 := rfl
  have hcount := blockCount_le bits
  have hwindows : readWindows 0 windowLimits (.seek bits 0) =
      .ok (windowCounts bits, .seek bits 6) := by
    rw [readWindows_seek (by omega), if_neg hlow, if_neg hmid]
  have hskip : (BitReader.seek bits 6).skip 2 = .ok (.seek bits 8) := BitReader.skip_seek (by omega)
  have hindex : (BitReader.seek bits 8).read indexWidth = .ok (index bits, .seek bits 11) :=
    BitReader.read_seek (by decide) (by decide) (by rw [indexWidth]; omega)
  have hskip' : (BitReader.seek bits 11).skip 5 = .ok (.seek bits 16) :=
    BitReader.skip_seek (by omega)
  have hfields : (BitReader.seek bits 16).readMany 4 (blockCount bits) = .ok (_, _) :=
    BitReader.readMany_seek (by decide) (by decide) (by omega)
  have hscales : (BitReader.seek bits (16 + 4 * blockCount bits)).readMany 6
      (blockCount bits) = .ok (_, _) :=
    BitReader.readMany_seek (by decide) (by decide) (by omega)
  have hbehind : 16 + 4 * blockCount bits + 6 * blockCount bits = 16 + 10 * blockCount bits := by
    omega
  have hlengths : padded Layout.atrac1.blocks ((List.range (blockCount bits)).map
      (lengthOfField ∘ fun i => Bits.fieldAt bits (16 + 4 * i) 4)) =
        (List.range Layout.atrac1.blocks).map (length bits) := padded_map_range hcount _
  have hindices : padded Layout.atrac1.blocks ((List.range (blockCount bits)).map
      fun i => Bits.fieldAt bits (16 + 4 * blockCount bits + 6 * i) 6) =
        (List.range Layout.atrac1.blocks).map (scale bits) := padded_map_range hcount _
  -- one field after the other, each from where the one before it ends
  unfold dequantise
  rw [if_neg (show ¬bytes.length < unitBytes from hlong), hreader]
  simp only [bind, Except.bind, hwindows, hskip, hindex, hskip', pure, Except.pure, lengthWidth,
    scaleWidth]
  rw [show blockCounts.getD (index bits) 0 = blockCount bits from rfl, hfields]
  simp only [hscales, hbehind, List.map_map, hlengths, hindices, zip_eq_entries]
  rw [show WindowMode.ofList (windowCounts bits) = windows bits from rfl]
  cases readBlocks (windows bits) (entries bits) (List.replicate Layout.atrac1.frameLines 0)
    (.seek bits (16 + 10 * blockCount bits)) <;> rfl

theorem mem_entries {bits : List Bool} {e : Nat × Nat × Nat} (h : e ∈ entries bits) :
    e.1 < Layout.atrac1.blocks ∧ e.2.1 = length bits e.1 := by
  obtain ⟨block, hblock, rfl⟩ := List.mem_map.1 h
  exact ⟨List.mem_range.1 hblock, rfl⟩

theorem length_le (bits : List Bool) (block : Nat) : length bits block ≤ greatestLength := by
  have hfield := Bits.fieldAt_lt bits (16 + 4 * block) 4
  unfold length lengthOfField greatestLength
  split
  · split <;> omega
  · omega

theorem takes_entries (bits : List Bool) :
    Takes (readBlocks (windows bits) (entries bits) (List.replicate Layout.atrac1.frameLines 0))
      (mantissaSpan (entries bits)) := by
  refine takes_readBlocks _ (fun e he => ?_) _
  rw [(mem_entries he).2]
  exact Nat.le_trans (length_le bits e.1) (by decide)

/-- Blocks that are not transmitted have no mantissas. -/
theorem mantissaSpan_entries (bits : List Bool) :
    16 + 10 * blockCount bits + mantissaSpan (entries bits) = mantissaEnd bits := by
  obtain ⟨more, hmore⟩ := Nat.exists_eq_add_of_le (blockCount_le bits)
  have hnone : (List.range more).map (fun i => length bits (blockCount bits + i) *
      Layout.atrac1.lines.getD (blockCount bits + i) 0) = List.replicate more 0 := by
    refine List.eq_replicate_iff.2 ⟨by simp, fun x hx => ?_⟩
    obtain ⟨i, -, rfl⟩ := List.mem_map.1 hx
    rw [length, if_neg (by omega), Nat.zero_mul]
  rw [mantissaEnd, mantissaSpan, entries, List.map_map, hmore, List.range_add, List.map_append,
    List.sum_append_nat, List.map_map, Function.comp_def, Function.comp_def]
  simp only [hnone, List.sum_replicate_nat, Nat.mul_zero, Nat.add_zero]

end Fields

/-! ### Acceptance -/

section Acceptance

variable {bytes other : List UInt8}

theorem dequantise_of_windowField (hlong : 212 ≤ bytes.length)
    (h : Bits.fieldAt (unitString bytes) 0 2 = 3 ∨ Bits.fieldAt (unitString bytes) 2 2 = 3) :
    dequantise bytes =
      .error (.windowField (if Bits.fieldAt (unitString bytes) 0 2 = 3 then 0 else 1) 3) := by
  have hreader : BitReader.ofBytes (bytes.take unitBytes) = .seek (unitString bytes) 0 := rfl
  unfold dequantise
  rw [if_neg (show ¬bytes.length < unitBytes from Nat.not_lt.2 hlong), hreader]
  simp only [bind, Except.bind, pure, Except.pure]
  rw [readWindows_seek (by rw [length_unitString hlong]; decide)]
  by_cases hlow : Bits.fieldAt (unitString bytes) 0 2 = 3
  · rw [if_pos hlow, if_pos hlow]
  · rw [if_neg hlow, if_neg hlow, if_pos (h.resolve_left hlow)]

theorem exists_of_isMalformed (h : IsMalformed bytes) :
    ∃ cause, dequantise bytes = .error cause ∧ cause.kind = .invalidData := by
  rcases Nat.lt_or_ge bytes.length unitBytes with hshort | hlong
  · unfold dequantise
    rw [if_pos hshort]
    exact ⟨_, rfl, rfl⟩
  · exact ⟨_, dequantise_of_windowField hlong (h.resolve_left (Nat.not_lt.2 hlong)), rfl⟩

/-- A unit that is not malformed is read if its mantissas end within it, and else the reader comes
to the end of the stream. -/
theorem dequantise_of_not_isMalformed (h : ¬IsMalformed bytes) :
    (mantissaEnd (unitString bytes) ≤ 1696 → ∃ d, dequantise bytes = .ok d) ∧
      (1696 < mantissaEnd (unitString bytes) → dequantise bytes = .error .endOfStream) := by
  have hsize : (unitString bytes).length = 1696 :=
    length_unitString (Nat.not_lt.1 fun hshort => h (.inl hshort))
  have hcount := blockCount_le (unitString bytes)
  have hblocks : Layout.atrac1.blocks = 52 := rfl
  have hspan := mantissaSpan_entries (unitString bytes)
  obtain ⟨henough, hshort⟩ := (takes_entries (unitString bytes)).run_seek (unitString bytes)
    (16 + 10 * blockCount (unitString bytes))
  rw [hspan, hsize] at henough hshort
  rw [dequantise_eq h]
  constructor
  · intro hle
    obtain ⟨spectrum, hread⟩ := henough hle
    rw [hread]
    exact ⟨_, rfl⟩
  · intro hlt
    rw [hshort hlt (by omega)]
    rfl

/-- Units that say the same are read alike. -/
theorem dequantise_of_saysTheSame (h : SaysTheSame bytes other) :
    dequantise other = dequantise bytes := by
  obtain ⟨hlong, hlong', hsame⟩ := h
  have hsize := length_unitString hlong
  have hsize' := length_unitString hlong'
  have hspan := mantissaSpan_entries (unitString bytes)
  have hfield (position width : Nat)
      (hend : position + width ≤ 16 + 10 * blockCount (unitString bytes))
      (hfree : ∀ i, position ≤ i → i < position + width → ¬IsReserved i) :
      Bits.fieldAt (unitString other) position width =
        Bits.fieldAt (unitString bytes) position width :=
    Bits.fieldAt_congr fun i hle hlt => (hsame i (by omega) (hfree i hle hlt)).symm
  -- no field that is read reaches into the reserved bits, so that both units say the same in each
  have hlow := hfield 0 2 (by omega) (by unfold IsReserved; omega)
  have hmid := hfield 2 2 (by omega) (by unfold IsReserved; omega)
  have hhigh := hfield 4 2 (by omega) (by unfold IsReserved; omega)
  have hindex : index (unitString other) = index (unitString bytes) :=
    hfield 8 3 (by omega) (by unfold IsReserved; omega)
  have hcount : blockCount (unitString other) = blockCount (unitString bytes) := by
    rw [blockCount, hindex, blockCount]
  have hlengths : length (unitString other) = length (unitString bytes) := by
    funext block
    unfold length
    rw [hcount]
    split
    · rw [hfield _ 4 (by omega) (by unfold IsReserved; omega)]
    · rfl
  have hscales : scale (unitString other) = scale (unitString bytes) := by
    funext block
    unfold scale
    rw [hcount]
    split
    · rw [hfield _ 6 (by omega) (by unfold IsReserved; omega)]
    · rfl
  have hwindows : windows (unitString other) = windows (unitString bytes) := by
    rw [windows, windowCounts, hlow, hmid, hhigh, windows, windowCounts]
  have hentries : entries (unitString other) = entries (unitString bytes) := by
    rw [entries, hlengths, hscales, entries]
  by_cases hbad : Bits.fieldAt (unitString bytes) 0 2 = 3 ∨ Bits.fieldAt (unitString bytes) 2 2 = 3
  · rw [dequantise_of_windowField hlong hbad,
      dequantise_of_windowField hlong' (by rwa [hlow, hmid]), hlow]
  have hgood : ¬IsMalformed bytes := not_or.2 ⟨Nat.not_lt.2 hlong, hbad⟩
  have hgood' : ¬IsMalformed other := not_or.2 ⟨Nat.not_lt.2 hlong', by rwa [hlow, hmid]⟩
  have hbehind : 16 + 10 * blockCount (unitString bytes) ≤ (unitString bytes).length := by
    have hle := blockCount_le (unitString bytes)
    have hblocks : Layout.atrac1.blocks = 52 := rfl
    omega
  have hread := (takes_entries (unitString bytes)).congr_seek hbehind (hsize'.trans hsize.symm)
    fun i hle hlt => hsame i (by omega) (by unfold IsReserved; omega)
  have hspectrum (x : Except Error (List Float32 × BitReader))
      (build : List Float32 → Dequantised) :
      x.map (fun (spectrum, _) => build spectrum) = (x.map Prod.fst).map build := by
    cases x <;> rfl
  rw [dequantise_eq hgood, dequantise_eq hgood', hwindows, hentries, hcount, hindex, hlengths,
    hscales, hspectrum, hspectrum, hread]

/-- Bytes behind the unit are of no account. -/
theorem dequantise_take (bytes : List UInt8) :
    dequantise (bytes.take 212) = dequantise bytes := by
  rcases Nat.lt_or_ge bytes.length 212 with hshort | hlong
  · rw [List.take_of_length_le (Nat.le_of_lt hshort)]
  · have hlength : (bytes.take 212).length = 212 := List.length_take_of_le hlong
    have hunit : unitString (bytes.take 212) = unitString bytes := by
      rw [unitString, List.take_take, unitString]
      rfl
    refine dequantise_of_saysTheSame ⟨hlong, Nat.le_of_eq hlength.symm, fun position _ _ => ?_⟩
    rw [hunit]

theorem getElem?_of_dequantise {d : Dequantised} (h : dequantise bytes = .ok d) :
    d.lengths = (List.range 52).map (length (unitString bytes)) ∧ d.spectrum.length = 512 ∧
      ∀ block < 52, length (unitString bytes) block = 0 →
        ∀ line, Layout.atrac1.Covers d.windows block line → d.spectrum[line]? = some 0 := by
  have hgood : ¬IsMalformed bytes := by
    intro hbad
    obtain ⟨cause, hcause, -⟩ := exists_of_isMalformed hbad
    rw [hcause] at h
    cases h
  rw [dequantise_eq hgood] at h
  obtain ⟨⟨spectrum, r⟩, hread, rfl⟩ := of_map_eq_ok h
  obtain ⟨hlength, hlines⟩ := getElem?_of_readBlocks List.length_replicate
    (fun e he => (mem_entries he).1) hread
  refine ⟨rfl, hlength, fun block hblock hzero line hcovers => ?_⟩
  have hline : line < Layout.atrac1.frameLines :=
    Nat.lt_of_lt_of_le hcovers.2
      (Layout.firstLine_add_le Layout.isWithin_atrac1 hblock (windows (unitString bytes)))
  rw [hlines line, List.getElem?_replicate_of_lt hline]
  intro e he hne hcovers'
  obtain ⟨he₁, he₂⟩ := mem_entries he
  have hsame : e.1 = block := Layout.covers_unique he₁ hblock hcovers' hcovers
  rw [he₂, hsame] at hne
  exact hne hzero

/-- **The reader accepts well-formed units and nothing else.** It stays inside its tables and its
spectrum, calls malformed units invalid, and reads any other to the end of its mantissas if they end
within the unit. Bytes behind the unit, reserved bits and bits behind the mantissas are of no
account, and blocks without a word length stay silent. -/
theorem dequantise_accepts (bytes : List UInt8) :
    dequantise? bytes = dequantise bytes ∧
      ((∃ cause, dequantise bytes = .error cause ∧ cause.kind = .invalidData) ↔
        IsMalformed bytes) ∧
      (¬IsMalformed bytes →
        (dequantise bytes = .error .endOfStream ↔ 1696 < mantissaEnd (unitString bytes)) ∧
        ((∃ d, dequantise bytes = .ok d) ↔ mantissaEnd (unitString bytes) ≤ 1696)) ∧
      dequantise (bytes.take 212) = dequantise bytes ∧
      (∀ other, SaysTheSame bytes other → dequantise other = dequantise bytes) ∧
      ∀ d, dequantise bytes = .ok d →
        d.lengths = (List.range 52).map (length (unitString bytes)) ∧ d.spectrum.length = 512 ∧
          ∀ block < 52, length (unitString bytes) block = 0 →
            ∀ line, Layout.atrac1.Covers d.windows block line → d.spectrum[line]? = some 0 := by
  have hends (hgood : ¬IsMalformed bytes) := dequantise_of_not_isMalformed hgood
  refine ⟨dequantise?_eq bytes, ⟨?_, exists_of_isMalformed⟩, fun hgood => ?_,
    dequantise_take bytes, fun other => dequantise_of_saysTheSame, fun d => getElem?_of_dequantise⟩
  · rintro ⟨cause, hcause, hkind⟩
    by_contra hgood
    rcases Nat.lt_or_ge 1696 (mantissaEnd (unitString bytes)) with hlt | hle
    · obtain rfl : Error.endOfStream = cause :=
        Except.error.inj (((hends hgood).2 hlt).symm.trans hcause)
      cases hkind
    · obtain ⟨d, hd⟩ := (hends hgood).1 hle
      rw [hd] at hcause
      cases hcause
  · obtain ⟨hok, hend⟩ := hends hgood
    refine ⟨⟨?_, hend⟩, ⟨?_, hok⟩⟩
    · intro h
      by_contra hle
      obtain ⟨d, hd⟩ := hok (Nat.not_lt.1 hle)
      rw [hd] at h
      cases h
    · rintro ⟨d, hd⟩
      by_contra hlt
      rw [hend (Nat.not_le.1 hlt)] at hd
      cases hd

end Acceptance

/-- A unit with long windows and all blocks, whose further bytes are all the same. -/
def monotonous (byte : UInt8) : List UInt8 := 0xAC :: 0xE0 :: List.replicate 210 byte

/-- Sixteen bits a mantissa are too many, and none leave silence. -/
theorem dequantise_accepts_monotonous :
    dequantise (monotonous 0xFF) = .error .endOfStream ∧
      ∃ d, dequantise (monotonous 0) = .ok d ∧ d.spectrum[0]? = some 0 := by
  have hgood : ¬IsMalformed (monotonous 0xFF) ∧ ¬IsMalformed (monotonous 0) := by
    unfold IsMalformed
    decide +kernel
  have hfull : 1696 < mantissaEnd (unitString (monotonous 0xFF)) := by decide +kernel
  have hempty : mantissaEnd (unitString (monotonous 0)) ≤ 1696 := by decide +kernel
  have hsilent : length (unitString (monotonous 0)) 0 = 0 := by decide +kernel
  obtain ⟨-, -, hover, -⟩ := dequantise_accepts (monotonous 0xFF)
  obtain ⟨-, -, hwithin, -, -, hlines⟩ := dequantise_accepts (monotonous 0)
  obtain ⟨d, hd⟩ := (hwithin hgood.2).2.2 hempty
  obtain ⟨-, -, hzero⟩ := hlines d hd
  refine ⟨(hover hgood.1).1.2 hfull, d, hd, hzero 0 (by decide) hsilent 0 ⟨?_, ?_⟩⟩
  · have hfirst (mode : WindowMode) : Layout.atrac1.firstLine mode 0 = 0 := by
      rw [Layout.firstLine_eq]
      cases mode.isShort (Layout.atrac1.bandOf 0) <;> rfl
    exact Nat.le_of_eq (hfirst d.windows)
  · exact Nat.lt_of_lt_of_le (by decide) (Nat.le_add_left _ _)

end Atrac1

end SpectralCoding
