import SpectralCoding.Proofs.Atrac3.MantissaDecoder
import SpectralCoding.Proofs.Atrac3Plus.LengthDecoder

/-!
# Reading a spectrum back

One stage quantises the units in use and writes which kind of words each of them takes, the next one
writes the mantissas in these words. A decoder that knows the word lengths and the numbers of lines
reads the kinds first and the mantissas by them. A mantissa without a word in its book would be
passed over, but no mantissa within the bounds of its word length lacks one, so that a unit takes
the shorter of the two kinds of words and nothing is lost.

* `Atrac3Plus.readSpectrum` : the decoder.
* `Atrac3Plus.wordOf`, `Atrac3Plus.getElem?_codebook` : the word of a mantissa, which there is.
* `Atrac3Plus.cost_mantissaFields` : a unit takes the shorter kind of words.
* `Atrac3Plus.readsBack_kinds`, `Atrac3Plus.readsBack_units` : the decoder undoes the kinds, and the
  mantissas of all units.
* `Atrac3Plus.readSpectrum_written` : **a spectrum is written without loss, and every unit in the
  shorter kind of words.**
-/

namespace SpectralCoding

namespace Atrac3Plus

/-! ### The decoder -/

/-- What a decoder knows of a unit beforehand. -/
structure UnitShape where
  /-- The word length. -/
  length : Nat
  /-- The number of lines. -/
  lines : Nat

/-- Read the kind of words of a unit. A silent unit takes none; where the first channel has
mantissas, a silent unit of another channel says that it is not a copy. -/
def readKind (isFirst : Bool) (length firstLength : Nat) : Decoder Nat :=
  if length ≠ 0 then .field 2
  else if !isFirst && firstLength ≠ 0 then do
    .expect 1 1
    return fixedKind
  else return fixedKind

/-- Read the kinds of words of a channel. -/
def readChannelKinds (isFirst : Bool) (lengths firstLengths : List Nat) : Decoder (List Nat) := do
  .expect 1 0
  .expect 2 0
  .expect 1 0
  (lengths.zip firstLengths).mapM fun (length, first) => readKind isFirst length first

/-- Read the kinds of words of all channels, whose word lengths are those of `used` units each. -/
def readKinds (used : Nat) (lengths : List (List Nat)) : Decoder (List (List Nat)) :=
  if used = 0 then return lengths.map fun _ => []
  else do
    .expect 1 0
    lengths.zipIdx.mapM fun (row, channel) =>
      readChannelKinds (channel == 0) row (lengths.headD [])

/-- Read a mantissa in words of a kind. -/
def readMantissa (length kind : Nat) : Decoder Int :=
  if kind = fixedKind then .signed (fixedWidth length)
  else Atrac3.mantissaAt <$> .word (codebook length)

/-- Read the mantissas of a unit in words of a kind. -/
def readUnit (shape : UnitShape) (kind : Nat) : Decoder CodedUnit :=
  if shape.length = 0 then return {}
  else do
    let mantissas ← .times shape.lines (readMantissa shape.length kind)
    return { kind, mantissas }

/-- Read the units of all channels, `used` of each. -/
def readSpectrum (used : Nat) (shapes : List (List UnitShape)) :
    Decoder (List (List CodedUnit)) := do
  let kinds ← readKinds used (shapes.map (·.map (·.length)))
  (shapes.zip kinds).mapM fun (row, ks) =>
    (row.zip ks).mapM fun (shape, kind) => readUnit shape kind

/-! ### Words -/

/-- The word of a mantissa in the book of a word length. -/
def wordOf (length : Nat) (m : Int) : Codeword := (codebook length).getD (Atrac3.symbol m) .none

section Words

variable {length : Nat} {ms : List Int}

/-- Words of either kind have room for the greatest mantissa. Word length one borrows the book of
two, which has room to spare. -/
theorem room_of_length : ∀ length ≤ greatestLength, length ≠ 0 →
    2 * Atrac3.greatestMantissa length < (codebook length).length ∧
      Atrac3.greatestMantissa length < 2 ^ (fixedWidth length - 1) ∧
        0 < fixedWidth length ∧ fixedWidth length ≤ 32 := by
  decide +kernel

/-- No mantissa within the bounds of its word length lacks a word. -/
theorem getElem?_codebook (hlength : length ≠ 0) (hle : length ≤ greatestLength) {m : Int}
    (hm : m.natAbs ≤ Atrac3.greatestMantissa length) :
    (codebook length)[Atrac3.symbol m]? = some (wordOf length m) := by
  have hroom := (room_of_length length hle hlength).1
  have hplace : Atrac3.symbol m < (codebook length).length :=
    Nat.lt_of_le_of_lt (Nat.le_trans (Atrac3.symbol_le m) (Nat.mul_le_mul_left 2 hm)) hroom
  rw [wordOf, List.getD_eq_getElem?_getD, List.getElem?_eq_getElem hplace, Option.getD_some]

theorem wordsIn_codebook (hlength : length ≠ 0) (hle : length ≤ greatestLength)
    (hms : Atrac3.IsBounded length ms) :
    Atrac3.wordsIn (codebook length) ms = (ms.map (wordOf length)).map some := by
  rw [List.map_map]
  exact List.map_congr_left fun m hm => getElem?_codebook hlength hle (hms m hm)

/-! ### The fields of a unit -/

/-- The field of a mantissa in words of a kind. -/
def mantissaField (length kind : Nat) (m : Int) : Field :=
  if kind = fixedKind then .ofInt (fixedWidth length) m else .ofWord (wordOf length m)

/-- No mantissa within the bounds of its word length is passed over. -/
theorem mantissaFields_eq (hlength : length ≠ 0) (hle : length ≤ greatestLength) (kind : Nat)
    (hms : Atrac3.IsBounded length ms) :
    mantissaFields length kind ms = ms.map (mantissaField length kind) := by
  unfold mantissaFields mantissaField
  rw [if_neg hlength]
  split
  · rfl
  · rw [wordsIn_codebook hlength hle hms, List.filterMap_map]
    exact (congrFun List.filterMap_eq_map _).trans List.map_map

/-- What mantissas take in words of variable length. -/
def variableCost (length : Nat) (ms : List Int) : Nat := (ms.map fun m => (wordOf length m).width).sum

theorem totalWidth_wordsIn (hlength : length ≠ 0) (hle : length ≤ greatestLength)
    (hms : Atrac3.IsBounded length ms) :
    Atrac3.totalWidth (Atrac3.wordsIn (codebook length) ms) = some (variableCost length ms) := by
  rw [wordsIn_codebook hlength hle hms, Atrac3.totalWidth_map_some, List.map_map]
  rfl

theorem chooseKind_eq (hlength : length ≠ 0) (hle : length ≤ greatestLength)
    (hms : Atrac3.IsBounded length ms) :
    chooseKind length ms =
      if variableCost length ms < fixedWidth length * ms.length then variableKind else fixedKind := by
  rw [chooseKind, totalWidth_wordsIn hlength hle hms]

theorem cost_mantissaFields (hlength : length ≠ 0) (hle : length ≤ greatestLength)
    (hms : Atrac3.IsBounded length ms) :
    Fields.cost (mantissaFields length (chooseKind length ms) ms) =
      min (fixedWidth length * ms.length) (variableCost length ms) := by
  rw [mantissaFields_eq hlength hle _ hms, chooseKind_eq hlength hle hms, Fields.cost, List.map_map]
  by_cases hlt : variableCost length ms < fixedWidth length * ms.length
  · rw [if_pos hlt, Nat.min_eq_right (Nat.le_of_lt hlt)]
    rfl
  · have hwidth : ∀ m ∈ ms, ((·.width) ∘ mantissaField length fixedKind) m = fixedWidth length :=
      fun _ _ => rfl
    rw [if_neg hlt, Nat.min_eq_left (Nat.not_lt.1 hlt), List.map_congr_left hwidth,
      List.map_const', List.sum_replicate_nat, Nat.mul_comm]

theorem readsBack_mantissa (hlength : length ≠ 0) (hle : length ≤ greatestLength) (kind : Nat)
    {m : Int} (hm : m.natAbs ≤ Atrac3.greatestMantissa length) :
    ReadsBack (readMantissa length kind) [mantissaField length kind m] m := by
  obtain ⟨-, hroom, hpos, hwidth⟩ := room_of_length length hle hlength
  unfold readMantissa mantissaField
  split
  · have hlt : (m.natAbs : Int) < 2 ^ (fixedWidth length - 1) := by
      exact_mod_cast Nat.lt_of_le_of_lt hm hroom
    refine readsBack_of_fits ?_ (decodes_signed hpos hwidth (by omega) (by omega))
    have hpow : (0 : Int) < (2 ^ fixedWidth length : Nat) := by exact_mod_cast Nat.two_pow_pos _
    exact (Int.toNat_lt (Int.emod_nonneg m (Int.ne_of_gt hpow))).2 (Int.emod_lt_of_pos m hpow)
  · have hword := getElem?_codebook hlength hle hm
    have hread := readsBack_word (Atrac3.isPrefixFree_codebook _) hword
      (Atrac3.width_ne_zero_of_mem_codebook _ (List.mem_of_getElem? hword))
      (Atrac3.code_lt_of_mem_codebook _ (List.mem_of_getElem? hword))
    have hmap := hread.map Atrac3.mantissaAt
    rwa [Atrac3.mantissaAt_symbol] at hmap

end Words

/-! ### Kinds of words -/

section Kinds

theorem chooseKind_lt (length : Nat) (ms : List Int) : chooseKind length ms < 2 ^ 2 := by
  unfold chooseKind
  split
  · split <;> decide
  · decide

theorem kind_codeUnit (length : Nat) (block : Option ScaledBlock) :
    (codeUnit length block).kind < 2 ^ 2 ∧
      (length = 0 → (codeUnit length block).kind = fixedKind) := by
  unfold codeUnit
  by_cases hsilent : length = 0
  · rw [if_pos hsilent]
    exact ⟨by decide, fun _ => rfl⟩
  · rw [if_neg hsilent]
    exact ⟨chooseKind_lt _ _, fun h => absurd h hsilent⟩

theorem readsBack_kindField (isFirst : Bool) {length kind : Nat} (first : Nat)
    (hkind : kind < 2 ^ 2) (hsilent : length = 0 → kind = fixedKind) :
    ReadsBack (readKind isFirst length first) (kindField isFirst length first kind) kind := by
  unfold readKind kindField
  by_cases hlength : length ≠ 0
  · rw [if_pos hlength, if_pos hlength]
    exact readsBack_field (by decide) hkind
  · rw [if_neg hlength, if_neg hlength, hsilent (not_not.1 hlength)]
    split
    · exact (readsBack_expect (by decide) (by decide)).append (.pure fixedKind)
    · exact .pure fixedKind

variable {used : Nat} {length first kind : Nat → Nat}

theorem readsBack_channelKinds (isFirst : Bool)
    (h : ∀ i, kind i < 2 ^ 2 ∧ (length i = 0 → kind i = fixedKind)) :
    ReadsBack
      (readChannelKinds isFirst ((List.range used).map length) ((List.range used).map first))
      (channelKindFields isFirst ((List.range used).map length) ((List.range used).map first)
        ((List.range used).map kind))
      ((List.range used).map kind) := by
  have hflag : ReadsBack (.expect 1 0) [⟨0, 1⟩] () := readsBack_expect (by decide) (by decide)
  have hkinds : ReadsBack
      (((List.range used).map fun i => (length i, first i)).mapM fun (length, first) =>
        readKind isFirst length first)
      ((List.range used).flatMap fun i => kindField isFirst (length i) (first i) (kind i))
      ((List.range used).map kind) :=
    .flatMap (fun i => (length i, first i)) fun i _ =>
      readsBack_kindField isFirst (first i) (h i).1 (h i).2
  unfold readChannelKinds channelKindFields
  rw [List.zip_map', List.zip_map', List.zip_map', List.flatMap_map]
  exact hflag.cons (readsBack_fill.cons (hflag.cons hkinds))

end Kinds

/-! ### Units -/

/-- The fields of the mantissas of a coded unit. -/
def unitFields (length : Nat) (unit : CodedUnit) : Fields :=
  mantissaFields length unit.kind unit.mantissas

/-- What a decoder knows of a unit with a block. -/
def unitShape (length : Nat) (block : Option ScaledBlock) : UnitShape where
  length
  lines := (block.map (·.values.length)).getD 0

/-- A unit that is not silent has a block, and no mantissa of it is greater than its word length
allows. -/
def IsUnit (length : Nat) (block : Option ScaledBlock) : Prop :=
  length ≠ 0 →
    ∃ b, block = some b ∧ Atrac3.IsBounded length (quantise b.values length)

instance (length : Nat) (block : Option ScaledBlock) : Decidable (IsUnit length block) :=
  match block with
  | none => decidable_of_iff (length = 0) ⟨absurd, fun h => by_contra fun hne => by simpa using h hne⟩
  | some b => decidable_of_iff (length ≠ 0 → Atrac3.IsBounded length (quantise b.values length))
      (by simp [IsUnit])

theorem readsBack_unit {length : Nat} {block : Option ScaledBlock} (hle : length ≤ greatestLength)
    (h : IsUnit length block) :
    ReadsBack (readUnit (unitShape length block) (codeUnit length block).kind)
      (unitFields length (codeUnit length block)) (codeUnit length block) := by
  unfold readUnit unitShape
  by_cases hsilent : length = 0
  · subst hsilent
    exact .pure ({} : CodedUnit)
  · obtain ⟨b, rfl, hms⟩ := h hsilent
    have hunit : codeUnit length (some b) =
        ⟨chooseKind length (quantise b.values length), quantise b.values length⟩ := if_neg hsilent
    have hlines : (quantise b.values length).length = b.values.length := List.length_map _
    have hread : ReadsBack
        (.times (quantise b.values length).length
          (readMantissa length (chooseKind length (quantise b.values length))))
        ((quantise b.values length).flatMap fun m =>
          [mantissaField length (chooseKind length (quantise b.values length)) m])
        ((quantise b.values length).map id) :=
      .times fun m hm => readsBack_mantissa hsilent hle _ (hms m hm)
    rw [hlines, ← List.map_eq_flatMap, ← mantissaFields_eq hsilent hle _ hms, List.map_id] at hread
    rw [if_neg hsilent, hunit]
    exact hread.bind_pure _

/-! ### Frames -/

namespace Frame

/-- The word lengths of every channel beside the channel. -/
def rows (frame : Frame) : List (List Nat × Channel) := frame.lengths.zip frame.channels

/-- The units in use of every channel, coded. -/
def coded (frame : Frame) : List (List CodedUnit) :=
  frame.rows.map fun (ls, ch) => codeUnits frame.usedUnits ls ch.blocks

/-- A frame with its units coded. -/
def withCoded (frame : Frame) : Frame :=
  { frame with
    kinds := frame.coded.map (·.map (·.kind))
    mantissas := frame.coded.map (·.map (·.mantissas)) }

/-- What a decoder knows of the units in use. -/
def shapes (frame : Frame) : List (List UnitShape) :=
  frame.rows.map fun (ls, ch) =>
    (List.range frame.usedUnits).map fun i => unitShape (ls.getD i 0) ch.blocks[i]?

/-- Every channel has word lengths for its units, all silent past those in use, and no mantissa is
greater than its word length allows. -/
structure IsCodable (frame : Frame) : Prop where
  rows : frame.lengths.length = frame.channels.length
  covered : ∀ row ∈ frame.lengths, frame.usedUnits ≤ row.length
  length : ∀ row ∈ frame.lengths, ∀ l ∈ row, l ≤ greatestLength
  silent : ∀ row ∈ frame.lengths, ∀ i, frame.usedUnits ≤ i → row.getD i 0 = 0
  unit : ∀ row ∈ frame.rows, ∀ i, IsUnit (row.1.getD i 0) row.2.blocks[i]?

end Frame

section Frames

variable {frame : Frame}

theorem codeUnits_eq (used : Nat) (lengths : List Nat) (blocks : List ScaledBlock) :
    codeUnits used lengths blocks =
      (List.range used).map fun i => codeUnit (lengths.getD i 0) blocks[i]? := rfl

theorem take_eq_map_range {α : Type} {xs : List α} {n : Nat} (h : n ≤ xs.length) (d : α) :
    xs.take n = (List.range n).map fun i => xs.getD i d := by
  refine List.ext_getElem (by simpa using h) fun i hi _ => ?_
  have hlt : i < xs.length := by
    rw [List.length_take] at hi
    omega
  simp [hlt]

theorem Frame.IsCodable.map_fst_rows (h : frame.IsCodable) :
    frame.rows.map Prod.fst = frame.lengths := List.map_fst_zip (Nat.le_of_eq h.rows)

theorem Frame.IsCodable.mem_lengths {row : List Nat × Channel} (hrow : row ∈ frame.rows) :
    row.1 ∈ frame.lengths := (List.of_mem_zip hrow).1

theorem Frame.IsCodable.getD_le (h : frame.IsCodable) {row : List Nat × Channel}
    (hrow : row ∈ frame.rows) (i : Nat) : row.1.getD i 0 ≤ greatestLength := by
  rw [List.getD_eq_getElem?_getD]
  cases hget : row.1[i]? with
  | none => exact Nat.zero_le _
  | some l => exact h.length _ (mem_lengths hrow) l (List.mem_of_getElem? hget)

/-- Numbered items, taken one by one, where the number of an item tells no more than the item. -/
theorem flatMap_zipIdx_map {α β γ : Type} {items : List α} {g : α → β} {f : β × Nat → List γ}
    {k : α → List γ} (h : ∀ i x, items[i]? = some x → f (g x, i) = k x) :
    (items.map g).zipIdx.flatMap f = items.flatMap k := by
  have hfst : items.flatMap k = items.zipIdx.flatMap fun entry => k entry.1 := by
    have hitems : items.flatMap k = (items.zipIdx.map Prod.fst).flatMap k := by
      rw [List.zipIdx_map_fst]
    rwa [List.flatMap_map] at hitems
  rw [hfst, List.zipIdx_map, List.flatMap_map]
  refine List.flatMap_congr ?_
  rintro ⟨x, i⟩ hentry
  exact h i x (List.mk_mem_zipIdx_iff_getElem?.1 hentry)

theorem getD_map_of_getElem? {α β : Type} {items : List α} {i : Nat} {x : α}
    (h : items[i]? = some x) (g : α → β) (d : β) : (items.map g).getD i d = g x := by
  rw [List.getD_eq_getElem?_getD, List.getElem?_map, h]
  rfl

theorem eq_of_getElem?_range {n i x : Nat} (h : (List.range n)[i]? = some x) : x = i := by
  obtain ⟨hi, rfl⟩ := List.getElem?_eq_some_iff.1 h
  exact List.getElem_range hi

/-- The kinds of words chosen for the units in use of a channel. -/
def kindsInUse (used : Nat) (row : List Nat × Channel) : List Nat :=
  (List.range used).map fun i => (codeUnit (row.1.getD i 0) row.2.blocks[i]?).kind

theorem kinds_withCoded (frame : Frame) :
    frame.withCoded.kinds = frame.rows.map (kindsInUse frame.usedUnits) := by
  have hmap : frame.withCoded.kinds =
      frame.rows.map fun row => (codeUnits frame.usedUnits row.1 row.2.blocks).map (·.kind) :=
    List.map_map
  rw [hmap]
  exact List.map_congr_left fun _ _ => List.map_map

theorem mantissas_withCoded (frame : Frame) :
    frame.withCoded.mantissas = frame.rows.map fun row =>
      (codeUnits frame.usedUnits row.1 row.2.blocks).map (·.mantissas) := List.map_map

theorem Frame.IsCodable.getD_lengths (h : frame.IsCodable) {channel : Nat}
    {row : List Nat × Channel} (hrow : frame.rows[channel]? = some row) :
    frame.lengths.getD channel [] = row.1 := by
  have hget := getD_map_of_getElem? hrow Prod.fst []
  rwa [h.map_fst_rows] at hget

theorem mantissaFields_withCoded (h : frame.IsCodable) :
    frame.withCoded.mantissaFields = frame.rows.flatMap fun row =>
      (List.range frame.usedUnits).flatMap fun i =>
        unitFields (row.1.getD i 0) (codeUnit (row.1.getD i 0) row.2.blocks[i]?) := by
  have hlengths : frame.withCoded.lengths = frame.lengths := rfl
  rw [Frame.mantissaFields, mantissas_withCoded, kinds_withCoded, hlengths]
  refine flatMap_zipIdx_map fun channel row hrow => ?_
  dsimp only
  rw [h.getD_lengths hrow, getD_map_of_getElem? hrow, channelMantissas, codeUnits_eq, List.map_map]
  refine flatMap_zipIdx_map fun i j hj => ?_
  obtain rfl := eq_of_getElem?_range hj
  dsimp only
  rw [kindsInUse, getD_map_of_getElem? hj]
  rfl

/-- The word lengths of the units in use of a channel. -/
def lengthsInUse (used : Nat) (row : List Nat × Channel) : List Nat :=
  (List.range used).map fun i => row.1.getD i 0

theorem map_length_shapes (frame : Frame) :
    frame.shapes.map (·.map (·.length)) = frame.rows.map (lengthsInUse frame.usedUnits) := by
  rw [Frame.shapes, List.map_map]
  exact List.map_congr_left fun _ _ => List.map_map

theorem Frame.IsCodable.take_eq (h : frame.IsCodable) {row : List Nat × Channel}
    (hrow : row ∈ frame.rows) : row.1.take frame.usedUnits = lengthsInUse frame.usedUnits row :=
  take_eq_map_range (h.covered _ (mem_lengths hrow)) 0

/-- Writer and reader know the same of the first channel. -/
theorem Frame.IsCodable.exists_first (h : frame.IsCodable) {row : List Nat × Channel}
    (hrow : row ∈ frame.rows) : ∃ first : Nat → Nat,
      (frame.lengths.headD []).take frame.usedUnits = (List.range frame.usedUnits).map first ∧
        (frame.rows.map (lengthsInUse frame.usedUnits)).headD [] =
          (List.range frame.usedUnits).map first := by
  obtain ⟨head, rows, heq⟩ := List.exists_cons_of_ne_nil (List.ne_nil_of_mem hrow)
  have hhead : head ∈ frame.rows := heq ▸ List.mem_cons_self
  refine ⟨fun i => head.1.getD i 0, ?_, ?_⟩
  · rw [← h.map_fst_rows, heq]
    exact h.take_eq hhead
  · rw [heq]
    rfl

/-- The fields of the kinds of a channel. -/
def channelKinds (frame : Frame) (entry : (List Nat × Channel) × Nat) : Fields :=
  channelKindFields (entry.2 == 0) (entry.1.1.take frame.usedUnits)
    ((frame.lengths.headD []).take frame.usedUnits) (kindsInUse frame.usedUnits entry.1)

theorem kindFields_withCoded (h : frame.IsCodable) :
    kindFields frame.usedUnits frame.lengths frame.withCoded.kinds =
      ⟨0, 1⟩ :: frame.rows.zipIdx.flatMap (channelKinds frame) := by
  have hzip : frame.lengths.zip (frame.rows.map (kindsInUse frame.usedUnits)) =
      frame.rows.map fun row => (row.1, kindsInUse frame.usedUnits row) := by
    rw [← h.map_fst_rows, List.zip_map']
  unfold kindFields
  dsimp only
  rw [kinds_withCoded, hzip, List.zipIdx_map, List.flatMap_map]
  rfl

theorem readsBack_kinds (h : frame.IsCodable) (hused : frame.usedUnits ≠ 0) :
    ReadsBack (readKinds frame.usedUnits (frame.shapes.map (·.map (·.length))))
      (kindFields frame.usedUnits frame.lengths frame.withCoded.kinds) frame.withCoded.kinds := by
  -- a channel is read by its word lengths and its number, which says whether it is the first
  have hrows : ReadsBack
      ((frame.rows.zipIdx.map (Prod.map (lengthsInUse frame.usedUnits) id)).mapM
        fun (row, channel) => readChannelKinds (channel == 0) row
          ((frame.rows.map (lengthsInUse frame.usedUnits)).headD []))
      (frame.rows.zipIdx.flatMap (channelKinds frame))
      (frame.rows.zipIdx.map (kindsInUse frame.usedUnits ∘ Prod.fst)) := by
    refine .flatMap (Prod.map (lengthsInUse frame.usedUnits) id) ?_
    rintro ⟨row, channel⟩ hentry
    have hrow : row ∈ frame.rows := List.fst_mem_of_mem_zipIdx hentry
    obtain ⟨first, hfirst, hhead⟩ := h.exists_first hrow
    unfold channelKinds
    dsimp only [Prod.map]
    rw [hhead, hfirst, h.take_eq hrow]
    exact readsBack_channelKinds _ fun i => kind_codeUnit _ _
  rw [← List.map_map, List.zipIdx_map_fst, ← kinds_withCoded, ← List.zipIdx_map] at hrows
  rw [kindFields_withCoded h, map_length_shapes, readKinds, if_neg hused]
  exact (readsBack_expect (by decide) (by decide)).cons hrows

theorem readsBack_units (h : frame.IsCodable) :
    ReadsBack
      ((frame.shapes.zip frame.withCoded.kinds).mapM fun (row, ks) =>
        (row.zip ks).mapM fun (shape, kind) => readUnit shape kind)
      frame.withCoded.mantissaFields frame.coded := by
  have hzip : frame.shapes.zip frame.withCoded.kinds = frame.rows.map fun row =>
      ((List.range frame.usedUnits).map fun i => unitShape (row.1.getD i 0) row.2.blocks[i]?,
        kindsInUse frame.usedUnits row) := by
    rw [kinds_withCoded, Frame.shapes, List.zip_map']
  rw [hzip, mantissaFields_withCoded h]
  refine .flatMap _ fun row hrow => ?_
  dsimp only
  rw [kindsInUse, List.zip_map']
  exact .flatMap (fun i => (unitShape (row.1.getD i 0) row.2.blocks[i]?,
    (codeUnit (row.1.getD i 0) row.2.blocks[i]?).kind)) fun i _ =>
      readsBack_unit (h.getD_le hrow i) (h.unit row hrow i)

/-! ### The two stages -/

/-- The fields of the kinds of words, of which there are none when no unit is in use. -/
def Frame.kindFields (frame : Frame) : Fields :=
  if frame.usedUnits = 0 then []
  else Atrac3Plus.kindFields frame.usedUnits frame.lengths frame.withCoded.kinds

theorem readsBack_spectrum (h : frame.IsCodable) :
    ReadsBack (readSpectrum frame.usedUnits frame.shapes)
      (frame.kindFields ++ frame.withCoded.mantissaFields) frame.coded := by
  have hkinds : ReadsBack (readKinds frame.usedUnits (frame.shapes.map (·.map (·.length))))
      frame.kindFields frame.withCoded.kinds := by
    unfold Frame.kindFields
    by_cases hused : frame.usedUnits = 0
    · rw [if_pos hused, readKinds, if_pos hused, kinds_withCoded, hused, List.map_map,
        Frame.shapes, List.map_map]
      exact .pure _
    · rw [if_neg hused]
      exact readsBack_kinds h hused
  exact hkinds.append (readsBack_units h)

theorem Frame.IsCodable.of_ne_zero (h : frame.IsCodable) {row : List Nat × Channel}
    (hrow : row ∈ frame.rows) {i : Nat} (hi : row.1.getD i 0 ≠ 0) :
    i < frame.usedUnits ∧ i < row.2.blocks.length := by
  refine ⟨Nat.lt_of_not_le fun hle => hi (h.silent _ (mem_lengths hrow) i hle), ?_⟩
  obtain ⟨b, hb, -⟩ := h.unit row hrow i hi
  exact (List.getElem?_eq_some_iff.1 hb).1

theorem hasFixedWords_of_le {l : Nat} (h : l ≤ greatestLength) : hasFixedWords l = true :=
  decide_eq_true (Nat.lt_succ_of_le h)

theorem canCode_of_isCodable (h : frame.IsCodable) {row : List Nat × Channel}
    (hrow : row ∈ frame.rows) : canCode frame.usedUnits row.1 row.2.blocks = true := by
  refine Bool.and_eq_true_iff.2
    ⟨decide_eq_true (h.covered _ (Frame.IsCodable.mem_lengths hrow)), List.all_eq_true.2 ?_⟩
  rintro ⟨l, i⟩ hentry
  have hget : (row.1.take frame.usedUnits)[i]? = some l := List.mk_mem_zipIdx_iff_getElem?.1 hentry
  have hi : i < frame.usedUnits := by
    have hlt := (List.getElem?_eq_some_iff.1 hget).1
    rw [List.length_take] at hlt
    omega
  rw [List.getElem?_take_of_lt hi] at hget
  have hl : row.1.getD i 0 = l := by
    rw [List.getD_eq_getElem?_getD, hget, Option.getD_some]
  by_cases hsilent : l = 0
  · exact Bool.or_eq_true_iff.2 (.inl (beq_iff_eq.2 hsilent))
  · have hle := h.getD_le hrow i
    rw [← hl] at hsilent
    rw [hl] at hle
    have hblock := (h.of_ne_zero hrow hsilent).2
    exact Bool.or_eq_true_iff.2
      (.inr (Bool.and_eq_true_iff.2 ⟨hasFixedWords_of_le hle, decide_eq_true hblock⟩))

theorem coded_of_silent (h : frame.IsCodable) (hused : frame.usedUnits = 0) :
    frame.coded = frame.channels.map fun _ => [] := by
  have hchannels : frame.channels = frame.rows.map Prod.snd :=
    (List.map_snd_zip (Nat.le_of_eq h.rows.symm)).symm
  rw [Frame.coded, hused, hchannels, List.map_map]
  rfl

/-- The first stage decides on the kinds and the mantissas. -/
theorem work_choosingKinds {κ : Type} (h : frame.IsCodable) (memory : Fields) :
    (choosingKinds : Stage κ Frame Fields).work frame memory =
      .done { frame := frame.withCoded, memory := frame.kindFields, verdict := .ok .proceed } := by
  simp only [choosingKinds, plainStage]
  by_cases hused : frame.usedUnits = 0
  · rw [if_pos hused, Frame.kindFields, if_pos hused, Frame.withCoded, coded_of_silent h hused,
      List.map_map, List.map_map]
    rfl
  · have hcan : frame.channels.length ≤ frame.lengths.length ∧
        (frame.lengths.zip frame.channels).all
          (fun (ls, ch) => canCode frame.usedUnits ls ch.blocks) = true :=
      ⟨Nat.le_of_eq h.rows.symm, List.all_eq_true.2 fun row hrow => canCode_of_isCodable h hrow⟩
    rw [if_neg hused, if_pos hcan, Frame.kindFields, if_neg hused]
    rfl

theorem canWrite_of_le {lengths kinds : List Nat} {units : List (List Int)}
    (hlengths : units.length ≤ lengths.length) (hkinds : units.length ≤ kinds.length)
    (hle : ∀ l ∈ lengths, l ≤ greatestLength) : canWrite lengths kinds units = true := by
  refine List.all_eq_true.2 fun i hi => ?_
  have hlt := List.mem_range.1 hi
  rw [List.getElem?_eq_getElem (Nat.lt_of_lt_of_le hlt hlengths),
    List.getElem?_eq_getElem (Nat.lt_of_lt_of_le hlt hkinds)]
  dsimp only
  rw [hasFixedWords_of_le (hle _ (List.getElem_mem _)), Bool.or_true, Bool.or_true]

theorem canWrite_withCoded (h : frame.IsCodable) : frame.withCoded.canWrite = true := by
  refine List.all_eq_true.2 ?_
  rintro ⟨units, channel⟩ hentry
  have hget := List.mk_mem_zipIdx_iff_getElem?.1 hentry
  rw [mantissas_withCoded, List.getElem?_map] at hget
  obtain ⟨row, hrow, rfl⟩ := Option.map_eq_some_iff.1 hget
  have hmem : row.1 ∈ frame.lengths := Frame.IsCodable.mem_lengths (List.mem_of_getElem? hrow)
  have hlengths : frame.withCoded.lengths.getD channel [] = row.1 := h.getD_lengths hrow
  dsimp only
  rw [hlengths, kinds_withCoded, getD_map_of_getElem? hrow]
  refine canWrite_of_le ?_ ?_ (h.length _ hmem)
  · rw [List.length_map, codeUnits_eq, List.length_map, List.length_range]
    exact h.covered _ hmem
  · rw [List.length_map, codeUnits_eq, List.length_map, kindsInUse, List.length_map]

/-- The next stage writes the mantissas, whatever becomes of the search. -/
theorem run_writingMantissas {κ : Type} [Dial κ] (h : frame.IsCodable) (memory : Fields)
    (position spent : Nat) (desk : Desk κ) :
    ∃ after verdict desk',
      ((writingMantissas : Stage κ Frame Fields).work frame.withCoded memory).run position spent
          desk =
        ({ frame := after, memory := frame.withCoded.mantissaFields, verdict := .ok verdict },
          desk') := by
  simp only [writingMantissas, if_pos (canWrite_withCoded h), Negotiation.run]
  split
  · exact ⟨_, _, _, rfl⟩
  · exact ⟨_, _, _, rfl⟩

/-- **A spectrum is written without loss, and every unit in the shorter kind of words.** The first
stage remembers the kinds of words and the second one the mantissas, and the decoder takes exactly
their bits for the units coded. The mantissas of a unit that is not silent are the quantised values
of its block; each of them has a word, and they take the fewer bits of those in words of fixed and
those in words of variable length. -/
theorem readSpectrum_written {κ : Type} [Dial κ] (h : frame.IsCodable) :
    (∀ memory, (choosingKinds : Stage κ Frame Fields).work frame memory =
      .done { frame := frame.withCoded, memory := frame.kindFields, verdict := .ok .proceed }) ∧
    (∀ memory position spent (desk : Desk κ), ∃ after verdict desk',
      ((writingMantissas : Stage κ Frame Fields).work frame.withCoded memory).run position spent
          desk =
        ({ frame := after, memory := frame.withCoded.mantissaFields, verdict := .ok verdict },
          desk')) ∧
    Decodes (readSpectrum frame.usedUnits frame.shapes)
      (frame.kindFields.emit ++ frame.withCoded.mantissaFields.emit) frame.coded ∧
    (frame.withCoded.mantissaFields = frame.rows.flatMap fun row =>
      (List.range frame.usedUnits).flatMap fun i =>
        unitFields (row.1.getD i 0) (codeUnit (row.1.getD i 0) row.2.blocks[i]?)) ∧
    ∀ row ∈ frame.rows, ∀ i, row.1.getD i 0 ≠ 0 →
      i < frame.usedUnits ∧ ∃ (b : ScaledBlock) (ms : List Int) (words : List Codeword),
        row.2.blocks[i]? = some b ∧
        ms = quantise b.values (row.1.getD i 0) ∧
        (codeUnit (row.1.getD i 0) (some b)).mantissas = ms ∧
        Atrac3.wordsIn (codebook (row.1.getD i 0)) ms = words.map some ∧
        (unitFields (row.1.getD i 0) (codeUnit (row.1.getD i 0) (some b))).length = ms.length ∧
        Fields.cost (unitFields (row.1.getD i 0) (codeUnit (row.1.getD i 0) (some b))) =
          min (fixedWidth (row.1.getD i 0) * ms.length) (words.map (·.width)).sum := by
  refine ⟨work_choosingKinds h, run_writingMantissas h, ?_, mantissaFields_withCoded h,
    fun row hrow i hi => ⟨(h.of_ne_zero hrow hi).1, ?_⟩⟩
  · rw [← Fields.emit_append]
    exact (readsBack_spectrum h).decodes
  · obtain ⟨b, hb, hms⟩ := h.unit row hrow i hi
    have hle := h.getD_le hrow i
    have hunit : codeUnit (row.1.getD i 0) (some b) =
        ⟨chooseKind (row.1.getD i 0) (quantise b.values (row.1.getD i 0)),
          quantise b.values (row.1.getD i 0)⟩ := if_neg hi
    refine ⟨b, _, _, hb, rfl, by rw [hunit], wordsIn_codebook hi hle hms, ?_, ?_⟩
    · rw [hunit, unitFields, mantissaFields_eq hi hle _ hms, List.length_map]
    · rw [hunit, unitFields, cost_mantissaFields hi hle hms, variableCost, List.map_map]
      rfl

end Frames

theorem Frame.isCodable_of_length {frame : Frame}
    (hrows : frame.lengths.length = frame.channels.length)
    (hused : ∀ row ∈ frame.lengths, row.length = frame.usedUnits)
    (hlength : ∀ row ∈ frame.lengths, ∀ l ∈ row, l ≤ greatestLength)
    (hunit : ∀ row ∈ frame.rows, ∀ i < frame.usedUnits,
      IsUnit (row.1.getD i 0) row.2.blocks[i]?) : frame.IsCodable := by
  have hsilent : ∀ row ∈ frame.lengths, ∀ i, frame.usedUnits ≤ i → row.getD i 0 = 0 := by
    intro row hrow i hi
    rw [← hused row hrow] at hi
    rw [List.getD_eq_getElem?_getD, List.getElem?_eq_none hi, Option.getD_none]
  refine ⟨hrows, fun row hrow => Nat.le_of_eq (hused row hrow).symm, hlength, hsilent,
    fun row hrow i hne => ?_⟩
  exact hunit row hrow i (Nat.lt_of_not_le fun hle =>
    hne (hsilent _ (Frame.IsCodable.mem_lengths hrow) i hle)) hne

/-- Two channels with three units in use. The second one says of the first unit, which only the
first channel has, that it is not a copy. The two kinds of words cost the same for the mantissas of
word length one, which then take words of fixed length. -/
theorem readSpectrum_written_duet :
    let block (values : List Float32) : ScaledBlock := ⟨45, values, 1⟩
    let frame : Frame :=
      { size := 1024, thresholds := [], loudness := 1
        channels :=
          [⟨[block [0.5, 0], block [], block [0.75, 0]], 1, []⟩,
            ⟨[block [], block [], block [0.5, -0.5]], 1, []⟩]
        usedUnits := 3
        lengths := [[2, 0, 1], [0, 0, 7]] }
    frame.IsCodable ∧
      frame.kindFields =
        [⟨0, 1⟩, ⟨0, 1⟩, ⟨0, 2⟩, ⟨0, 1⟩, ⟨1, 2⟩, ⟨0, 2⟩, ⟨0, 1⟩, ⟨0, 2⟩, ⟨0, 1⟩, ⟨1, 1⟩, ⟨0, 2⟩] ∧
      Decodes (readSpectrum 3 frame.shapes)
        (frame.kindFields.emit ++ frame.withCoded.mantissaFields.emit)
        [[⟨variableKind, [1, 0]⟩, {}, ⟨fixedKind, [1, 0]⟩],
          [{}, {}, ⟨fixedKind, [16, -16]⟩]] := by
  intro block frame
  have hframe : frame.IsCodable :=
    Frame.isCodable_of_length rfl (by decide) (by decide) (by decide +kernel)
  have hcoded : frame.coded = [[⟨variableKind, [1, 0]⟩, {}, ⟨fixedKind, [1, 0]⟩],
      [{}, {}, ⟨fixedKind, [16, -16]⟩]] := by decide +kernel
  refine ⟨hframe, by decide +kernel, ?_⟩
  rw [← hcoded]
  exact (readSpectrum_written (κ := Float32) hframe).2.2.1

end Atrac3Plus

end SpectralCoding
