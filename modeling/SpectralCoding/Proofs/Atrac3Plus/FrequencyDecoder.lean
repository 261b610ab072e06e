import SpectralCoding.Atrac3Plus.FrequencyPack
import SpectralCoding.Proofs.Atrac3Plus.FieldDecoder

/-!
# Reading frequencies back

How wide the field of an index is depends on the index before it. A decoder knows that one by then,
so that it needs nothing but the direction and the number of the indices.

* `Atrac3Plus.packFrequencies?` : packing in numbers of sixteen bits, none of which may overflow.
* `Atrac3Plus.readFrequencies` : the decoder.
* `Direction.IsSound` : what holds of an index after the one before it: `isSound_upward`,
  `isSound_downward`.
* `Direction.IsSoundRow.readsBack` : what holds of each index after the one before holds of the row.
* `Atrac3Plus.readFrequencies_packFrequencies` : **ascending indices are packed without overflow in
  the shorter of the two ways, and read back.**
-/

namespace SpectralCoding

namespace Atrac3Plus

/-! ### Sixteen bits -/

/-- A sum, if it has no more than sixteen bits. -/
def add16? (a b : Nat) : Option Nat := if a + b < 2 ^ 16 then some (a + b) else none

/-- A difference, if it is not below zero. -/
def sub16? (a b : Nat) : Option Nat := if b ≤ a then some (a - b) else none

/-- One moved up by `n` bits, if it is not moved out of sixteen. -/
def shift16? (n : Nat) : Option Nat := if n < 16 then some (2 ^ n) else none

/-- The number of binary digits, one for zero, as counted from the zeros in front of them: the
logarithm is what these leave of fifteen. -/
def digits16? (n : Nat) : Option Nat :=
  if n = 0 then add16? 0 1 else do add16? (← sub16? 15 (16 - digits n)) 1

/-- The field of index `f` upwards after `previous`, if no number overflows. -/
def upField? (previous : Option Nat) (f : Nat) : Option Field :=
  match previous with
  | none => some ⟨f, frequencyWidth⟩
  | some p =>
    if p < 512 then some ⟨f, frequencyWidth⟩
    else do
      let width ← digits16? (← sub16? 1023 p)
      let raised ← add16? f (← shift16? width)
      return ⟨← sub16? raised 1024, width⟩

/-- The field of index `f` downwards after `previous`, if no number overflows. -/
def downField? (previous : Option Nat) (f : Nat) : Option Field :=
  match previous with
  | none => some ⟨f, frequencyWidth⟩
  | some p => (digits16? p).map (⟨f, ·⟩)

/-- The fields of indices, each made from the index before it, if no number overflows. -/
def packFrom? (field? : Option Nat → Nat → Option Field) :
    (previous : Option Nat) → List Nat → Option Fields
  | _, [] => some []
  | previous, f :: fs => do
    let field ← field? previous f
    let fields ← packFrom? field? (some f) fs
    return field :: fields

/-- Ascending indices written in the shorter way, if no number overflows. -/
def packFrequencies? (fs : List Nat) : Option FrequencyPack := do
  let up ← packFrom? upField? none fs
  let upBits := Fields.cost up
  if 1 < fs.length then
    let down ← packFrom? downField? none fs.reverse
    let downBits := Fields.cost down
    if downBits ≤ upBits then return ⟨down, downBits, true⟩
  return ⟨up, upBits, false⟩

/-! ### The decoder -/

/-- Read an index upwards after `previous`. -/
def readUp (previous : Option Nat) : Decoder Nat :=
  match previous with
  | none => .field 10
  | some p =>
    if p < 512 then .field 10
    else
      let width := Nat.log2 (1023 - p) + 1
      (· + (1024 - 2 ^ width)) <$> .field width

/-- Read an index downwards after `previous`. -/
def readDown (previous : Option Nat) : Decoder Nat :=
  match previous with
  | none => .field 10
  | some p => .field (Nat.log2 p + 1)

/-- Read `count` indices, each after the one before it. -/
def readFrom (read : Option Nat → Decoder Nat) :
    (previous : Option Nat) → (count : Nat) → Decoder (List Nat)
  | _, 0 => pure []
  | previous, count + 1 => do
    let f ← read previous
    let fs ← readFrom read (some f) count
    return f :: fs

/-- Read `count` indices that are written downwards or upwards. -/
def readFrequencies (isDown : Bool) (count : Nat) : Decoder (List Nat) :=
  if isDown then List.reverse <$> readFrom readDown none count else readFrom readUp none count

/-! ### One index after the other -/

/-- A way of writing and reading an index after the one before it. -/
structure Direction where
  field : Option Nat → Nat → Field
  field? : Option Nat → Nat → Option Field
  read : Option Nat → Decoder Nat

namespace Direction

variable {w : Direction} {previous : Option Nat} {f : Nat} {fs : List Nat}

/-- No number overflows when index `f` is written after `previous`, and it is read back. -/
structure IsSound (w : Direction) (previous : Option Nat) (f : Nat) : Prop where
  checked : w.field? previous f = some (w.field previous f)
  readsBack : ReadsBack (w.read previous) [w.field previous f] f

/-- Every index of a row can stand behind each of those before it. -/
structure IsSoundRow (w : Direction) (previous : Option Nat) (fs : List Nat) : Prop where
  first : ∀ f ∈ fs, w.IsSound previous f
  pairs : fs.Pairwise fun p f => w.IsSound (some p) f

theorem IsSoundRow.of_cons (h : w.IsSoundRow previous (f :: fs)) :
    w.IsSound previous f ∧ w.IsSoundRow (some f) fs := by
  obtain ⟨hnext, hrest⟩ := List.pairwise_cons.1 h.pairs
  exact ⟨h.first f List.mem_cons_self, ⟨hnext, hrest⟩⟩

theorem IsSoundRow.checked (h : w.IsSoundRow previous fs) :
    packFrom? w.field? previous fs = some (packFrom w.field previous fs) := by
  induction fs generalizing previous with
  | nil => rfl
  | cons f fs ih =>
    obtain ⟨hf, hfs⟩ := h.of_cons
    rw [packFrom?, hf.checked, Option.bind_eq_bind, Option.bind_some, ih hfs]
    rfl

/-- What is written of a row is read back: the decoder has each index when it comes to the next. -/
theorem IsSoundRow.readsBack (h : w.IsSoundRow previous fs) :
    ReadsBack (readFrom w.read previous fs.length) (packFrom w.field previous fs) fs := by
  induction fs generalizing previous with
  | nil => exact .pure []
  | cons f fs ih =>
    obtain ⟨hf, hfs⟩ := h.of_cons
    exact hf.readsBack.cons ((ih hfs).bind_pure (f :: ·))

end Direction

theorem lt_two_pow_digits (n : Nat) : n < 2 ^ digits n := Nat.lt_log2_self

theorem digits_le {n k : Nat} (hk : 0 < k) (h : n < 2 ^ k) : digits n ≤ k := by
  by_cases hn : n = 0
  · subst hn
    exact hk
  · exact (Nat.log2_lt hn).2 h

theorem digits16?_eq {n : Nat} (h : n ≤ 1023) : digits16? n = some (digits n) := by
  have hdigits : digits n ≤ 10 := digits_le (by decide) (by omega)
  have hpos : 0 < digits n := Nat.succ_pos _
  unfold digits16?
  by_cases hn : n = 0
  · subst hn
    rfl
  · have hzeros : sub16? 15 (16 - digits n) = some (digits n - 1) := by
      rw [sub16?, if_pos (by omega), show 15 - (16 - digits n) = digits n - 1 by omega]
    have hsum : add16? (digits n - 1) 1 = some (digits n) := by
      rw [add16?, if_pos (by omega), Nat.sub_add_cancel hpos]
    rw [if_neg hn, hzeros]
    exact hsum

/-- Upwards. -/
def upward : Direction := ⟨upField, upField?, readUp⟩

/-- Downwards. -/
def downward : Direction := ⟨downField, downField?, readDown⟩

theorem isSound_none {f : Nat} (hf : f ≤ 1023) :
    upward.IsSound none f ∧ downward.IsSound none f := by
  have hread : ReadsBack (.field 10) [⟨f, frequencyWidth⟩] f :=
    readsBack_field (by decide) (Nat.lt_succ_of_le hf)
  exact ⟨⟨rfl, hread⟩, ⟨rfl, hread⟩⟩

section Up

variable {p f : Nat}

/-- From 512 on only the last `1024 - p` indices are left, and the field has room for so many. -/
theorem room_upward (hp : ¬p < 512) :
    digits (1023 - p) ≤ 9 ∧ 2 ^ digits (1023 - p) ≤ 2 ^ 9 ∧ 1023 - p < 2 ^ digits (1023 - p) := by
  have hwidth : digits (1023 - p) ≤ 9 := digits_le (by decide) (by omega)
  exact ⟨hwidth, Nat.pow_le_pow_right (by decide) hwidth, lt_two_pow_digits _⟩

theorem upField?_of_ge (hp : ¬p < 512) (hle : p ≤ f) (hf : f ≤ 1023) :
    upField? (some p) f = some ⟨f + 2 ^ digits (1023 - p) - 1024, digits (1023 - p)⟩ := by
  obtain ⟨hwidth, hmost, hroom⟩ := room_upward hp
  have hdistance : sub16? 1023 p = some (1023 - p) := if_pos (by omega)
  have hshift : shift16? (digits (1023 - p)) = some (2 ^ digits (1023 - p)) := if_pos (by omega)
  have hsum : add16? f (2 ^ digits (1023 - p)) = some (f + 2 ^ digits (1023 - p)) :=
    if_pos (by omega)
  have hvalue : sub16? (f + 2 ^ digits (1023 - p)) 1024 =
      some (f + 2 ^ digits (1023 - p) - 1024) := if_pos (by omega)
  simp only [upField?, if_neg hp, hdistance, digits16?_eq (Nat.sub_le 1023 p), hshift, hsum,
    hvalue, Option.bind_eq_bind, Option.bind_some]
  rfl

/-- Behind `p` there is room for every index from `p` on. -/
theorem isSound_upward (hle : p ≤ f) (hf : f ≤ 1023) : upward.IsSound (some p) f := by
  by_cases hp : p < 512
  · have hchecked : upField? (some p) f = some ⟨f, 10⟩ := if_pos hp
    have hfield : upField (some p) f = ⟨f, 10⟩ := if_pos hp
    have hread : readUp (some p) = .field 10 := if_pos hp
    refine ⟨hchecked.trans (congrArg some hfield.symm), ?_⟩
    show ReadsBack (readUp (some p)) [upField (some p) f] f
    rw [hread, hfield]
    exact readsBack_field (by decide) (Nat.lt_succ_of_le hf)
  · obtain ⟨hwidth, hmost, hroom⟩ := room_upward hp
    have hchecked := upField?_of_ge hp hle hf
    have hfield : upField (some p) f =
        ⟨f + 2 ^ digits (1023 - p) - 1024, digits (1023 - p)⟩ := if_neg hp
    have hread : readUp (some p) =
        (· + (1024 - 2 ^ digits (1023 - p))) <$> .field (digits (1023 - p)) := if_neg hp
    generalize digits (1023 - p) = width at *
    refine ⟨hchecked.trans (congrArg some hfield.symm), ?_⟩
    have hback : ReadsBack (.field width) [⟨f + 2 ^ width - 1024, width⟩] (f + 2 ^ width - 1024) :=
      readsBack_field (by omega) (by omega)
    have hraised := hback.map (· + (1024 - 2 ^ width))
    rw [show f + 2 ^ width - 1024 + (1024 - 2 ^ width) = f by omega] at hraised
    show ReadsBack (readUp (some p)) [upField (some p) f] f
    rwa [hread, hfield]

end Up

theorem isSound_downward {p f : Nat} (hle : f ≤ p) (hp : p ≤ 1023) :
    downward.IsSound (some p) f where
  checked := congrArg (Option.map _) (digits16?_eq hp)
  readsBack := by
    refine readsBack_field ?_ (Nat.lt_of_le_of_lt hle (lt_two_pow_digits p))
    exact Nat.le_trans (digits_le (k := 10) (by decide) (Nat.lt_succ_of_le hp)) (by decide)

/-! ### Rows -/

section Rows

variable {fs : List Nat}

theorem isSoundRow_upward (hascending : fs.Pairwise (· ≤ ·)) (hrange : ∀ f ∈ fs, f ≤ 1023) :
    upward.IsSoundRow none fs where
  first f hf := (isSound_none (hrange f hf)).1
  pairs := hascending.imp_of_mem fun _ hf hle => isSound_upward hle (hrange _ hf)

theorem isSoundRow_downward (hascending : fs.Pairwise (· ≤ ·)) (hrange : ∀ f ∈ fs, f ≤ 1023) :
    downward.IsSoundRow none fs.reverse where
  first f hf := (isSound_none (hrange f (List.mem_reverse.1 hf))).2
  pairs := by
    refine List.pairwise_reverse.2 (hascending.imp_of_mem fun _ hp hle => ?_)
    exact isSound_downward hle (hrange _ hp)

theorem packFrequencies?_eq (hascending : fs.Pairwise (· ≤ ·)) (hrange : ∀ f ∈ fs, f ≤ 1023) :
    packFrequencies? fs = some (packFrequencies fs) := by
  have hup : packFrom? upField? none fs = some (packUp fs) :=
    (isSoundRow_upward hascending hrange).checked
  have hdown : packFrom? downField? none fs.reverse = some (packDown fs) :=
    (isSoundRow_downward hascending hrange).checked
  unfold packFrequencies? packFrequencies
  simp only [hup, hdown, Option.bind_eq_bind, Option.bind_some]
  by_cases hmany : 1 < fs.length
  · by_cases hcost : Fields.cost (packDown fs) ≤ Fields.cost (packUp fs)
    · rw [if_pos hmany, if_pos hcost, if_pos ⟨hmany, hcost⟩]
      rfl
    · rw [if_pos hmany, if_neg hcost, if_neg fun h => hcost h.2]
      rfl
  · rw [if_neg hmany, if_neg fun h => hmany h.1]
    rfl

theorem packFrequencies_cases (fs : List Nat) :
    (1 < fs.length ∧ Fields.cost (packDown fs) ≤ Fields.cost (packUp fs)) ∧
        packFrequencies fs = ⟨packDown fs, Fields.cost (packDown fs), true⟩ ∨
      ¬(1 < fs.length ∧ Fields.cost (packDown fs) ≤ Fields.cost (packUp fs)) ∧
        packFrequencies fs = ⟨packUp fs, Fields.cost (packUp fs), false⟩ := by
  by_cases h : 1 < fs.length ∧ Fields.cost (packDown fs) ≤ Fields.cost (packUp fs)
  · exact .inl ⟨h, if_pos h⟩
  · exact .inr ⟨h, if_neg h⟩

/-- The way that is taken, and the fields it gives. -/
theorem packFrequencies_choice (fs : List Nat) :
    ((packFrequencies fs).isDown = true ↔
        1 < fs.length ∧ Fields.cost (packDown fs) ≤ Fields.cost (packUp fs)) ∧
      (packFrequencies fs).fields =
        if (packFrequencies fs).isDown then packDown fs else packUp fs := by
  obtain ⟨h, hdown⟩ | ⟨h, hup⟩ := packFrequencies_cases fs
  · rw [hdown]
    exact ⟨iff_of_true rfl h, rfl⟩
  · rw [hup]
    exact ⟨iff_of_false Bool.false_ne_true h, rfl⟩

theorem usedBits_packFrequencies (fs : List Nat) :
    (packFrequencies fs).usedBits = ((packFrequencies fs).fields.map (·.width)).sum := by
  obtain ⟨-, hpack⟩ | ⟨-, hpack⟩ := packFrequencies_cases fs <;>
    rw [hpack] <;> rfl

theorem packDown_eq_packUp (h : ¬1 < fs.length) : packDown fs = packUp fs := by
  cases fs with
  | nil => rfl
  | cons f fs =>
    have hnil : fs = [] := List.eq_nil_of_length_eq_zero (by rw [List.length_cons] at h; omega)
    subst hnil
    rfl

theorem cost_packFrequencies (fs : List Nat) :
    Fields.cost (packFrequencies fs).fields =
      min (Fields.cost (packUp fs)) (Fields.cost (packDown fs)) := by
  obtain ⟨hchoice, hfields⟩ := packFrequencies_choice fs
  rw [hfields]
  by_cases hdown : (packFrequencies fs).isDown = true
  · rw [if_pos hdown, Nat.min_eq_right (hchoice.1 hdown).2]
  · rw [if_neg hdown]
    by_cases hmany : 1 < fs.length
    · have hlt : ¬Fields.cost (packDown fs) ≤ Fields.cost (packUp fs) := fun hle =>
        hdown (hchoice.2 ⟨hmany, hle⟩)
      rw [Nat.min_eq_left (Nat.le_of_lt (Nat.not_le.1 hlt))]
    · rw [packDown_eq_packUp hmany, Nat.min_self]

theorem readsBack_packUp (hascending : fs.Pairwise (· ≤ ·)) (hrange : ∀ f ∈ fs, f ≤ 1023) :
    ReadsBack (readFrequencies false fs.length) (packUp fs) fs :=
  (isSoundRow_upward hascending hrange).readsBack

theorem readsBack_packDown (hascending : fs.Pairwise (· ≤ ·)) (hrange : ∀ f ∈ fs, f ≤ 1023) :
    ReadsBack (readFrequencies true fs.length) (packDown fs) fs := by
  have hback := (isSoundRow_downward hascending hrange).readsBack.map List.reverse
  rwa [List.reverse_reverse, List.length_reverse] at hback

theorem readsBack_packFrequencies (hascending : fs.Pairwise (· ≤ ·)) (hrange : ∀ f ∈ fs, f ≤ 1023) :
    ReadsBack (readFrequencies (packFrequencies fs).isDown fs.length) (packFrequencies fs).fields
      fs := by
  rw [(packFrequencies_choice fs).2]
  cases (packFrequencies fs).isDown with
  | false => exact readsBack_packUp hascending hrange
  | true => exact readsBack_packDown hascending hrange

/-- **Ascending indices are packed without overflow and read back.** Both ways are read back, and
the shorter one is taken; of two ways that are as long it is the one downwards, unless there is a
single index. -/
theorem readFrequencies_packFrequencies (hascending : fs.Pairwise (· ≤ ·))
    (hrange : ∀ f ∈ fs, f ≤ 1023) :
    packFrequencies? fs = some (packFrequencies fs) ∧
      (∀ f ∈ (packFrequencies fs).fields, f.value < 2 ^ f.width) ∧
      (packFrequencies fs).fields =
        (if (packFrequencies fs).isDown then packDown fs else packUp fs) ∧
      (packFrequencies fs).fields.emit.bits.length =
        ((packFrequencies fs).fields.map (·.width)).sum ∧
      (packFrequencies fs).usedBits = ((packFrequencies fs).fields.map (·.width)).sum ∧
      (packFrequencies fs).usedBits = min (Fields.cost (packUp fs)) (Fields.cost (packDown fs)) ∧
      ((packFrequencies fs).isDown = true ↔
        1 < fs.length ∧ Fields.cost (packDown fs) ≤ Fields.cost (packUp fs)) ∧
      Decodes (readFrequencies false fs.length) (packUp fs).emit fs ∧
      Decodes (readFrequencies true fs.length) (packDown fs).emit fs ∧
      Decodes (readFrequencies (packFrequencies fs).isDown fs.length)
        (packFrequencies fs).fields.emit fs := by
  have hback := readsBack_packFrequencies hascending hrange
  obtain ⟨hchoice, hfields⟩ := packFrequencies_choice fs
  exact ⟨packFrequencies?_eq hascending hrange, hback.fits, hfields, Fields.length_emit _,
    usedBits_packFrequencies fs, (usedBits_packFrequencies fs).trans (cost_packFrequencies fs),
    hchoice, (readsBack_packUp hascending hrange).decodes,
    (readsBack_packDown hascending hrange).decodes, hback.decodes⟩

end Rows

-- high indices that lie close together are cheaper upwards
example : packFrequencies [512, 1020, 1023] = ⟨[⟨512, 10⟩, ⟨508, 9⟩, ⟨3, 2⟩], 21, false⟩ := by
  decide

/-- Indices at the edges of the widths. -/
theorem readFrequencies_packFrequencies_edges :
    (packFrequencies [0, 0, 511, 512, 1023]).fields =
        [⟨1023, 10⟩, ⟨512, 10⟩, ⟨511, 10⟩, ⟨0, 9⟩, ⟨0, 1⟩] ∧
      (packFrequencies [0, 0, 511, 512, 1023]).usedBits = 40 ∧
      Decodes (readFrequencies true 5) (packFrequencies [0, 0, 511, 512, 1023]).fields.emit
        [0, 0, 511, 512, 1023] := by
  have hascending : [0, 0, 511, 512, 1023].Pairwise (· ≤ ·) := by decide
  obtain ⟨-, -, -, -, hused, -, -, -, -, hback⟩ :=
    readFrequencies_packFrequencies hascending (by decide)
  exact ⟨by decide, hused.trans (by decide), hback⟩

end Atrac3Plus

end SpectralCoding
