import Mathlib.Algebra.BigOperators.Field
import Mathlib.Algebra.BigOperators.Fin
import Mathlib.Algebra.Order.BigOperators.Group.Finset
import Mathlib.Algebra.Order.Field.Rat
import Mathlib.Tactic.Linarith
import Mathlib.Tactic.Positivity
import SpectralCoding.Proofs.Bits.Decoder

/-!
# Canonical code words

A word of `n` bits takes up the share `1 / 2 ^ n` of all words that are as long as one likes. If the
shares of a code are not more than the whole, canonical words never run out of room: the number of
a word fits its width, and every word lies behind all continuations of those before it.

* `kraftSum` : the shares of all words together.
* `exactFrom` : canonical words in numbers without a bound.
* `HasRoom` : the words that are still to come fit behind those that have been given out.
* `Precedes` : a word and all its continuations lie in front of another word.
* `pairwise_exactFrom`, `not_prefix_of_ne` : the words are in order, so that none begins another.
* `IsWidthAt`, `isWidthAt_exactFrom` : how wide the word at a place is.
* `HasRoom.next`, `canonicalFrom_eq` : sixteen bits are enough for fifteen widths.
-/

namespace SpectralCoding

namespace Codeword

/-- The share of all words that is taken up if there are `counts` words by width from one up. -/
def kraftSum (counts : List Nat) : ℚ := ∑ i : Fin counts.length, (counts[i] : ℚ) / 2 ^ (i.val + 1)

/-- The canonical words of widths `width` and up, the first of them `code`, in numbers without a
bound. -/
def exactFrom (code width : Nat) : (counts : List Nat) → List Codeword
  | [] => []
  | n :: counts =>
    (List.range n).map (fun i => ⟨code + i, width⟩) ++ exactFrom ((code + n) * 2) (width + 1) counts

/-- Words of widths `width` and up fit behind those of width `width` below `code`. -/
def HasRoom (code width : Nat) (counts : List Nat) : Prop :=
  (code : ℚ) + 2 * kraftSum counts ≤ 2 ^ width

/-- All continuations of `v` of the width of `w` are less than `w`, which is no shorter. -/
def Precedes (v w : Codeword) : Prop :=
  v.width ≤ w.width ∧ (v.code + 1) * 2 ^ (w.width - v.width) ≤ w.code

/-- In a code of `counts` words by width from one up, the word at `place` has `width` bits. -/
def IsWidthAt (counts : List Nat) (place width : Nat) : Prop :=
  (counts.take (width - 1)).sum ≤ place ∧ place < (counts.take width).sum

variable {code width n place : Nat} {counts : List Nat} {v w : Codeword}

/-! ### Room -/

theorem kraftSum_nonneg (counts : List Nat) : 0 ≤ kraftSum counts :=
  Finset.sum_nonneg fun _ _ => by positivity

@[simp] theorem kraftSum_nil : kraftSum [] = 0 := rfl

theorem two_mul_kraftSum_cons (n : Nat) (counts : List Nat) :
    2 * kraftSum (n :: counts) = n + kraftSum counts := by
  have hsplit : kraftSum (n :: counts) =
      (n : ℚ) / 2 + ∑ i : Fin counts.length, (counts[i] : ℚ) / 2 ^ (i.val + 1) / 2 := by
    refine (Fin.sum_univ_succ fun i : Fin (counts.length + 1) =>
      (((n :: counts)[i.val] : Nat) : ℚ) / 2 ^ (i.val + 1)).trans ?_
    simp only [Fin.val_zero, Fin.val_succ, List.getElem_cons_zero, List.getElem_cons_succ, pow_zero,
      pow_succ, div_mul_eq_div_div, div_one, Fin.getElem_fin]
  rw [hsplit, ← Finset.sum_div, kraftSum]
  linarith

/-- A word of each width and one more of the last take up all there is. -/
theorem kraftSum_replicate_one (k : Nat) : kraftSum (List.replicate k 1 ++ [2]) = 1 := by
  induction k with
  | zero =>
    have hsum := two_mul_kraftSum_cons 2 []
    rw [kraftSum_nil, Nat.cast_ofNat] at hsum
    show kraftSum [2] = 1
    linarith
  | succ k ih =>
    have hsum := two_mul_kraftSum_cons 1 (List.replicate k 1 ++ [2])
    rw [ih, Nat.cast_one] at hsum
    show kraftSum (1 :: (List.replicate k 1 ++ [2])) = 1
    linarith

/-- The words of the first width fit it. -/
theorem HasRoom.add_le (h : HasRoom code width (n :: counts)) : code + n ≤ 2 ^ width := by
  have hnonneg := kraftSum_nonneg counts
  rw [HasRoom, two_mul_kraftSum_cons] at h
  have hle : ((code + n : Nat) : ℚ) ≤ ((2 ^ width : Nat) : ℚ) := by
    push_cast
    linarith
  exact_mod_cast hle

/-- Behind the words of the first width there is room for the others. -/
theorem HasRoom.tail (h : HasRoom code width (n :: counts)) :
    HasRoom ((code + n) * 2) (width + 1) counts := by
  rw [HasRoom, two_mul_kraftSum_cons] at h
  rw [HasRoom, pow_succ]
  push_cast
  linarith

theorem hasRoom_zero (h : kraftSum counts ≤ 1) : HasRoom 0 1 counts := by
  rw [HasRoom]
  push_cast
  linarith

/-! ### Words in order -/

theorem le_of_mem_exactFrom (h : w ∈ exactFrom code width counts) :
    width ≤ w.width ∧ code * 2 ^ (w.width - width) ≤ w.code := by
  induction counts generalizing code width with
  | nil => cases h
  | cons n counts ih =>
    rcases List.mem_append.1 h with h | h
    · obtain ⟨i, -, rfl⟩ := List.mem_map.1 h
      simp
    · obtain ⟨hwidth, hcode⟩ := ih h
      have hstep : w.width - width = w.width - (width + 1) + 1 := by omega
      refine ⟨by omega, le_trans ?_ hcode⟩
      rw [hstep, pow_succ', ← mul_assoc]
      gcongr
      omega

theorem lt_of_mem_exactFrom (hroom : HasRoom code width counts)
    (h : w ∈ exactFrom code width counts) : w.code < 2 ^ w.width := by
  induction counts generalizing code width with
  | nil => cases h
  | cons n counts ih =>
    rcases List.mem_append.1 h with h | h
    · obtain ⟨i, hi, rfl⟩ := List.mem_map.1 h
      have hfits := hroom.add_le
      have hlt := List.mem_range.1 hi
      dsimp only
      omega
    · exact ih hroom.tail h

theorem pairwise_exactFrom (code width : Nat) (counts : List Nat) :
    (exactFrom code width counts).Pairwise Precedes := by
  induction counts generalizing code width with
  | nil => exact .nil
  | cons n counts ih =>
    rw [exactFrom, List.pairwise_append]
    refine ⟨?_, ih _ _, fun v hv w hw => ?_⟩
    · -- in a row of one width a word has no continuation but itself
      refine List.pairwise_map.2 (List.pairwise_lt_range.imp fun {i j} hlt => ⟨Nat.le_refl _, ?_⟩)
      rw [Nat.sub_self, pow_zero, mul_one]
      dsimp only
      omega
    · obtain ⟨i, hi, rfl⟩ := List.mem_map.1 hv
      have hlt := List.mem_range.1 hi
      obtain ⟨hwidth, hcode⟩ := le_of_mem_exactFrom hw
      have hstep : w.width - width = w.width - (width + 1) + 1 := by omega
      refine ⟨Nat.le_of_succ_le hwidth, le_trans ?_ hcode⟩
      show (code + i + 1) * 2 ^ (w.width - width) ≤ (code + n) * 2 * 2 ^ (w.width - (width + 1))
      rw [hstep, pow_succ', ← mul_assoc]
      exact Nat.mul_le_mul_right _ (Nat.mul_le_mul_right 2 (by omega))

theorem length_bits (w : Codeword) : w.bits.length = w.width := Bits.length_ofNat ..

/-- A word does not begin with a word in front of it, nor the other way round. -/
theorem Precedes.not_isPrefix (h : v.Precedes w) (hv : v.code < 2 ^ v.width)
    (hw : w.code < 2 ^ w.width) : ¬v.bits <+: w.bits ∧ ¬w.bits <+: v.bits := by
  obtain ⟨hwidth, hcode⟩ := h
  have hforward : ¬v.bits <+: w.bits := by
    intro hbegins
    have hsum : w.width = v.width + (w.width - v.width) := by omega
    have htake : Bits.ofNat v.width (w.code / 2 ^ (w.width - v.width)) = v.bits := by
      have hlead := List.prefix_iff_eq_take.1 hbegins
      rw [length_bits, bits, bits, hsum, Bits.take_ofNat] at hlead
      exact hlead.symm
    have hfits : w.code / 2 ^ (w.width - v.width) < 2 ^ v.width := by
      rw [Nat.div_lt_iff_lt_mul (Nat.two_pow_pos _), ← pow_add, ← hsum]
      exact hw
    have hsame := Bits.ofNat_inj hfits hv htake
    have hbehind : v.code + 1 ≤ w.code / 2 ^ (w.width - v.width) :=
      (Nat.le_div_iff_mul_le (Nat.two_pow_pos _)).2 hcode
    omega
  refine ⟨hforward, fun hbegins => hforward ?_⟩
  -- a word that begins a shorter one is the same
  have hle := hbegins.length_le
  rw [length_bits, length_bits] at hle
  have hlength : w.bits.length = v.bits.length := by
    rw [length_bits, length_bits]
    omega
  rw [hbegins.eq_of_length hlength]

/-- No canonical word begins another. -/
theorem not_prefix_of_ne (hroom : HasRoom code width counts) {i j : Nat} (hne : i ≠ j)
    (hv : (exactFrom code width counts)[i]? = some v)
    (hw : (exactFrom code width counts)[j]? = some w) : ¬v.bits <+: w.bits := by
  have hvfits := lt_of_mem_exactFrom hroom (List.mem_of_getElem? hv)
  have hwfits := lt_of_mem_exactFrom hroom (List.mem_of_getElem? hw)
  obtain ⟨hi, rfl⟩ := List.getElem?_eq_some_iff.1 hv
  obtain ⟨hj, rfl⟩ := List.getElem?_eq_some_iff.1 hw
  have hpairs := List.pairwise_iff_getElem.1 (pairwise_exactFrom code width counts)
  rcases Nat.lt_or_gt_of_ne hne with hlt | hgt
  · exact ((hpairs i j hi hj hlt).not_isPrefix hvfits hwfits).1
  · exact ((hpairs j i hj hi hgt).not_isPrefix hwfits hvfits).2

/-! ### Widths -/

/-- How wide a word is depends on its place only. -/
theorem isWidthAt_exactFrom (h : (exactFrom code (width + 1) counts)[place]? = some w) :
    IsWidthAt counts place (w.width - width) := by
  induction counts generalizing code width place with
  | nil => cases h
  | cons n counts ih =>
    rw [exactFrom] at h
    rcases Nat.lt_or_ge place n with hlt | hge
    · rw [List.getElem?_append_left (by simpa using hlt), List.getElem?_map,
        List.getElem?_range hlt] at h
      obtain rfl := Option.some.inj h
      have hone : width + 1 - width = 1 := by omega
      simpa [IsWidthAt, hone] using hlt
    · rw [List.getElem?_append_right (by simpa using hge), List.length_map, List.length_range] at h
      obtain ⟨hlower, hupper⟩ := ih h
      obtain ⟨hwidth, -⟩ := le_of_mem_exactFrom (List.mem_of_getElem? h)
      obtain ⟨k, hk⟩ : ∃ k, w.width - width = k + 1 + 1 := ⟨w.width - width - 2, by omega⟩
      have htail : w.width - (width + 1) = k + 1 := by omega
      rw [htail, Nat.add_sub_cancel] at hlower
      rw [htail] at hupper
      rw [IsWidthAt, hk, Nat.add_sub_cancel, List.take_succ_cons, List.take_succ_cons,
        List.sum_cons, List.sum_cons]
      omega

/-! ### Sixteen bits -/

theorem toNat_add_ofNat {first : UInt16} (h : first.toNat + n < 2 ^ 16) :
    (first + UInt16.ofNat n).toNat = first.toNat + n := by
  rw [UInt16.toNat_add, UInt16.toNat_ofNat', Nat.mod_eq_of_lt (a := n) (by omega)]
  exact Nat.mod_eq_of_lt h

theorem toNat_double {first : UInt16} (h : first.toNat * 2 < 2 ^ 16) :
    (first * 2).toNat = first.toNat * 2 := by
  rw [UInt16.toNat_mul]
  exact Nat.mod_eq_of_lt h

theorem HasRoom.add_lt (h : HasRoom code width (n :: counts)) (hwidth : width ≤ 15) :
    code + n < 2 ^ 16 := by
  have hfits := h.add_le
  have hle : 2 ^ width ≤ 2 ^ 15 := Nat.pow_le_pow_right (by decide) hwidth
  omega

/-- In front of a row of at most fifteen bits no bit is lost by appending a zero. -/
theorem HasRoom.next {first : UInt16} (h : HasRoom first.toNat width (n :: counts))
    (hwidth : width ≤ 14) :
    (first + UInt16.ofNat n).toNat * 2 < 2 ^ 16 ∧
      ((first + UInt16.ofNat n) * 2).toNat = (first.toNat + n) * 2 ∧
      HasRoom ((first + UInt16.ofNat n) * 2).toNat (width + 1) counts := by
  have hfits := h.add_le
  have hle : 2 ^ width ≤ 2 ^ 14 := Nat.pow_le_pow_right (by decide) hwidth
  have hsum : (first + UInt16.ofNat n).toNat = first.toNat + n := toNat_add_ofNat (by omega)
  have hless : (first + UInt16.ofNat n).toNat * 2 < 2 ^ 16 := by omega
  have hnext : ((first + UInt16.ofNat n) * 2).toNat = (first.toNat + n) * 2 := by
    rw [toNat_double hless, hsum]
  exact ⟨hless, hnext, hnext ▸ h.tail⟩

/-- A row of words that fit sixteen bits. -/
theorem row_eq {first : UInt16} (h : first.toNat + n < 2 ^ 16) :
    row first width n = (List.range n).map fun i => ⟨first.toNat + i, width⟩ := by
  induction n generalizing first with
  | zero => rfl
  | succ n ih =>
    have hnext : (first + 1).toNat = first.toNat + 1 := toNat_add_ofNat (n := 1) (by omega)
    rw [row, ih (by omega), hnext, List.range_succ_eq_map, List.map_cons, List.map_map]
    refine congrArg (_ :: ·) (List.map_congr_left fun i _ => ?_)
    rw [Nat.add_assoc, Nat.add_comm 1]
    rfl

@[simp] theorem length_row (first : UInt16) (width n : Nat) : (row first width n).length = n := by
  induction n generalizing first with
  | zero => rfl
  | succ n ih => simp [row, ih]

@[simp] theorem length_canonicalFrom (first : UInt16) (width : Nat) (counts : List Nat) :
    (canonicalFrom first width counts).length = counts.sum := by
  induction counts generalizing first width with
  | nil => rfl
  | cons n counts ih => simp [canonicalFrom, ih]

/-- Sixteen bits are enough for words of at most fifteen bits that have room. The number behind the
last words can be one more than fifteen bits hold, but no word is made of it. -/
theorem canonicalFrom_eq {first : UInt16} (hroom : HasRoom first.toNat width counts)
    (hwidths : width + counts.length ≤ 16) :
    canonicalFrom first width counts = exactFrom first.toNat width counts := by
  induction counts generalizing first width with
  | nil => rfl
  | cons n counts ih =>
    rw [List.length_cons] at hwidths
    have hfits := hroom.add_lt (by omega)
    rw [canonicalFrom, exactFrom, row_eq hfits, Nat.mod_eq_of_lt (by omega)]
    cases counts with
    | nil => rfl
    | cons m counts =>
      obtain ⟨-, hnext, hrest⟩ := hroom.next (by rw [List.length_cons] at hwidths; omega)
      rw [ih hrest (by omega), hnext]

end Codeword

end SpectralCoding
