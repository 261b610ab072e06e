import SpectralCoding.Atrac1.WordLength
import SpectralCoding.Proofs.Allocation.Trimming

/-!
# Word lengths of an ATRAC1 unit

* `Atrac1.IsWordLength` : a length that a field can carry.
* `isWordLength_of_mem_wordLengths`, `isWordLength_of_mem_trim` : allotting and trimming give such
  lengths.
* `le_blocks_of_mem_blockCounts`, `getD_blockCounts_le` : no number of blocks exceeds the layout's.
* `Boost.IsGrownFrom` : what a boost keeps: the number of blocks, the sum of cost and surplus, and
  that every length fits its field.
* `boost_isGrown` : boosting is such a growth.
-/

namespace SpectralCoding

namespace Atrac1

/-- A length a field can carry: none, or from two up to the greatest. -/
def IsWordLength (l : Nat) : Prop := l = 0 ∨ 2 ≤ l ∧ l ≤ greatestLength

theorem isWordLength_zero : IsWordLength 0 := .inl rfl

theorem isWordLength_clampLength (t : Int) : IsWordLength (clampLength t) := by
  unfold IsWordLength clampLength greatestLength
  split
  · omega
  · split <;> omega

/-! ### The number of blocks -/

theorem le_blocks_of_mem_blockCounts : ∀ count ∈ blockCounts, count ≤ Layout.atrac1.blocks := by
  decide

theorem getD_blockCounts_le (index : Nat) : blockCounts.getD index 0 ≤ Layout.atrac1.blocks := by
  rw [List.getD_eq_getElem?_getD]
  cases hcount : blockCounts[index]? with
  | none => exact Nat.zero_le _
  | some count => exact le_blocks_of_mem_blockCounts count (List.mem_of_getElem? hcount)

/-! ### Allotting and trimming -/

section Allotted

variable {blocks : List ScaledBlock} {count : Nat} {spread shift loudness : Float32}
    {windows : WindowMode}

theorem length_wordLengths (hcount : count ≤ blocks.length) :
    (wordLengths blocks count spread shift windows loudness).length = count := by
  simp [wordLengths, hcount]

theorem isWordLength_of_mem_wordLengths {l : Nat}
    (h : l ∈ wordLengths blocks count spread shift windows loudness) : IsWordLength l := by
  obtain ⟨i, hi, rfl⟩ := List.mem_mapIdx.1 h
  unfold wordLength
  simp only
  split
  · exact isWordLength_zero
  · exact isWordLength_clampLength _

end Allotted

theorem isWordLength_of_mem_trim {target : Nat} {lengths lines : List Nat}
    (hlengths : ∀ l ∈ lengths, IsWordLength l) {l : Nat} (h : l ∈ (trim target lengths lines).1) :
    IsWordLength l := by
  rcases eq_zero_or_mem_of_mem_trim h with rfl | h
  · exact isWordLength_zero
  · exact hlengths l h

/-! ### Boosting -/

theorem isWordLength_boosted {l : Nat} (h : IsWordLength l) (hl : l ≠ greatestLength) :
    IsWordLength (l + boostStep l) := by
  unfold IsWordLength boostStep greatestLength at *
  split <;> omega

/-- What a boost keeps. -/
structure Boost.IsGrownFrom (b b₀ : Boost) : Prop where
  length : b.lengths.length = b₀.lengths.length
  /-- Bits only move from the surplus to the lengths. -/
  total : mantissaBits b.lengths Layout.atrac1.lines + b.surplus =
    mantissaBits b₀.lengths Layout.atrac1.lines + b₀.surplus
  fits : (∀ l ∈ b₀.lengths, IsWordLength l) → ∀ l ∈ b.lengths, IsWordLength l

namespace Boost.IsGrownFrom

theorem refl (b : Boost) : b.IsGrownFrom b := ⟨rfl, rfl, id⟩

theorem trans {b₀ b₁ b₂ : Boost} (h₂ : b₂.IsGrownFrom b₁) (h₁ : b₁.IsGrownFrom b₀) :
    b₂.IsGrownFrom b₀ :=
  ⟨h₂.length.trans h₁.length, h₂.total.trans h₁.total, h₂.fits ∘ h₁.fits⟩

end Boost.IsGrownFrom

theorem lines_of_mem_boostOrder {entry : Nat × Nat} (h : entry ∈ boostOrder) :
    Layout.atrac1.lines[entry.2]? = some entry.1 := by
  rw [boostOrder, List.mem_mergeSort, List.mem_filter] at h
  exact List.mem_zipIdx_iff_getElem?.1 h.1

theorem boostBlock_isGrown (b : Boost) {entry : Nat × Nat} (hentry : entry ∈ boostOrder) :
    (boostBlock b entry).IsGrownFrom b := by
  unfold boostBlock
  cases hl : b.lengths[entry.2]? with
  | none => exact .refl b
  | some l =>
    simp only
    by_cases hshut : l = greatestLength ∨ b.surplus < entry.1 * boostStep l
    · rw [if_pos hshut]
      exact .refl b
    · rw [if_neg hshut]
      obtain ⟨hroom, hpaid⟩ := not_or.1 hshut
      refine ⟨List.length_set .., ?_, ?_⟩
      · have hset := mantissaBits_set hl (lines_of_mem_boostOrder hentry) (l + boostStep l)
        rw [Nat.add_mul, Nat.mul_comm (boostStep l)] at hset
        simp only
        omega
      · intro hfits l' hl'
        rcases List.mem_or_eq_of_mem_set hl' with hl' | rfl
        · exact hfits l' hl'
        · exact isWordLength_boosted (hfits l (List.mem_of_getElem? hl)) hroom

theorem boostRound_isGrown {entries : List (Nat × Nat)} (hentries : ∀ e ∈ entries, e ∈ boostOrder)
    (b : Boost) : (boostRound entries b).IsGrownFrom b := by
  induction entries generalizing b with
  | nil => exact .refl b
  | cons e entries ih =>
    obtain ⟨he, hentries⟩ := List.forall_mem_cons.1 hentries
    exact (ih hentries (boostBlock b e)).trans (boostBlock_isGrown b he)

theorem boostRounds_isGrown {entries : List (Nat × Nat)} (hentries : ∀ e ∈ entries, e ∈ boostOrder)
    (lowest rounds : Nat) (b : Boost) : (boostRounds entries lowest rounds b).IsGrownFrom b := by
  induction rounds generalizing b with
  | zero => exact .refl b
  | succ rounds ih =>
    simp only [boostRounds]
    split
    · exact .refl b
    · split
      · exact boostRound_isGrown hentries b
      · exact (ih _).trans (boostRound_isGrown hentries b)

theorem boost_isGrown (lengths : List Nat) (spent target : Nat) :
    (boost lengths spent target).IsGrownFrom ⟨lengths, target - spent⟩ :=
  boostRounds_isGrown (fun _ he => (List.mem_filter.1 he).1) _ _ _

end Atrac1

end SpectralCoding
