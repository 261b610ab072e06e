import SpectralCoding.Atrac3.Allocation
import SpectralCoding.Proofs.Allocation.Searching
import SpectralCoding.Proofs.Atrac3.SpectrumCost
import SpectralCoding.Proofs.Layout.Blocks

/-!
# A spectrum within its target

* `Atrac3.Allotment.bits_codingFor_le` : a target that pays for silence is kept.
* `Atrac3.allocate_fits` : the spectrum takes the bits that were foretold, at most as many as the
  target has.
-/

namespace SpectralCoding

namespace Atrac3

/-! ### Silence -/

theorem codedBlocks_replicate (blocks : List ScaledBlock) (count : Nat) :
    ∀ entry ∈ SpectrumCoding.codedBlocks blocks (List.replicate count 0), entry.1 = 0 := by
  intro entry h
  exact List.eq_of_mem_replicate (List.of_mem_zip h).1

theorem fixedTotal_of_silent {coded : List (Nat × List Int)} (h : ∀ entry ∈ coded, entry.1 = 0) :
    SpectrumCoding.fixedTotal coded = 0 := by
  induction coded with
  | nil => rfl
  | cons entry coded ih =>
    obtain ⟨hentry, hcoded⟩ := List.forall_mem_cons.1 h
    rw [SpectrumCoding.fixedTotal_cons, if_pos hentry, ih hcoded]

theorem variableTotal_of_silent {coded : List (Nat × List Int)} (h : ∀ entry ∈ coded, entry.1 = 0) :
    SpectrumCoding.variableTotal coded = some 0 := by
  induction coded with
  | nil => rfl
  | cons entry coded ih =>
    obtain ⟨hentry, hcoded⟩ := List.forall_mem_cons.1 h
    rw [SpectrumCoding.variableTotal, if_pos hentry, ih hcoded]

/-- The bits of `count` silent blocks. -/
def silenceBits (count : Nat) : Nat := 6 + 3 * count

theorem bits_make_silence (blocks : List ScaledBlock) (count : Nat) :
    (SpectrumCoding.make blocks (List.replicate count 0)).bits = silenceBits count := by
  have hsilent := codedBlocks_replicate blocks count
  have hlength : (List.replicate count 0).length = count := List.length_replicate ..
  rcases SpectrumCoding.make_cases blocks (List.replicate count 0)
    with ⟨-, hbits⟩ | ⟨v, hv, -, hbits⟩
  · rw [hbits, fixedTotal_of_silent hsilent, hlength]
    rfl
  · rw [variableTotal_of_silent hsilent] at hv
    obtain rfl := Option.some.inj hv
    rw [hbits, hlength]
    rfl

/-! ### The search -/

theorem length_selectors_le (blocks : List ScaledBlock) (count : Nat) (spread shift : Float32)
    (thresholds : List Float32) (loudness : Float32) :
    (selectors blocks count spread shift thresholds loudness).length ≤ min count blocks.length := by
  simp only [selectors, List.length_mapIdx, List.length_take, List.length_zip]
  omega

theorem clampSelector_le (t : Int) : clampSelector t ≤ greatestSelector := by
  unfold clampSelector greatestSelector
  split_ifs <;> omega

theorem le_of_mem_selectors {blocks : List ScaledBlock} {count : Nat} {spread shift : Float32}
    {thresholds : List Float32} {loudness : Float32} :
    ∀ selector ∈ selectors blocks count spread shift thresholds loudness,
      selector ≤ greatestSelector := by
  intro s hs
  obtain ⟨i, -, rfl⟩ := List.mem_mapIdx.1 hs
  unfold selector
  split
  · exact Nat.zero_le _
  · exact clampSelector_le _

namespace Allotment

variable (κ : Type) [Dial κ] {a : Allotment} {target count : Nat}

theorem codingFor_cases (a : Allotment) (target count : Nat) :
    a.codingFor κ target count = .make a.blocks (List.replicate count 0) ∨
      ∃ shift, a.codingFor κ target count = a.codingAt count shift ∧
      (a.codingAt count shift).bits ≤ target := by
  have hfound := ShiftSearch.isOutcome_search target 0 count fun shift : κ =>
    ⟨(a.codingAt count (Dial.toFloat32 shift)).selectors,
      (a.codingAt count (Dial.toFloat32 shift)).bits⟩
  rcases hfound with hsilence | ⟨shift, hshift, hbits⟩
  · left
    exact congrArg
      (fun alloc : Allocation => SpectrumCoding.make a.blocks alloc.wordLengths) hsilence
  · right
    rw [hshift] at hbits
    refine ⟨_, ?_, hbits⟩
    exact congrArg
      (fun alloc : Allocation => SpectrumCoding.make a.blocks alloc.wordLengths) hshift

theorem bits_codingFor_le (h : silenceBits count ≤ target) :
    (a.codingFor κ target count).bits ≤ target := by
  rcases codingFor_cases κ a target count with hcoding | ⟨shift, hcoding, hbits⟩
  · rw [hcoding, bits_make_silence]
    exact h
  · rw [hcoding]
    exact hbits

theorem exists_codingFor_eq_make (target : Nat) (hcount : count ≤ a.blocks.length) :
    ∃ selectors, a.codingFor κ target count = .make a.blocks selectors ∧
      selectors.length ≤ a.blocks.length ∧ ∀ selector ∈ selectors, selector ≤ greatestSelector := by
  rcases codingFor_cases κ a target count with hcoding | ⟨shift, hcoding, -⟩
  · refine ⟨_, hcoding, by rwa [List.length_replicate], fun selector hselector => ?_⟩
    rw [List.eq_of_mem_replicate hselector]
    exact Nat.zero_le _
  · exact ⟨_, hcoding, Nat.le_trans (length_selectors_le ..) (Nat.min_le_right ..),
      le_of_mem_selectors⟩

theorem length_codingFor (hblocks : count ≤ a.blocks.length)
    (hthresholds : count ≤ a.thresholds.length) :
    (a.codingFor κ target count).selectors.length = count := by
  rcases codingFor_cases κ a target count with hcoding | ⟨shift, hcoding, -⟩
  · rw [hcoding]
    exact List.length_replicate ..
  · rw [hcoding, codingAt]
    simp only [SpectrumCoding.make, selectors, List.length_mapIdx, List.length_take,
      List.length_zip]
    omega

theorem initialCount_pos (a : Allotment) (target : Nat) : 0 < a.initialCount target :=
  Nat.le_max_left ..

theorem initialCount_le (a : Allotment) (target : Nat) :
    a.initialCount target ≤ Layout.atrac3.blocks :=
  Nat.max_le.2 ⟨by decide, Nat.min_le_left ..⟩

end Allotment

/-! ### Giving up blocks -/

variable (κ : Type) [Dial κ]

theorem usedCount_pos (selectors : List Nat) : 0 < usedCount selectors := Nat.le_max_left ..

theorem exists_allocateFrom_eq (a : Allotment) (target : Nat) {count : Nat} (hcount : 0 < count) :
    ∃ n ≤ count, 0 < n ∧ allocateFrom κ a target count = a.codingFor κ target n := by
  fun_induction allocateFrom κ a target count with
  | case1 count coding used h ih =>
    obtain ⟨n, hn, hpos, heq⟩ := ih (usedCount_pos _)
    exact ⟨n, Nat.le_trans hn (Nat.le_of_lt h.2), hpos, heq⟩
  | case2 count coding used h => exact ⟨count, Nat.le_refl _, hcount, rfl⟩

theorem even_of_isFilledBy {blocks : List ScaledBlock} (h : Layout.atrac3.IsFilledBy blocks) :
    ∀ b ∈ blocks, b.values.length % 2 = 0 := by
  have hlines : ∀ n ∈ Layout.atrac3.lines, n % 2 = 0 := by decide
  intro b hb
  exact hlines _ (h ▸ List.mem_map_of_mem hb)

/-- **A spectrum takes the bits that were foretold, at most as many as a target that pays for
silence.** -/
theorem allocate_fits {a : Allotment} {target : Nat} (hblocks : Layout.atrac3.IsFilledBy a.blocks)
    (htarget : silenceBits Layout.atrac3.blocks ≤ target) :
    (allocate κ a target).bits ≤ target ∧
      (((allocate κ a target).emit a.blocks).fault = none →
        ((allocate κ a target).emit a.blocks).bits.length = (allocate κ a target).bits) := by
  obtain ⟨count, hcount, -, hcoding⟩ :=
    exists_allocateFrom_eq κ a target (a.initialCount_pos target)
  have hmost : count ≤ Layout.atrac3.blocks := Nat.le_trans hcount (a.initialCount_le target)
  have hsilence : silenceBits count ≤ target := by
    unfold silenceBits at *
    omega
  have hlength : count ≤ a.blocks.length := by rwa [hblocks.length]
  obtain ⟨selectors, hmake, hselectors, -⟩ := Allotment.exists_codingFor_eq_make κ target hlength
  rw [allocate, hcoding]
  refine ⟨Allotment.bits_codingFor_le κ hsilence, ?_⟩
  rw [hmake]
  exact SpectrumCoding.length_emit_make (even_of_isFilledBy hblocks) hselectors

end Atrac3

end SpectralCoding
