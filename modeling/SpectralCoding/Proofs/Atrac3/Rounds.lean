import SpectralCoding.Proofs.Allocation.Probing
import SpectralCoding.Proofs.Atrac3.SpectrumBudget
import SpectralCoding.Proofs.Search.Protocol

/-!
# The rounds of an allotment

An allotment searches a shift, gives up the blocks at the end that came out silent and searches
again. The search hands on selectors only; the coding of its last trial is kept beside it, and is
made anew where the search ends with selectors of an earlier trial or with silence.

* `Atrac3.Allotment.keptCoding` : the coding of the last trial, if it has the selectors found.
* `Atrac3.Allotment.IsRound`, `Atrac3.Allotment.Rounds` : one search, and one after the other until
  nothing more is given up.
* `Atrac3.Allotment.exists_rounds` : there are at most as many rounds as blocks to begin with.
* `Atrac3.allocate_keeps` : **in at most 32 rounds a spectrum is allotted within its target.**
-/

namespace SpectralCoding

namespace Atrac3

/-- Selectors up to the last of which blocks are in use are a single one, or do not end in
silence. -/
theorem getLast?_of_le_usedCount {selectors : List Nat} (hpos : 0 < selectors.length)
    (h : selectors.length ≤ usedCount selectors) :
    selectors.length = 1 ∨ ∃ last, selectors.getLast? = some last ∧ last ≠ 0 := by
  obtain rfl | ⟨front, last, rfl⟩ := List.eq_nil_or_concat' selectors
  · exact absurd hpos (Nat.lt_irrefl 0)
  · rw [List.length_append, List.length_singleton] at h ⊢
    by_cases hlast : last = 0
    · left
      have hdrop : ((front ++ [last]).reverse.dropWhile (· == 0)).length ≤ front.length := by
        rw [List.reverse_append, List.reverse_singleton, List.singleton_append,
          List.dropWhile_cons_of_pos (by simp [hlast])]
        exact Nat.le_trans (List.dropWhile_sublist _).length_le (Nat.le_of_eq List.length_reverse)
      unfold usedCount at h
      omega
    · exact .inr ⟨last, List.getLast?_concat, hlast⟩

namespace Allotment

variable {a : Allotment} {target count : Nat} {coding : SpectrumCoding}

/-- What a search is told of a shift. -/
def trial [ShiftRounding] (a : Allotment) (count : Nat) (shift : ℚ) : Allocation :=
  ⟨(a.codingAt count (Dial.toFloat32 shift)).selectors,
    (a.codingAt count (Dial.toFloat32 shift)).bits⟩

/-- The coding of the last trial, if it has the selectors found, or else one made of them. -/
def keptCoding (a : Allotment) (last : Option SpectrumCoding) (found : Allocation) :
    SpectrumCoding :=
  match last with
  | some coding =>
    if coding.selectors = found.wordLengths then coding else .make a.blocks found.wordLengths
  | none => .make a.blocks found.wordLengths

/-- It makes no difference which of the two it is. -/
theorem keptCoding_codingAt (a : Allotment) (count : Nat) (shift : Option Float32)
    (found : Allocation) :
    a.keptCoding (shift.map (a.codingAt count)) found = .make a.blocks found.wordLengths := by
  cases shift with
  | none => rfl
  | some shift =>
    rw [Option.map_some, keptCoding]
    split
    · rename_i hsame
      rw [← hsame]
      rfl
    · rfl

variable [ShiftRounding]

/-- A search on the first `count` blocks, which ends within ten probes, and the coding kept. -/
def IsRound (a : Allotment) (target count : Nat) (coding : SpectrumCoding) : Prop :=
  ∃ probes found,
    ShiftSearch.EndsWith target (ShiftSearch.isClose target 0) count (a.trial count) leastShift
        greatestShift none probes found ∧
      probes.length ≤ ShiftSearch.mostProbes ∧
      coding = a.keptCoding
        ((probes.getLast?.map Dial.toFloat32).map (a.codingAt count)) found

/-- Rounds on fewer and fewer blocks, with the coding of the last one. -/
inductive Rounds (a : Allotment) (target : Nat) :
    (rounds count : Nat) → (coding : SpectrumCoding) → Prop where
  /-- The number of blocks is fixed, or all of them are in use. -/
  | stop {count : Nat} {coding : SpectrumCoding} (h : a.IsRound target count coding)
      (hstop : a.fixedCount ≠ none ∨ count ≤ usedCount coding.selectors) :
      Rounds a target 1 count coding
  /-- Blocks at the end came out silent. -/
  | shrink {rounds count : Nat} {coding result : SpectrumCoding} (h : a.IsRound target count coding)
      (hfree : a.fixedCount = none) (hused : usedCount coding.selectors < count)
      (rest : Rounds a target rounds (usedCount coding.selectors) result) :
      Rounds a target (rounds + 1) count result

theorem isRound_iff : a.IsRound target count coding ↔ coding = a.codingFor ℚ target count := by
  have hcoding {probes : List ℚ} {found : Allocation}
      (hends : ShiftSearch.EndsWith target (ShiftSearch.isClose target 0) count (a.trial count)
        leastShift greatestShift none probes found)
      (hprobes : probes.length ≤ ShiftSearch.mostProbes) :
      a.codingFor ℚ target count = .make a.blocks found.wordLengths := by
    have hfuel : probes.length ≤ ShiftSearch.fuel := Nat.le_trans hprobes (by decide)
    rw [← hends.run_search hfuel]
    rfl
  constructor
  · rintro ⟨probes, found, hends, hprobes, rfl⟩
    rw [keptCoding_codingAt, hcoding hends hprobes]
  · rintro rfl
    obtain ⟨probes, found, hends, hprobes⟩ :=
      ShiftSearch.exists_endsWith target (ShiftSearch.isClose target 0) count (a.trial count)
    refine ⟨probes, found, hends, hprobes, ?_⟩
    rw [keptCoding_codingAt, hcoding hends hprobes]

/-- At most as many rounds as blocks to begin with. -/
theorem exists_rounds (a : Allotment) (target : Nat) {count : Nat} (hcount : 0 < count) :
    ∃ rounds ≤ count, a.Rounds target rounds count (allocateFrom ℚ a target count) := by
  fun_induction allocateFrom ℚ a target count with
  | case1 count coding used h ih =>
    obtain ⟨rounds, hle, hrounds⟩ := ih (usedCount_pos _)
    exact ⟨rounds + 1, Nat.lt_of_le_of_lt hle h.2,
      .shrink (isRound_iff.2 rfl) h.1 h.2 hrounds⟩
  | case2 count coding used h =>
    refine ⟨1, hcount, .stop (isRound_iff.2 rfl) ?_⟩
    by_cases hfixed : a.fixedCount = none
    · exact .inr (Nat.le_of_not_lt fun hlt => h ⟨hfixed, hlt⟩)
    · exact .inl hfixed

/-- The last round is on a fixed number of blocks, or on blocks the last of which is in use. -/
theorem Rounds.exists_last {rounds : Nat} (h : a.Rounds target rounds count coding)
    (hcount : 0 < count) :
    ∃ n, 0 < n ∧ n ≤ count ∧ coding = a.codingFor ℚ target n ∧
      (a.fixedCount = none ∧ n ≤ usedCount coding.selectors ∨
        a.fixedCount ≠ none ∧ n = count) := by
  induction h with
  | @stop count coding h hstop =>
    refine ⟨count, hcount, Nat.le_refl _, isRound_iff.1 h, ?_⟩
    by_cases hfixed : a.fixedCount = none
    · exact .inl ⟨hfixed, hstop.resolve_left (not_not.2 hfixed)⟩
    · exact .inr ⟨hfixed, rfl⟩
  | shrink h hfree hused rest ih =>
    obtain ⟨n, hpos, hn, heq, hstop⟩ := ih (usedCount_pos _)
    refine ⟨n, hpos, Nat.le_trans hn (Nat.le_of_lt hused), heq, .inl ?_⟩
    exact hstop.resolve_right fun hfixed => hfixed.1 hfree

end Allotment

/-! ### The target -/

section Target

variable (κ : Type) [Dial κ] {a : Allotment} {target count : Nat}

theorem initialCount_cases
    (hfixed : ∀ n, a.fixedCount = some n → 1 ≤ n ∧ n ≤ Layout.atrac3.blocks)
    (htarget : silenceBits (a.fixedCount.getD 1) ≤ target) :
    0 < a.initialCount target ∧ silenceBits (a.initialCount target) ≤ target ∧
      ∀ n, a.fixedCount = some n → a.initialCount target = n := by
  have hmost : Layout.atrac3.blocks = 32 := rfl
  unfold Allotment.initialCount silenceBits at *
  cases hcount : a.fixedCount with
  | none =>
    rw [hcount] at htarget
    simp only [Option.getD_none] at htarget ⊢
    refine ⟨by omega, by omega, nofun⟩
  | some n =>
    obtain ⟨hpos, hle⟩ := hfixed n hcount
    rw [hcount] at htarget
    simp only [Option.getD_some] at htarget ⊢
    refine ⟨by omega, by omega, ?_⟩
    rintro _ ⟨⟩
    omega

/-- **In at most 32 rounds a spectrum is allotted within its target.** Shifts are exact, and handed
on to the selectors in any way. The coding kept is the one made from its selectors; there are as
many of them as fixed, or else at least one, and the last of several is not silent. -/
theorem allocate_keeps [ShiftRounding]
    (hblocks : Layout.atrac3.IsFilledBy a.blocks)
    (hthresholds : a.thresholds.length = Layout.atrac3.blocks)
    (hfixed : ∀ n, a.fixedCount = some n → 1 ≤ n ∧ n ≤ Layout.atrac3.blocks)
    (htarget : silenceBits (a.fixedCount.getD 1) ≤ target) :
    ∃ coding, allocate? ℚ a target = .ok coding ∧
      (∃ rounds ≤ 32, a.Rounds target rounds (a.initialCount target) coding) ∧
      coding.bits ≤ target ∧
      coding = .make a.blocks coding.selectors ∧
      (∀ n, a.fixedCount = some n → coding.selectors.length = n) ∧
      (a.fixedCount = none → 1 ≤ coding.selectors.length ∧ coding.selectors.length ≤ 32 ∧
        (coding.selectors.length = 1 ∨
          ∃ last, coding.selectors.getLast? = some last ∧ last ≠ 0)) := by
  obtain ⟨hpos, hsilence, hinitial⟩ := initialCount_cases hfixed htarget
  have hmost := a.initialCount_le target
  obtain ⟨rounds, hrounds, hrun⟩ := a.exists_rounds target hpos
  obtain ⟨n, hn, hle, hcoding, hstop⟩ := hrun.exists_last hpos
  have hlength : (a.codingFor ℚ target n).selectors.length = n :=
    Allotment.length_codingFor ℚ (by rw [hblocks.length]; omega) (by omega)
  have hbits : (a.codingFor ℚ target n).bits ≤ target := by
    refine Allotment.bits_codingFor_le ℚ (Nat.le_trans ?_ hsilence)
    unfold silenceBits
    omega
  have hstart : a.initialCount target ≤ a.blocks.length ∧
      a.initialCount target ≤ a.thresholds.length := by
    rw [hblocks.length, hthresholds]
    exact ⟨hmost, hmost⟩
  refine ⟨_, if_pos hstart, ⟨rounds, Nat.le_trans hrounds hmost, hrun⟩, ?_⟩
  rw [hcoding] at hstop
  rw [allocate, hcoding]
  refine ⟨hbits, rfl, fun k hk => ?_, fun hfree => ?_⟩
  · rcases hstop with ⟨hfree, -⟩ | ⟨-, hn⟩
    · rw [hfree] at hk
      cases hk
    · rw [hlength, hn, hinitial k hk]
  · rcases hstop with ⟨-, hused⟩ | ⟨hcount, -⟩
    · refine ⟨Nat.lt_of_lt_of_eq hn hlength.symm, Nat.le_trans (Nat.le_of_eq hlength) ?_,
        getLast?_of_le_usedCount ?_ ?_⟩
      · exact Nat.le_trans hle hmost
      · rwa [hlength]
      · rwa [hlength]
    · exact absurd hfree hcount

end Target

/-- Blocks of which the last twelve are inaudible, on a target of 600 bits. -/
theorem allocate_keeps_faint_end :
    letI := Bisection.quotientRounding
    let block (energy : Float32) (lines : Nat) : ScaledBlock :=
      ⟨40, List.replicate lines 0.3, energy⟩
    let a : Allotment :=
      { blocks := (Layout.atrac3.lines.take 20).map (block 1) ++
          (Layout.atrac3.lines.drop 20).map (block 0)
        spread := 0.5, thresholds := List.replicate 32 0.5, loudness := 1, fixedCount := none }
    Layout.atrac3.IsFilledBy a.blocks ∧ a.thresholds.length = 32 ∧
      ∃ coding, allocate? ℚ a 600 = .ok coding ∧
        (∃ rounds ≤ 32, a.Rounds 600 rounds (a.initialCount 600) coding) ∧ coding.bits ≤ 600 ∧
        (coding.selectors.length = 1 ∨
          ∃ last, coding.selectors.getLast? = some last ∧ last ≠ 0) := by
  intro block a
  let _ := Bisection.quotientRounding
  have hblocks : Layout.atrac3.IsFilledBy a.blocks := by
    have hlength (energy : Float32) (ns : List Nat) :
        (ns.map (block energy)).map (·.values.length) = ns := by
      simp [block, Function.comp_def]
    have hlines : a.blocks.map (·.values.length) =
        Layout.atrac3.lines.take 20 ++ Layout.atrac3.lines.drop 20 := by
      rw [List.map_append, hlength, hlength]
    rwa [List.take_append_drop] at hlines
  have hthresholds : a.thresholds.length = 32 := List.length_replicate ..
  have htarget : silenceBits (a.fixedCount.getD 1) ≤ 600 := by decide
  obtain ⟨coding, hcoding, hrounds, hbits, -, -, hfree⟩ :=
    allocate_keeps hblocks hthresholds nofun htarget
  exact ⟨hblocks, hthresholds, coding, hcoding, hrounds, hbits, (hfree rfl).2.2⟩

end Atrac3

end SpectralCoding
