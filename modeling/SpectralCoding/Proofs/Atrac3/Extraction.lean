import SpectralCoding.Atrac3.TonalSearch
import SpectralCoding.Proofs.Atrac3.TonalCost
import SpectralCoding.Proofs.Binary32.Sign
import SpectralCoding.Proofs.Layout.Blocks

/-!
# What the search for tonal components finds

* `TonalComponent.IsPlaced` : a component lies within the frame, and its mantissas are coded one by
  one.
* `Atrac3.searchBlock_cases` : searching a block takes a run of one to eight lines, none of which is
  zero, or nothing.
* `Atrac3.isSound_searchBlock` : searching a block finds such components and keeps the number of
  lines.
* `Atrac3.extractTonal_spec` : the groups are those of such components within the budget.
-/

namespace SpectralCoding

namespace Atrac3

/-- A component lies within the frame, and its mantissas are coded one by one. -/
structure TonalComponent.IsPlaced (c : TonalComponent) : Prop where
  selector : 1 < c.selector
  position : c.position < Layout.atrac3.frameLines
  lines : c.position + c.scaled.values.length ≤ Layout.atrac3.frameLines

/-! ### The lines of a spectrum -/

theorem length_putLines {spectrum values : List Float32} {first : Nat}
    (h : first + values.length ≤ spectrum.length) :
      (putLines spectrum first values).length = spectrum.length := by
  simp only [putLines, List.length_append, List.length_take, List.length_drop]
  omega

theorem length_restore {spectrum : List Float32} {cs : List TonalComponent}
    (hlength : spectrum.length = Layout.atrac3.frameLines) (hcs : ∀ c ∈ cs, c.IsPlaced) :
    (restore spectrum cs).length = Layout.atrac3.frameLines := by
  refine List.foldlRecOn
    (motive := fun lines : List Float32 => lines.length = Layout.atrac3.frameLines)
    cs _ hlength ?_
  intro lines hlines c hc
  have hfits :
      c.position + (c.scaled.values.map (· * Layout.atrac3.scaleFactor c.scaled.index)).length ≤
      lines.length := by
    rw [List.length_map, hlines]
    exact (hcs c hc).lines
  rw [length_putLines hfits, hlines]

/-- A peak is the magnitude of the line at its place, unless nothing counts as one. -/
theorem peakOf_cases (values : List Float32) :
    (peakOf values).2 = 0 ∨
      ∃ v, values[(peakOf values).1]? = some v ∧ (peakOf values).2 = v.abs := by
  refine List.foldlRecOn
    (motive := fun best : Nat × Float32 =>
      best.2 = 0 ∨ ∃ v, values[best.1]? = some v ∧ best.2 = v.abs)
    values.zipIdx _ (.inl rfl) ?_
  rintro best hbest ⟨v, i⟩ hentry
  dsimp only
  split
  · exact .inr ⟨v, List.mk_mem_zipIdx_iff_getElem?.1 hentry, rfl⟩
  · exact hbest

/-! ### Searching a block -/

/-- The spectrum has the lines of a frame, and the components found lie in it. -/
structure Extraction.IsSound (e : Extraction) : Prop where
  length : e.spectrum.length = Layout.atrac3.frameLines
  placed : ∀ c ∈ e.found, c.IsPlaced

theorem one_lt_componentSelector (spread : Float32) (scaled : ScaledBlock) (block : Nat) :
    1 < componentSelector spread scaled block :=
  Nat.le_max_left ..

theorem isNegative_threshold (band : Nat) (median : Float32) :
    Binary32.isNegative
      (peakFactors.getD band 0 * if leastNormal < median then median else leastNormal) = false := by
  have hfactors : ∀ factor ∈ peakFactors, Binary32.isNegative factor = false := by decide
  have hleast : Binary32.isNegative leastNormal = false := by decide
  refine Binary32.isNegative_mul ?_ ?_
  · rw [List.getD_eq_getElem?_getD]
    cases hget : peakFactors[band]? with
    | none => decide
    | some factor => exact hfactors factor (List.mem_of_getElem? hget)
  · split
    · rename_i hmedian
      exact Binary32.isNegative_of_lt hleast hmedian
    · exact hleast

/-- The component of a run of lines. -/
def componentOf (spread : Float32) (block position : Nat) (run : List Float32) : TonalComponent :=
  let scaled := Layout.atrac3.scale run
  let selector := componentSelector spread scaled block
  { position, block, selector, scaled, mantissas := quantise scaled.values selector }

/-- An extraction with a run of lines taken from the spectrum. -/
def Extraction.takeRun (e : Extraction) (spread : Float32) (block position length : Nat) :
    Extraction where
  spectrum := putLines e.spectrum position (List.replicate length 0)
  found := e.found ++ [componentOf spread block position ((e.spectrum.drop position).take length)]

theorem take_drop_eq_cons {lines follow : List Float32} {position : Nat} {v : Float32}
    (hv : lines[position]? = some v) (hfollow : follow <+: lines.drop (position + 1)) :
    (lines.drop position).take (1 + follow.length) = v :: follow := by
  obtain ⟨hposition, rfl⟩ := List.getElem?_eq_some_iff.1 hv
  rw [List.drop_eq_getElem_cons hposition, Nat.add_comm, List.take_succ_cons,
    ← List.prefix_iff_eq_take.1 hfollow]

/-- Searching a block takes a run of lines from the spectrum, none of which is zero, or nothing. -/
theorem searchBlock_cases (spread : Float32) (e : Extraction) (block : Nat) :
    searchBlock spread e block = e ∨
      ∃ position length, 0 < length ∧ length ≤ longestComponent ∧
        position + length ≤ e.spectrum.length ∧
        (∀ v ∈ (e.spectrum.drop position).take length, v ≠ 0) ∧
        searchBlock spread e block = e.takeRun spread block position length := by
  unfold searchBlock
  extract_lets start lines median floor threshold
  have hthreshold : ¬ threshold < (0 : Float32).abs :=
    Binary32.not_lt_zero (isNegative_threshold ..)
  by_cases hlines : lines.isEmpty
  · exact .inl (if_pos hlines)
  · rw [if_neg hlines]
    have hpeak := peakOf_cases lines
    generalize peakOf lines = best at hpeak ⊢
    obtain ⟨offset, peak⟩ := best
    dsimp -zeta only at hpeak ⊢
    extract_lets position follow length scaled selector mantissas
    split
    · exact .inl rfl
    · rename_i hstands
      have hpeakMagnitude : peak ≠ 0 := by
        rintro rfl
        exact hstands (Bool.or_eq_true_iff.2 (.inr (by decide)))
      obtain ⟨v, hv, rfl⟩ := hpeak.resolve_left hpeakMagnitude
      have hline : e.spectrum[position]? = some v := by
        rw [List.getElem?_take] at hv
        split at hv
        · rwa [List.getElem?_drop] at hv
        · cases hv
      have hfollow : follow <+: e.spectrum.drop (position + 1) :=
        (List.takeWhile_prefix _).trans (List.take_prefix _ _)
      have hrun : (e.spectrum.drop position).take length = v :: follow :=
        take_drop_eq_cons hline hfollow
      have hlength : length = 1 + follow.length := rfl
      have hfits := congrArg List.length hrun
      rw [List.length_take, List.length_drop, List.length_cons] at hfits
      have hmost : follow.length ≤ longestComponent - 1 :=
        Nat.le_trans (List.takeWhile_sublist _).length_le (List.length_take_le ..)
      have hpeakLine : v ≠ 0 := by
        rintro rfl
        exact hpeakMagnitude (by decide)
      refine .inr ⟨position, length, by omega, ?_, by omega, ?_, rfl⟩
      · unfold longestComponent at *
        omega
      · rw [hrun]
        refine List.forall_mem_cons.2 ⟨hpeakLine, fun w hw => ?_⟩
        have habove := of_decide_eq_true (List.all_eq_true.1 List.all_takeWhile w hw)
        rintro rfl
        exact hthreshold habove

theorem isSound_searchBlock (spread : Float32) {e : Extraction} (he : e.IsSound) (block : Nat) :
    (searchBlock spread e block).IsSound := by
  rcases searchBlock_cases spread e block with hkept | ⟨position, length, hpos, -, hrun, -, htaken⟩
  · rwa [hkept]
  · rw [htaken]
    rw [he.length] at hrun
    have hposition : position < Layout.atrac3.frameLines := by omega
    constructor
    · have hfits : position + (List.replicate length (0 : Float32)).length ≤ e.spectrum.length := by
        rwa [List.length_replicate, he.length]
      exact (length_putLines hfits).trans he.length
    · refine List.forall_mem_append.2 ⟨he.placed, List.forall_mem_singleton.2 ⟨?_, hposition, ?_⟩⟩
      · exact one_lt_componentSelector ..
      · simp only [componentOf, Layout.length_values_scale, List.length_take, List.length_drop,
          he.length]
        omega

/-! ### Searching a spectrum -/

theorem mem_byPeak {c : TonalComponent} {cs : List TonalComponent} : c ∈ byPeak cs ↔ c ∈ cs :=
  List.mem_mergeSort

theorem isSound_extractComponents {spectrum : List Float32}
    (hlength : spectrum.length = Layout.atrac3.frameLines) (spread : Float32) :
    (extractComponents spectrum spread).IsSound := by
  have hall :
      ((List.range Layout.atrac3.blocks).foldl (searchBlock spread) ⟨spectrum, []⟩).IsSound :=
    List.foldlRecOn (motive := Extraction.IsSound) _ _ ⟨hlength, nofun⟩ fun e he block _ =>
      isSound_searchBlock spread he block
  unfold extractComponents
  constructor
  · exact length_restore hall.length fun c hc =>
      hall.placed c (mem_byPeak.1 (List.mem_of_mem_drop hc))
  · exact fun c hc => hall.placed c (mem_byPeak.1 (List.mem_of_mem_take hc))

/-! ### Within a budget -/

theorem TonalGroups.build_nil : TonalGroups.build [] = {} := by
  simp [TonalGroups.build, TonalGroups.groupsFor, TonalGroups.keys, TonalGroups.ofGroups]

/-- The groups are those of the longest row of the first components that the budget pays for. -/
theorem exists_affordable_longest (cs : List TonalComponent) (budget count : Nat) :
    ∃ n ≤ count, affordable cs budget count = (.build (cs.take n), n) ∧
      (n = 0 ∨ (TonalGroups.build (cs.take n)).bits ≤ budget) ∧
      ∀ m, n < m → m ≤ count → budget < (TonalGroups.build (cs.take m)).bits := by
  induction count with
  | zero => exact ⟨0, Nat.le_refl 0, rfl, .inl rfl, fun m hpos hzero => by omega⟩
  | succ count ih =>
    rw [affordable]
    by_cases hfits : (TonalGroups.build (cs.take (count + 1))).bits ≤ budget
    · rw [if_pos hfits]
      exact ⟨count + 1, Nat.le_refl _, rfl, .inr hfits, fun m hlt hle => by omega⟩
    · rw [if_neg hfits]
      obtain ⟨n, hn, heq, hbits, hlonger⟩ := ih
      refine ⟨n, Nat.le_succ_of_le hn, heq, hbits, fun m hlt hle => ?_⟩
      rcases Nat.le_succ_iff.1 hle with hle | rfl
      · exact hlonger m hlt hle
      · exact Nat.lt_of_not_le hfits

/-- The groups are those of some of the components, within the budget. -/
theorem exists_affordable_eq (cs : List TonalComponent) {budget : Nat}
    (hbudget : 5 ≤ budget) (count : Nat) :
    ∃ n, (affordable cs budget count).1 = .build (cs.take n) ∧
    (affordable cs budget count).1.bits ≤ budget := by
  obtain ⟨n, -, heq, hbits, -⟩ := exists_affordable_longest cs budget count
  rw [heq]
  refine ⟨n, rfl, ?_⟩
  rcases hbits with rfl | hbits
  · rwa [List.take_zero, TonalGroups.build_nil]
  · exact hbits

/-- **The groups are those of components of the frame, within the budget, and the spectrum keeps its
lines.** -/
theorem extractTonal_spec {spectrum : List Float32}
    (hlength : spectrum.length = Layout.atrac3.frameLines) (spread : Float32) {budget : Nat}
    (hbudget : 5 ≤ budget) :
    (extractTonal spectrum spread budget).1.bits ≤ budget ∧
      (extractTonal spectrum spread budget).2.length = Layout.atrac3.frameLines ∧
      ∃ cs, (extractTonal spectrum spread budget).1 = .build cs ∧ ∀ c ∈ cs, c.IsPlaced := by
  have hsound := isSound_extractComponents hlength spread
  obtain ⟨n, hgroups, hbits⟩ :=
    exists_affordable_eq (extractComponents spectrum spread).found hbudget
    (extractComponents spectrum spread).found.length
  unfold extractTonal
  extract_lets e
  generalize affordable e.found budget e.found.length = found at hgroups hbits ⊢
  obtain ⟨groups, count⟩ := found
  refine ⟨hbits, ?_, e.found.take n, hgroups, fun c hc => hsound.placed c (List.mem_of_mem_take hc)⟩
  dsimp only
  split
  · apply length_restore hsound.length
    intro c hc
    rcases List.mem_append.1 hc with hc | hc
    · exact hsound.placed c (List.mem_of_mem_drop hc)
    · exact hsound.placed c (List.mem_of_mem_take (List.mem_filter.1 hc).1)
  · exact hsound.length

end Atrac3

end SpectralCoding
