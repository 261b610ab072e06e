import Mathlib.Order.Interval.Finset.Nat
import SpectralCoding.Proofs.Atrac1.ReadBlocks
import SpectralCoding.Proofs.Atrac3.Extraction

/-!
# The lines of tonal components

A component takes its lines out of the spectrum, so that no later one can take them again: a line
that is zero neither is a peak nor continues a run. What becomes of a line therefore depends on one
component at most. It is left alone, or it is zero for good, or it is put back as the scaled value
of a component that is dropped.

* `TonalComponent.lines`, `TonalComponent.restored` : the lines of a component, and what is put back
  for them.
* `Atrac3.getElem?_restore_of_mem`, `Atrac3.getElem?_restore_of_not_mem` : a spectrum with
  components put back.
* `TonalComponent.IsRunOf` : a component is a run of one to eight lines of a spectrum.
* `Extraction.IsTakenFrom` : an extraction has taken apart what was in a spectrum.
* `Atrac3.isTakenFrom_searchBlock` : searching a block takes apart what is left.
* `Atrac3.extractTonal_lines` : **every line of a spectrum is left alone, coded in one component or
  put back.**
-/

namespace SpectralCoding

namespace Atrac3

namespace TonalComponent

/-- The lines of a component. -/
def lines (c : TonalComponent) : Finset Nat :=
  .Ico c.position (c.position + c.scaled.values.length)

/-- The lines of a component as its scaled values give them. -/
def restored (c : TonalComponent) : List Float32 :=
  c.scaled.values.map (· * Layout.atrac3.scaleFactor c.scaled.index)

/-- Two components have no line in common. -/
def Apart (c d : TonalComponent) : Prop := Disjoint c.lines d.lines

theorem Apart.symm {c d : TonalComponent} (h : c.Apart d) : d.Apart c := Disjoint.symm h

theorem Apart.not_mem {c d : TonalComponent} (h : c.Apart d) {i : Nat} (hi : i ∈ c.lines) :
    i ∉ d.lines := Finset.disjoint_left.1 h hi

theorem mem_lines {c : TonalComponent} {i : Nat} :
    i ∈ c.lines ↔ c.position ≤ i ∧ i < c.position + c.scaled.values.length := Finset.mem_Ico

theorem length_restored (c : TonalComponent) : c.restored.length = c.scaled.values.length :=
  List.length_map _

end TonalComponent

/-! ### Lines put in their place -/

section PutLines

variable {spectrum values : List Float32} {first : Nat}

theorem getElem?_putLines_of_mem (h : first + values.length ≤ spectrum.length) {j : Nat}
    (hj : j < values.length) : (putLines spectrum first values)[first + j]? = values[j]? :=
  Atrac1.getElem?_overlay_of_inside h hj

theorem getElem?_putLines_of_not_mem (h : first + values.length ≤ spectrum.length) {i : Nat}
    (hi : i ∉ Finset.Ico first (first + values.length)) :
    (putLines spectrum first values)[i]? = spectrum[i]? := by
  rw [Finset.mem_Ico] at hi
  exact Atrac1.getElem?_overlay_of_outside h (by omega)

end PutLines

section Restore

variable {spectrum : List Float32} {cs ds : List TonalComponent} {c : TonalComponent}

theorem restore_cons (spectrum : List Float32) (c : TonalComponent) (cs : List TonalComponent) :
    restore spectrum (c :: cs) = restore (putLines spectrum c.position c.restored) cs := rfl

theorem restore_append (spectrum : List Float32) (cs ds : List TonalComponent) :
    restore spectrum (cs ++ ds) = restore (restore spectrum cs) ds := List.foldl_append

theorem fits_of_isPlaced (hlength : spectrum.length = Layout.atrac3.frameLines)
    (hc : c.IsPlaced) : c.position + c.restored.length ≤ spectrum.length := by
  rw [c.length_restored, hlength]
  exact hc.lines

theorem getElem?_restore_of_not_mem (hlength : spectrum.length = Layout.atrac3.frameLines)
    (hcs : ∀ c ∈ cs, c.IsPlaced) {i : Nat} (hi : ∀ c ∈ cs, i ∉ c.lines) :
    (restore spectrum cs)[i]? = spectrum[i]? := by
  induction cs generalizing spectrum with
  | nil => rfl
  | cons c cs ih =>
    obtain ⟨hc, hcs⟩ := List.forall_mem_cons.1 hcs
    obtain ⟨hic, hi⟩ := List.forall_mem_cons.1 hi
    have hfits := fits_of_isPlaced hlength hc
    have hput : (putLines spectrum c.position c.restored).length = Layout.atrac3.frameLines :=
      (length_putLines hfits).trans hlength
    rw [restore_cons, ih hput hcs hi]
    refine getElem?_putLines_of_not_mem hfits ?_
    rwa [c.length_restored]

/-- Each of the components put back has its lines, if no two have a line in common. -/
theorem getElem?_restore_of_mem (hlength : spectrum.length = Layout.atrac3.frameLines)
    (hcs : ∀ c ∈ cs, c.IsPlaced) (hapart : cs.Pairwise TonalComponent.Apart) (hc : c ∈ cs) {j : Nat}
    (hj : j < c.scaled.values.length) :
    (restore spectrum cs)[c.position + j]? = c.restored[j]? := by
  induction cs generalizing spectrum with
  | nil => exact absurd hc List.not_mem_nil
  | cons d cs ih =>
    obtain ⟨hd, hrest⟩ := List.forall_mem_cons.1 hcs
    obtain ⟨hfirst, hapart⟩ := List.pairwise_cons.1 hapart
    have hfits := fits_of_isPlaced hlength hd
    have hput : (putLines spectrum d.position d.restored).length = Layout.atrac3.frameLines :=
      (length_putLines hfits).trans hlength
    rw [restore_cons]
    rcases List.mem_cons.1 hc with rfl | hc
    · -- what is put back later leaves these lines alone
      have hmem : c.position + j ∈ c.lines :=
        TonalComponent.mem_lines.2 ⟨Nat.le_add_right _ _, Nat.add_lt_add_left hj _⟩
      rw [getElem?_restore_of_not_mem hput hrest fun e he => (hfirst e he).not_mem hmem]
      exact getElem?_putLines_of_mem hfits (by rwa [c.length_restored])
    · exact ih hput hrest hapart hc

end Restore

/-! ### Components of a spectrum -/

/-- A component is a run of one to eight lines of a spectrum, in the frame, as it is scaled and
quantised. -/
def TonalComponent.IsRunOf (spread : Float32) (spectrum : List Float32) (c : TonalComponent) :
    Prop :=
  ∃ length, 0 < length ∧ length ≤ longestComponent ∧
    c.position + length ≤ Layout.atrac3.frameLines ∧
    c = componentOf spread c.block c.position ((spectrum.drop c.position).take length)

/-- An extraction has taken apart what was in a spectrum: the components found are runs of it
without a line in common, which is zero now, and the other lines are left. -/
structure Extraction.IsTakenFrom (spread : Float32) (spectrum : List Float32) (e : Extraction) :
    Prop where
  length : e.spectrum.length = Layout.atrac3.frameLines
  run : ∀ c ∈ e.found, c.IsRunOf spread spectrum
  apart : e.found.Pairwise TonalComponent.Apart
  cleared : ∀ c ∈ e.found, ∀ i ∈ c.lines, e.spectrum[i]? = some 0
  kept : ∀ i, (∀ c ∈ e.found, i ∉ c.lines) → e.spectrum[i]? = spectrum[i]?

section Searching

variable {spread : Float32} {spectrum : List Float32} {e : Extraction} {c : TonalComponent}

theorem lines_componentOf (spread : Float32) (block position : Nat) (run : List Float32) :
    (componentOf spread block position run).lines = .Ico position (position + run.length) := by
  simp [TonalComponent.lines, componentOf]

theorem TonalComponent.IsRunOf.eq_componentOf (hlength : spectrum.length = Layout.atrac3.frameLines)
    (h : c.IsRunOf spread spectrum) :
    0 < c.scaled.values.length ∧ c.scaled.values.length ≤ longestComponent ∧
      c.position + c.scaled.values.length ≤ Layout.atrac3.frameLines ∧
      c = componentOf spread c.block c.position
        ((spectrum.drop c.position).take c.scaled.values.length) := by
  obtain ⟨length, hpos, hmost, hfits, heq⟩ := h
  have hcount : c.scaled.values.length = length := by
    rw [heq]
    simp only [componentOf, Layout.length_values_scale, List.length_take, List.length_drop]
    omega
  rw [hcount]
  exact ⟨hpos, hmost, hfits, heq⟩

theorem TonalComponent.IsRunOf.isPlaced (hlength : spectrum.length = Layout.atrac3.frameLines)
    (h : c.IsRunOf spread spectrum) : c.IsPlaced := by
  obtain ⟨hpos, -, hfits, -⟩ := h.eq_componentOf hlength
  obtain ⟨_, -, -, -, heq⟩ := h
  refine ⟨?_, by omega, hfits⟩
  rw [heq]
  exact one_lt_componentSelector ..

/-- A component has one to eight lines, all in the frame, and a mantissa for each. -/
theorem TonalComponent.IsRunOf.card_lines (hlength : spectrum.length = Layout.atrac3.frameLines)
    (h : c.IsRunOf spread spectrum) :
    c.lines ⊆ Finset.range Layout.atrac3.frameLines ∧
      1 ≤ c.lines.card ∧ c.lines.card ≤ longestComponent ∧ c.length = c.lines.card := by
  obtain ⟨hpos, hmost, hfits, -⟩ := h.eq_componentOf hlength
  have hcard : c.lines.card = c.scaled.values.length := by
    rw [TonalComponent.lines, Nat.card_Ico, Nat.add_sub_cancel_left]
  have hmantissas : c.length = c.scaled.values.length := by
    obtain ⟨_, -, -, -, heq⟩ := h
    rw [heq]
    exact List.length_map _
  rw [hcard, hmantissas]
  refine ⟨fun i hi => Finset.mem_range.2 ?_, hpos, hmost, rfl⟩
  exact Nat.lt_of_lt_of_le (TonalComponent.mem_lines.1 hi).2 hfits

theorem getElem?_take_drop {lines : List Float32} {position length i : Nat}
    (hi : i ∈ Finset.Ico position (position + length)) :
    ((lines.drop position).take length)[i - position]? = lines[i]? := by
  obtain ⟨hle, hlt⟩ := Finset.mem_Ico.1 hi
  rw [List.getElem?_take_of_lt (by omega), List.getElem?_drop, Nat.add_sub_cancel' hle]

theorem take_drop_congr {lines lines' : List Float32} {position length : Nat}
    (h : ∀ i ∈ Finset.Ico position (position + length), lines[i]? = lines'[i]?) :
    (lines.drop position).take length = (lines'.drop position).take length := by
  refine List.ext_getElem? fun j => ?_
  by_cases hj : j < length
  · have hmem : position + j ∈ Finset.Ico position (position + length) :=
      Finset.mem_Ico.2 ⟨Nat.le_add_right _ _, Nat.add_lt_add_left hj _⟩
    rw [List.getElem?_take_of_lt hj, List.getElem?_take_of_lt hj, List.getElem?_drop,
      List.getElem?_drop, h _ hmem]
  · rw [List.getElem?_take_eq_none (Nat.le_of_not_lt hj),
      List.getElem?_take_eq_none (Nat.le_of_not_lt hj)]

/-- Taking a run of lines none of which is zero takes apart what is left. -/
theorem isTakenFrom_takeRun (he : e.IsTakenFrom spread spectrum) (block : Nat)
    {position length : Nat} (hpos : 0 < length) (hmost : length ≤ longestComponent)
    (hfits : position + length ≤ e.spectrum.length)
    (hrun : ∀ v ∈ (e.spectrum.drop position).take length, v ≠ 0) :
    (e.takeRun spread block position length).IsTakenFrom spread spectrum := by
  have hcount : ((e.spectrum.drop position).take length).length = length := by
    rw [List.length_take, List.length_drop]
    omega
  have hput : position + (List.replicate length (0 : Float32)).length ≤ e.spectrum.length := by
    rwa [List.length_replicate]
  have hout (i : Nat) (hi : i ∉ Finset.Ico position (position + length)) :
      (putLines e.spectrum position (List.replicate length 0))[i]? = e.spectrum[i]? := by
    refine getElem?_putLines_of_not_mem hput ?_
    rwa [List.length_replicate]
  -- a line of the run is not zero, so that no component has taken it before
  have hfresh : ∀ i ∈ Finset.Ico position (position + length), ∀ d ∈ e.found, i ∉ d.lines := by
    intro i hi d hd hmem
    have hzero : ((e.spectrum.drop position).take length)[i - position]? = some 0 :=
      (getElem?_take_drop hi).trans (he.cleared d hd i hmem)
    exact hrun 0 (List.mem_of_getElem? hzero) rfl
  have hsame : (e.spectrum.drop position).take length = (spectrum.drop position).take length :=
    take_drop_congr fun i hi => he.kept i (hfresh i hi)
  have hlines : (componentOf spread block position ((e.spectrum.drop position).take length)).lines =
      .Ico position (position + length) := by
    rw [lines_componentOf, hcount]
  constructor
  · exact (length_putLines hput).trans he.length
  · refine List.forall_mem_append.2 ⟨he.run, List.forall_mem_singleton.2 ?_⟩
    refine ⟨length, hpos, hmost, he.length ▸ hfits, ?_⟩
    rw [hsame]
    rfl
  · refine List.pairwise_append.2 ⟨he.apart, List.pairwise_singleton _ _, fun d hd c hc => ?_⟩
    rw [List.mem_singleton.1 hc]
    refine Finset.disjoint_right.2 fun i hi => hfresh i ?_ d hd
    rwa [hlines] at hi
  · refine List.forall_mem_append.2 ⟨fun d hd i hi => ?_, List.forall_mem_singleton.2 ?_⟩
    · exact (hout i fun hmem => hfresh i hmem d hd hi).trans (he.cleared d hd i hi)
    · intro i hi
      rw [hlines] at hi
      obtain ⟨j, rfl⟩ := Nat.exists_eq_add_of_le (Finset.mem_Ico.1 hi).1
      have hj : j < length := Nat.lt_of_add_lt_add_left (Finset.mem_Ico.1 hi).2
      refine (getElem?_putLines_of_mem hput (by rwa [List.length_replicate])).trans ?_
      exact List.getElem?_replicate_of_lt hj
  · intro i hi
    obtain ⟨hfound, hi⟩ := List.forall_mem_append.1 hi
    rw [List.forall_mem_singleton, hlines] at hi
    exact (hout i hi).trans (he.kept i hfound)

theorem isTakenFrom_searchBlock (he : e.IsTakenFrom spread spectrum) (block : Nat) :
    (searchBlock spread e block).IsTakenFrom spread spectrum := by
  rcases searchBlock_cases spread e block
    with hkept | ⟨position, length, hpos, hmost, hfits, hrun, htaken⟩
  · rwa [hkept]
  · rw [htaken]
    exact isTakenFrom_takeRun he block hpos hmost hfits hrun

/-- The blocks of a spectrum searched one after the other. -/
def searchBlocks (spread : Float32) (spectrum : List Float32) : Extraction :=
  (List.range Layout.atrac3.blocks).foldl (searchBlock spread) ⟨spectrum, []⟩

theorem isTakenFrom_searchBlocks (spread : Float32)
    (hlength : spectrum.length = Layout.atrac3.frameLines) :
    (searchBlocks spread spectrum).IsTakenFrom spread spectrum := by
  have hstart : Extraction.IsTakenFrom spread spectrum ⟨spectrum, []⟩ :=
    ⟨hlength, nofun, .nil, nofun, fun _ _ => rfl⟩
  exact List.foldlRecOn (motive := Extraction.IsTakenFrom spread spectrum) _ _ hstart
    fun e he block _ => isTakenFrom_searchBlock he block

end Searching

/-! ### The strongest components -/

section Strongest

variable {spectrum : List Float32} {cs : List TonalComponent}

/-- The components that are kept at most. -/
def strongest (cs : List TonalComponent) : List TonalComponent := (byPeak cs).take mostComponents

theorem perm_byPeak (cs : List TonalComponent) : (byPeak cs).Perm cs := List.mergeSort_perm ..

theorem pairwise_byPeak (cs : List TonalComponent) :
    (byPeak cs).Pairwise fun c d =>
      Binary32.orderKey d.scaled.energy ≤ Binary32.orderKey c.scaled.energy := by
  refine (List.pairwise_mergeSort ?_ ?_ cs).imp of_decide_eq_true
  · intro a b c hab hbc
    exact decide_eq_true (Int.le_trans (of_decide_eq_true hbc) (of_decide_eq_true hab))
  · intro a b
    simpa using Int.le_total _ _

theorem length_strongest_le (cs : List TonalComponent) :
    (strongest cs).length ≤ mostComponents := List.length_take_le ..

/-- What is dropped for want of a place or of bits. -/
def weakest (cs : List TonalComponent) (count : Nat) : List TonalComponent :=
  (byPeak cs).drop mostComponents ++ (strongest cs).drop count

theorem perm_take_append_weakest (cs : List TonalComponent) (count : Nat) :
    ((strongest cs).take count ++ weakest cs count).Perm cs := by
  have hswap : (weakest cs count).Perm
      ((strongest cs).drop count ++ (byPeak cs).drop mostComponents) := List.perm_append_comm
  refine (hswap.append_left _).trans ?_
  rw [← List.append_assoc, List.take_append_drop, strongest, List.take_append_drop]
  exact perm_byPeak cs

/-- As many of the strongest components are kept as the budget pays for, and the others are put
back. A component is never dropped for want of a group. -/
theorem exists_extractTonal_eq (spectrum : List Float32) (spread : Float32) (budget : Nat) :
    let e := searchBlocks spread spectrum
    ∃ n ≤ (strongest e.found).length,
      extractTonal spectrum spread budget =
        (.build ((strongest e.found).take n), restore e.spectrum (weakest e.found n)) ∧
      (n = 0 ∨ (TonalGroups.build ((strongest e.found).take n)).bits ≤ budget) ∧
      ∀ m, n < m → m ≤ (strongest e.found).length →
        budget < (TonalGroups.build ((strongest e.found).take m)).bits := by
  intro e
  obtain ⟨n, hn, heq, hbits, hlonger⟩ :=
    exists_affordable_longest (strongest e.found) budget (strongest e.found).length
  refine ⟨n, hn, ?_, hbits, hlonger⟩
  have hperm : (TonalGroups.build ((strongest e.found).take n)).components.Perm
      ((strongest e.found).take n) := by
    refine TonalGroups.perm_components_build ?_
    exact Nat.le_trans (List.length_take_le' ..) (length_strongest_le _)
  have hcomponents : extractComponents spectrum spread =
      ⟨restore e.spectrum ((byPeak e.found).drop mostComponents), strongest e.found⟩ := rfl
  clear_value e
  have hungrouped : ((strongest e.found).take n).filter (fun c =>
      !((TonalGroups.build ((strongest e.found).take n)).components.map (·.position)).contains
        c.position) = [] := by
    refine List.filter_eq_nil_iff.2 fun c hc => ?_
    have hmem := List.mem_map_of_mem (f := TonalComponent.position) (hperm.mem_iff.2 hc)
    simpa using hmem
  have hcount : ((TonalGroups.build ((strongest e.found).take n)).components.map
      (·.position)).length = n := by
    rw [List.length_map, hperm.length_eq, List.length_take_of_le hn]
  rw [extractTonal, hcomponents]
  dsimp only
  rw [heq]
  dsimp only
  rw [hungrouped, hcount, List.append_nil, weakest, restore_append]
  split
  · rfl
  · rename_i hall
    rw [List.drop_of_length_le (Nat.le_of_not_lt hall)]
    rfl

/-- **Every line of a spectrum is left alone, coded in one component or put back.** The components
found are runs of one to eight lines of the spectrum, no two of which have a line in common. Those
that are kept are as many of the 31 strongest, by falling peak, as the budget pays for, and each is
in the groups once. Their lines are zero; the lines of the others are the scaled values multiplied
by their scale factors, and a line of no component is what it was. -/
theorem extractTonal_lines (hlength : spectrum.length = Layout.atrac3.frameLines)
    (spread : Float32) (budget : Nat) :
    ∃ found kept dropped : List TonalComponent,
      found = (searchBlocks spread spectrum).found ∧
      (∀ c ∈ found, c.IsRunOf spread spectrum ∧ c.lines ⊆ Finset.range Layout.atrac3.frameLines ∧
        1 ≤ c.lines.card ∧ c.lines.card ≤ longestComponent ∧ c.length = c.lines.card) ∧
      found.Pairwise TonalComponent.Apart ∧
      ((byPeak found).Perm found ∧ (byPeak found).Pairwise fun c d =>
        Binary32.orderKey d.scaled.energy ≤ Binary32.orderKey c.scaled.energy) ∧
      (∃ n ≤ (strongest found).length, kept = (strongest found).take n ∧
        ∀ m, n < m → m ≤ (strongest found).length →
          budget < (TonalGroups.build ((strongest found).take m)).bits) ∧
      (kept ++ dropped).Perm found ∧
      ((extractTonal spectrum spread budget).1 = .build kept ∧
        (extractTonal spectrum spread budget).1.components.Perm kept ∧
        ((extractTonal spectrum spread budget).1.groups = [] ∨
          (extractTonal spectrum spread budget).1.bits ≤ budget)) ∧
      (extractTonal spectrum spread budget).2.length = Layout.atrac3.frameLines ∧
      (∀ i, (∀ c ∈ found, i ∉ c.lines) →
        (extractTonal spectrum spread budget).2[i]? = spectrum[i]?) ∧
      (∀ c ∈ kept, ∀ i ∈ c.lines, (extractTonal spectrum spread budget).2[i]? = some 0) ∧
      ∀ c ∈ dropped, ∀ j v, c.scaled.values[j]? = some v →
        (extractTonal spectrum spread budget).2[c.position + j]? =
          some (v * Layout.atrac3.scaleFactor c.scaled.index) := by
  obtain ⟨n, hn, heq, hbits, hlonger⟩ := exists_extractTonal_eq spectrum spread budget
  have htaken := isTakenFrom_searchBlocks spread hlength
  generalize searchBlocks spread spectrum = e at *
  have hperm := perm_take_append_weakest e.found n
  have hapart : ((strongest e.found).take n ++ weakest e.found n).Pairwise TonalComponent.Apart :=
    (hperm.pairwise_iff fun h => h.symm).2 htaken.apart
  obtain ⟨-, hweakest, hacross⟩ := List.pairwise_append.1 hapart
  have hplaced : ∀ c ∈ weakest e.found n, c.IsPlaced := fun c hc =>
    (htaken.run c (hperm.mem_iff.1 (List.mem_append_right _ hc))).isPlaced hlength
  refine ⟨e.found, (strongest e.found).take n, weakest e.found n, rfl,
    fun c hc => ⟨htaken.run c hc, (htaken.run c hc).card_lines hlength⟩, htaken.apart,
    ⟨perm_byPeak _, pairwise_byPeak _⟩, ⟨n, hn, rfl, hlonger⟩, hperm, ⟨?_, ?_, ?_⟩, ?_, ?_, ?_, ?_⟩
  · rw [heq]
  · rw [heq]
    refine TonalGroups.perm_components_build ?_
    exact Nat.le_trans (List.length_take_le' ..) (length_strongest_le _)
  · rw [heq]
    rcases hbits with rfl | hbits
    · left
      rw [List.take_zero, TonalGroups.build_nil]
    · exact .inr hbits
  · rw [heq]
    exact length_restore htaken.length hplaced
  · intro i hi
    have hout : ∀ c ∈ weakest e.found n, i ∉ c.lines := fun c hc =>
      hi c (hperm.mem_iff.1 (List.mem_append_right _ hc))
    rw [heq, getElem?_restore_of_not_mem htaken.length hplaced hout]
    exact htaken.kept i hi
  · intro c hc i hi
    have hout : ∀ d ∈ weakest e.found n, i ∉ d.lines := fun d hd => (hacross c hc d hd).not_mem hi
    rw [heq, getElem?_restore_of_not_mem htaken.length hplaced hout]
    exact htaken.cleared c (hperm.mem_iff.1 (List.mem_append_left _ hc)) i hi
  · intro c hc j v hv
    have hj : j < c.scaled.values.length := (List.getElem?_eq_some_iff.1 hv).1
    rw [heq, getElem?_restore_of_mem htaken.length hplaced hweakest hc hj,
      TonalComponent.restored, List.getElem?_map, hv]
    rfl

/-- In silence, a burst of four lines, one of them no number and one infinite, and a fainter one of
three lines. -/
def bursts : List Float32 :=
  List.replicate 500 0 ++ [3, 0 / 0, -1 / 0, 0.5] ++ List.replicate 196 0 ++ [0.25, 0.2, 0.1] ++
    List.replicate 321 0

/-- The middle of the magnitudes, sorted step by step. -/
theorem medianMagnitude_eq : medianMagnitude = fun values =>
    let patterns := (values.map fun v => Binary32.pattern v.abs).insertionSort (· ≤ ·)
    Float32.ofBits (UInt32.ofNat (patterns.getD (patterns.length / 2) 0)) := by
  funext values
  simp only [medianMagnitude, List.mergeSort_eq_insertionSort]

/-- The component of the first burst. -/
def firstBurst : TonalComponent := componentOf 0.5 25 501 ((bursts.drop 501).take 3)

/-- The component of the second burst. -/
def secondBurst : TonalComponent := componentOf 0.5 28 700 ((bursts.drop 700).take 3)

theorem length_bursts : bursts.length = Layout.atrac3.frameLines := by
  simp only [bursts, List.length_append, List.length_replicate, List.length_cons, List.length_nil]
  decide

theorem found_bursts : (searchBlocks 0.5 bursts).found = [firstBurst, secondBurst] := by
  have hplaces : (searchBlocks 0.5 bursts).found.map
      (fun c => (c.block, c.position, c.scaled.values.length)) = [(25, 501, 3), (28, 700, 3)] := by
    delta searchBlocks searchBlock
    rw [medianMagnitude_eq]
    decide +kernel
  have hruns := (isTakenFrom_searchBlocks 0.5 length_bursts).run
  generalize (searchBlocks 0.5 bursts).found = found at hplaces hruns
  obtain ⟨c, rest, rfl, hc, hrest⟩ := List.map_eq_cons_iff.1 hplaces
  obtain ⟨d, rest, rfl, hd, hnil⟩ := List.map_eq_cons_iff.1 hrest
  obtain rfl := List.map_eq_nil_iff.1 hnil
  obtain ⟨-, -, -, hfirst⟩ := (hruns c (by simp)).eq_componentOf length_bursts
  obtain ⟨-, -, -, hsecond⟩ := (hruns d (by simp)).eq_componentOf length_bursts
  simp only [Prod.mk.injEq] at hc hd
  rw [hc.1, hc.2.1, hc.2.2] at hfirst
  rw [hd.1, hd.2.1, hd.2.2] at hsecond
  rw [hfirst, hsecond]
  rfl

theorem strongest_bursts : strongest [firstBurst, secondBurst] = [firstBurst, secondBurst] := by
  rw [strongest, byPeak, List.mergeSort_of_pairwise (List.pairwise_pair.2 (by decide +kernel))]
  rfl

theorem bits_build_firstBurst : (TonalGroups.build [firstBurst]).bits = 55 := by
  rw [TonalGroups.build_of_key (k := (7, 3)) (List.cons_ne_nil _ _)
    (List.forall_mem_singleton.2 (by decide +kernel)) (List.pairwise_singleton ..) (by decide)]
  decide +kernel

theorem build_bothBursts : TonalGroups.build [firstBurst, secondBurst] =
    TonalGroups.ofGroups [⟨7, 3, [firstBurst, secondBurst]⟩] :=
  TonalGroups.build_of_key (k := (7, 3)) (List.cons_ne_nil _ _)
    (List.forall_mem_cons.2 ⟨by decide +kernel, List.forall_mem_singleton.2 (by decide +kernel)⟩)
    (List.pairwise_pair.2 (by decide +kernel)) (by decide)

/-- With 60 bits the component of the first burst is kept, and that of the second is put back. -/
theorem extractTonal_lines_bursts :
    bursts.length = Layout.atrac3.frameLines ∧
      (searchBlocks 0.5 bursts).found = [firstBurst, secondBurst] ∧
      (extractTonal bursts 0.5 60).1 = .build [firstBurst] ∧
      (extractTonal bursts 0.5 60).1.components.Perm [firstBurst] ∧
      (∀ i ∈ firstBurst.lines, (extractTonal bursts 0.5 60).2[i]? = some 0) ∧
      (∀ j v, secondBurst.scaled.values[j]? = some v → (extractTonal bursts 0.5 60).2[700 + j]? =
        some (v * Layout.atrac3.scaleFactor secondBurst.scaled.index)) ∧
      ∀ i, i ∉ firstBurst.lines → i ∉ secondBurst.lines →
        (extractTonal bursts 0.5 60).2[i]? = bursts[i]? := by
  obtain ⟨found, kept, dropped, hfound, -, -, -, ⟨n, hn, hkept, hlonger⟩, hperm,
    ⟨hgroups, hcomponents, hbits⟩, -, hleft, hcleared, hput⟩ :=
    extractTonal_lines length_bursts 0.5 60
  rw [found_bursts] at hfound
  subst hfound
  rw [strongest_bursts] at hn hkept hlonger
  have hpos : 0 < n := by
    by_contra hnone
    have hdear := hlonger 1 (Nat.lt_of_le_of_lt (Nat.le_of_not_lt hnone) Nat.one_pos) (by decide)
    rw [List.take_succ_cons, List.take_zero, bits_build_firstBurst] at hdear
    exact absurd hdear (by decide)
  -- the two together take 97 bits
  have hless : n < 2 := by
    refine Nat.lt_of_le_of_ne hn ?_
    rintro rfl
    rw [hgroups, hkept, List.take_of_length_le (by decide), build_bothBursts] at hbits
    rcases hbits with hnone | hbits
    · simp [TonalGroups.ofGroups] at hnone
    · exact absurd hbits (by decide +kernel)
  obtain rfl : n = 1 := Nat.le_antisymm (Nat.le_of_lt_succ hless) hpos
  obtain rfl : kept = [firstBurst] := hkept
  obtain rfl : dropped = [secondBurst] := List.perm_singleton.1 (hperm.cons_inv)
  refine ⟨length_bursts, found_bursts, hgroups, hcomponents,
    List.forall_mem_singleton.1 hcleared, List.forall_mem_singleton.1 hput,
    fun i hfirst hsecond => ?_⟩
  exact hleft i (List.forall_mem_cons.2 ⟨hfirst, List.forall_mem_singleton.2 hsecond⟩)

end Strongest

end Atrac3

end SpectralCoding
