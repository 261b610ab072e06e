import Mathlib.Data.List.Flatten
import SpectralCoding.Proofs.Atrac3.Grouping
import SpectralCoding.Proofs.Atrac3.SpectrumCost

/-!
# What tonal components cost

The components of a group are written window by window, those of a band without any left out. A
component of a frame lies in one window, so that each is written once.

* `Atrac3.sum_inWindow` : a sum over all components, taken window by window.
* `TonalGroup.length_emit` : a group takes its side cost and the mantissas of its components.
* `TonalGroups.length_emit_build` : the components of a sound unit take the bits that were foretold.
-/

namespace SpectralCoding

namespace Atrac3

/-- A sum over all components, taken window by window. -/
theorem sum_inWindow {cs : List TonalComponent} {windows : List Nat} (hnodup : windows.Nodup)
    (hcover : ∀ c ∈ cs, c.window ∈ windows) (f : TonalComponent → Nat) :
    (windows.map fun window => ((inWindow window cs).map f).sum).sum = (cs.map f).sum := by
  have hperm : (windows.flatMap fun window => inWindow window cs).Perm cs :=
    perm_flatMap_filter TonalComponent.window hnodup hcover
  rw [← (hperm.map f).sum_eq, List.map_flatMap, List.flatMap_def, List.sum_flatten, List.map_map]
  rfl

theorem sum_of_foldr_addCosts {α : Type} {items : List α} {cost : α → Option Nat}
    {f : α → Nat} {v : Nat} (hcost : ∀ x v, cost x = some v → f x = v)
    (h : items.foldr (fun x total => addCosts (cost x) total) (some 0) = some v) :
    (items.map f).sum = v := by
  induction items generalizing v with
  | nil => exact Option.some.inj h
  | cons x items ih =>
    obtain ⟨a, b, hx, hitems, rfl⟩ := addCosts_eq_some h
    rw [List.map_cons, List.sum_cons, hcost x a hx, ih hitems]

/-! ### A group -/

namespace TonalGroup

variable (g : TonalGroup)

theorem length_windows : g.windows.length = g.bands.length * bandWindows := by
  rw [windows, List.length_flatMap]
  simp

theorem nodup_windows : g.windows.Nodup := by
  have hall : ((List.range Layout.atrac3.bands).flatMap fun band =>
      (List.range bandWindows).map (band * bandWindows + ·)).Nodup := by
    decide
  exact (List.Sublist.flatMap List.filter_sublist _).nodup hall

/-- A component of a frame lies in a window that is written. -/
theorem window_mem_windows {c : TonalComponent} (hc : c ∈ g.components)
    (hposition : c.position < Layout.atrac3.frameLines) : c.window ∈ g.windows := by
  have hwindow : c.window < Layout.atrac3.bands * bandWindows :=
    Nat.div_lt_of_lt_mul hposition
  have hband : c.window / bandWindows ∈ g.bands := by
    refine List.mem_filter.2 ⟨List.mem_range.2 (Nat.div_lt_of_lt_mul (by rwa [Nat.mul_comm])), ?_⟩
    exact List.any_eq_true.2 ⟨c, hc, by simp⟩
  refine List.mem_flatMap.2 ⟨_, hband, List.mem_map.2 ⟨c.window % bandWindows, ?_, ?_⟩⟩
  · exact List.mem_range.2 (Nat.mod_lt _ (by decide))
  · exact Nat.div_add_mod' ..

/-- The bits of the mantissas of a group. -/
def mantissaLength (isFixed : Bool) : Nat :=
  (g.components.map fun c => (emitMantissas isFixed g.selector c.mantissas).bits.length).sum

variable {g}

theorem length_emitComponent {isFixed : Bool} {c : TonalComponent}
    (h : (g.emitComponent isFixed c).fault = none) :
    (g.emitComponent isFixed c).bits.length =
      12 + (emitMantissas isFixed g.selector c.mantissas).bits.length := by
  unfold emitComponent at h ⊢
  rw [Emission.length_concat_of_clean (Emission.fault_concat_eq_none.1 h)]
  simp only [List.map_cons, List.map_nil, List.sum_cons, List.sum_nil, Emission.bits_field,
    Bits.length_ofNat]
  omega

/-- The fields of a window. -/
def windowFields (g : TonalGroup) (isFixed : Bool) (window : Nat) : Emission :=
  .field 3 (inWindow window g.components).length ++
    .each (inWindow window g.components) (g.emitComponent isFixed)

theorem length_windowFields {isFixed : Bool} {window : Nat}
    (h : (g.windowFields isFixed window).fault = none) :
    (g.windowFields isFixed window).bits.length =
      3 + ((inWindow window g.components).map fun c =>
        12 + (emitMantissas isFixed g.selector c.mantissas).bits.length).sum := by
  have hmembers := Emission.fault_each_eq_none.1 (Emission.fault_append_eq_none.1 h).2
  rw [windowFields, Emission.length_append_of_clean h, Emission.length_each_of_clean hmembers]
  rw [List.map_congr_left fun c hc => length_emitComponent (hmembers c hc), Emission.bits_field,
    Bits.length_ofNat]

theorem length_emit {isFixed : Bool}
    (hpositions : ∀ c ∈ g.components, c.position < Layout.atrac3.frameLines)
    (h : (g.emit isFixed).fault = none) :
    (g.emit isFixed).bits.length = g.sideCost + g.mantissaLength isFixed := by
  have hemit : g.emit isFixed =
      .concat
        [.each (List.range Layout.atrac3.bands) fun band => .flag (g.usesBand band),
          .field 3 (g.length - 1), .field 3 g.selector,
          .each g.windows (g.windowFields isFixed)] := rfl
  rw [hemit] at h ⊢
  have hclean := Emission.fault_concat_eq_none.1 h
  have hwindows : (Emission.each g.windows (g.windowFields isFixed)).fault = none :=
    hclean _ (by simp)
  have hflags : (Emission.each (List.range Layout.atrac3.bands)
      fun band => .flag (g.usesBand band)).bits.length =
        (List.range Layout.atrac3.bands).length * 1 :=
    Emission.length_each_of_width (fun _ _ => rfl) fun _ _ => rfl
  have hlength : (Emission.each g.windows (g.windowFields isFixed)).bits.length =
      g.bands.length * bandWindows * 3 + (g.components.length * 12 + g.mantissaLength isFixed) := by
    have heach := Emission.fault_each_eq_none.1 hwindows
    rw [Emission.length_each_of_clean heach,
      List.map_congr_left fun window hwindow => length_windowFields (heach window hwindow),
      List.sum_map_add,
      sum_inWindow g.nodup_windows (fun c hc => g.window_mem_windows hc (hpositions c hc)),
      List.sum_map_add, mantissaLength]
    simp only [List.map_const', List.sum_replicate_nat, length_windows]
  rw [Emission.length_concat_of_clean hclean]
  simp only [List.map_cons, List.map_nil, List.sum_cons, List.sum_nil, Emission.bits_field,
    Bits.length_ofNat, hflags, hlength, sideCost, List.length_range]
  omega

theorem mantissaLength_fixed (hselector : 1 < g.selector) :
    g.mantissaLength true = g.fixedCost := by
  refine congrArg List.sum (List.map_congr_left ?_)
  intro c _
  have hlength := length_emitFixed (fun h => absurd hselector (Nat.not_lt_of_le h))
    (fault_emitFixed hselector c.mantissas)
  rwa [Atrac3.fixedCost, if_pos hselector] at hlength

theorem mantissaLength_variable {v : Nat} (h : g.variableCost = some v) :
    g.mantissaLength false = v :=
  sum_of_foldr_addCosts (fun _ _ => length_emitVariable) h

end TonalGroup

/-! ### All groups -/

namespace TonalGroups

variable {groups : List TonalGroup}

/-- There are no groups, or their words have a fixed length, or all have one of variable length. -/
theorem ofGroups_cases (groups : List TonalGroup) :
    ofGroups groups = {} ∨
      groups.isEmpty = false ∧
        (ofGroups groups =
            ⟨groups, true,
              5 + 2 + (groups.map TonalGroup.sideCost).sum + (groups.map (·.fixedCost)).sum⟩ ∨
          ∃ v, groups.foldr (fun g total => addCosts g.variableCost total) (some 0) = some v ∧
            ofGroups groups =
              ⟨groups, false, 5 + 2 + (groups.map TonalGroup.sideCost).sum + v⟩) := by
  cases hempty : groups.isEmpty with
  | true => exact .inl (if_pos hempty)
  | false =>
    refine .inr ⟨rfl, ?_⟩
    rcases chooseWords_cases (groups.map (·.fixedCost)).sum
      (groups.foldr (fun g total => addCosts g.variableCost total) (some 0))
      with hchoice | ⟨v, hv, hchoice⟩
    · refine .inl ?_
      simp only [ofGroups, hempty, hchoice, Bool.false_eq_true, if_false]
    · refine .inr ⟨v, hv, ?_⟩
      simp only [ofGroups, hempty, hchoice, Bool.false_eq_true, if_false]

theorem length_emit_mk {isFixed : Bool} {bits : Nat} (hne : groups.isEmpty = false)
    (hpositions : ∀ g ∈ groups, ∀ c ∈ g.components, c.position < Layout.atrac3.frameLines)
    (h : (TonalGroups.mk groups isFixed bits).emit.fault = none) :
    (TonalGroups.mk groups isFixed bits).emit.bits.length =
      5 + 2 + (groups.map TonalGroup.sideCost).sum +
        (groups.map (·.mantissaLength isFixed)).sum := by
  have hemit : (TonalGroups.mk groups isFixed bits).emit =
      .field 5 groups.length ++ (.field 2 isFixed.toNat ++ .each groups (·.emit isFixed)) := by
    rw [emit, isEmpty, hne]
    rfl
  rw [hemit] at h ⊢
  have htail := (Emission.fault_append_eq_none.1 h).2
  have heach := Emission.fault_each_eq_none.1 (Emission.fault_append_eq_none.1 htail).2
  rw [Emission.length_append_of_clean h, Emission.length_append_of_clean htail,
    Emission.length_each_of_clean heach,
    List.map_congr_left fun g hg => TonalGroup.length_emit (hpositions g hg) (heach g hg),
    List.sum_map_add]
  simp only [Emission.bits_field, Bits.length_ofNat]
  omega

theorem length_emit_ofGroups (hselectors : ∀ g ∈ groups, 1 < g.selector)
    (hpositions : ∀ g ∈ groups, ∀ c ∈ g.components, c.position < Layout.atrac3.frameLines)
    (h : (ofGroups groups).emit.fault = none) :
    (ofGroups groups).emit.bits.length = (ofGroups groups).bits := by
  rcases ofGroups_cases groups with hgroups | ⟨hempty, hgroups | ⟨v, hv, hgroups⟩⟩
  · rw [hgroups]
    rfl
  · rw [hgroups] at h ⊢
    rw [length_emit_mk hempty hpositions h,
      List.map_congr_left fun g hg => TonalGroup.mantissaLength_fixed (hselectors g hg)]
  · rw [hgroups] at h ⊢
    rw [length_emit_mk hempty hpositions h,
      sum_of_foldr_addCosts (fun _ _ => TonalGroup.mantissaLength_variable) hv]

variable {cs : List TonalComponent}

theorem one_lt_selector (hselectors : ∀ c ∈ cs, 1 < c.selector) {g : TonalGroup}
    (hg : g ∈ groupsFor cs) : 1 < g.selector := by
  obtain ⟨c, hc, hselector, -⟩ := (isOf_of_mem_groupsFor hg).exists_mem
  exact hselector ▸ hselectors c hc

/-- **The components of a sound unit take the bits that were foretold.** -/
theorem length_emit_build (hselectors : ∀ c ∈ cs, 1 < c.selector)
    (hpositions : ∀ c ∈ cs, c.position < Layout.atrac3.frameLines)
    (h : (build cs).emit.fault = none) :
    (build cs).emit.bits.length = (build cs).bits := by
  refine length_emit_ofGroups (fun g => one_lt_selector hselectors) ?_ h
  intro g hg c hc
  exact hpositions c ((isOf_of_mem_groupsFor hg).mem c hc)

end TonalGroups

end Atrac3

end SpectralCoding
