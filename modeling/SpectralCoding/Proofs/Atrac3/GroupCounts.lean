import Mathlib.Algebra.Order.Floor.Div
import Mathlib.Data.Finset.Lattice.Fold
import Mathlib.Order.Lattice.Nat
import SpectralCoding.Atrac3.TonalSearch
import SpectralCoding.Proofs.Atrac3.TonalCost

/-!
# How many groups components take

A component goes into the first row whose window of it has room, so that the rows of one key fill up
in turn: a row has as many components of a window as the rows before it have left over, at most
seven. The last row is there for the sake of some window, the one with the most components.

* `TonalGroups.Fills` : rows filled up in turn.
* `TonalGroups.Fills.place`, `TonalGroups.fills_foldl` : one more component, and all of them.
* `TonalGroups.length_groupsOf` : the groups of one key are as many as its fullest window takes.
* `TonalGroups.filter_groups_build` : the groups of one key among all groups.
* `TonalGroups.build_of_perm` : the order of the components makes no difference.
* `TonalGroups.fault_emit_build` : groups are written without a fault.
* `TonalGroups.IsGroupingOf` : what holds of components in groups.
* `TonalGroups.build_spec` : **components are grouped without loss, in as few groups as windows of
  seven allow, whatever their order.**
-/

namespace SpectralCoding

namespace Atrac3

namespace TonalGroups

/-! ### Rows filled up in turn -/

/-- Rows that hold `n window` components of every window: the first one as many as it has room for,
those behind it the rest. -/
def Fills : (n : Nat → Nat) → (rows : List (List TonalComponent)) → Prop
  | n, [] => ∀ window, n window = 0
  | n, row :: rows =>
    (∀ window, (inWindow window row).length = min mostPerWindow (n window)) ∧
      Fills (fun window => n window - mostPerWindow) rows

/-- The components of a window that a component adds. -/
def share (c : TonalComponent) (window : Nat) : Nat := if c.window = window then 1 else 0

variable {n : Nat → Nat} {rows : List (List TonalComponent)} {cs ds : List TonalComponent}

theorem share_cases (c : TonalComponent) (window : Nat) :
    share c window = 0 ∨ window = c.window ∧ share c window = 1 := by
  unfold share
  by_cases hwindow : c.window = window
  · exact .inr ⟨hwindow.symm, if_pos hwindow⟩
  · exact .inl (if_neg hwindow)

theorem length_inWindow_append (row : List TonalComponent) (c : TonalComponent) (window : Nat) :
    (inWindow window (row ++ [c])).length = (inWindow window row).length + share c window := by
  unfold inWindow share
  rw [List.filter_append, List.length_append]
  by_cases hwindow : c.window = window <;> simp [hwindow]

theorem Fills.place (h : Fills n rows) (c : TonalComponent) :
    Fills (fun window => n window + share c window) (place c rows) := by
  induction rows generalizing n with
  | nil =>
    have hnone : ∀ window, n window = 0 := h
    have hmost : 1 ≤ mostPerWindow := by decide
    refine ⟨fun window => ?_, fun window => ?_⟩
    · have hone := length_inWindow_append [] c window
      have hempty : (inWindow window []).length = 0 := rfl
      rw [List.nil_append, hempty] at hone
      dsimp only
      rw [hone, hnone]
      rcases share_cases c window with h | ⟨-, h⟩ <;> omega
    · dsimp only
      rw [hnone]
      rcases share_cases c window with h | ⟨-, h⟩ <;> omega
  | cons row rows ih =>
    obtain ⟨hrow, hrest⟩ := h
    rw [TonalGroups.place]
    split
    · -- the row takes the component, and those behind it keep what it leaves over
      rename_i hroom
      rw [hrow] at hroom
      have hsame : (fun window => n window + share c window - mostPerWindow) =
          fun window => n window - mostPerWindow := by
        funext window
        rcases share_cases c window with h | ⟨rfl, h⟩ <;> omega
      refine ⟨fun window => ?_, hsame ▸ hrest⟩
      dsimp only
      rw [length_inWindow_append, hrow]
      rcases share_cases c window with h | ⟨rfl, h⟩ <;> omega
    · -- the row is full in this window, so that one more is left over
      rename_i hfull
      rw [hrow] at hfull
      have hsame : (fun window => n window + share c window - mostPerWindow) =
          fun window => n window - mostPerWindow + share c window := by
        funext window
        rcases share_cases c window with h | ⟨rfl, h⟩ <;> omega
      refine ⟨fun window => ?_, hsame ▸ ih hrest⟩
      dsimp only
      rw [hrow]
      rcases share_cases c window with h | ⟨rfl, h⟩ <;> omega

theorem Fills.foldl (h : Fills n rows) (cs : List TonalComponent) :
    Fills (fun window => n window + (inWindow window cs).length)
      (cs.foldl (fun rows c => TonalGroups.place c rows) rows) := by
  induction cs generalizing n rows with
  | nil => exact h
  | cons c cs ih =>
    have hcons : (fun window => n window + (inWindow window (c :: cs)).length) =
        fun window => n window + share c window + (inWindow window cs).length := by
      funext window
      have hfirst := length_inWindow_append [] c window
      have hsplit : inWindow window (c :: cs) = inWindow window [c] ++ inWindow window cs :=
        List.filter_append [c] cs
      have hempty : (inWindow window []).length = 0 := rfl
      rw [List.nil_append, hempty] at hfirst
      rw [hsplit, List.length_append, hfirst]
      omega
    rw [hcons]
    exact ih (h.place c)

/-- Components dealt into rows fill them up in turn. -/
theorem fills_foldl (cs : List TonalComponent) :
    Fills (fun window => (inWindow window cs).length)
      (cs.foldl (fun rows c => place c rows) []) := by
  have hempty : Fills (fun _ => 0) [] := fun _ => rfl
  have hfills := hempty.foldl cs
  simpa only [Nat.zero_add] using hfills

theorem Fills.le_mul (h : Fills n rows) (window : Nat) : n window ≤ mostPerWindow * rows.length := by
  induction rows generalizing n with
  | nil => exact Nat.le_of_eq (h window)
  | cons row rows ih =>
    have hrest := ih h.2
    rw [List.length_cons, Nat.mul_succ]
    omega

/-- The last row is there for the sake of some window. -/
theorem Fills.exists_lt (h : Fills n rows) (hne : rows ≠ []) {windows : Nat}
    (hrows : ∀ row ∈ rows, ∃ c ∈ row, c.window < windows) :
    ∃ window < windows, mostPerWindow * (rows.length - 1) < n window := by
  induction rows generalizing n with
  | nil => exact absurd rfl hne
  | cons row rows ih =>
    obtain ⟨hrow, hrest⟩ := h
    obtain ⟨⟨c, hc, hwindow⟩, hrows⟩ := List.forall_mem_cons.1 hrows
    cases rows with
    | nil =>
      refine ⟨c.window, hwindow, ?_⟩
      have hpos : 0 < (inWindow c.window row).length :=
        List.length_pos_iff.2 (List.ne_nil_of_mem (List.mem_filter.2 ⟨hc, beq_self_eq_true _⟩))
      have hcount := hrow c.window
      simp only [List.length_singleton, Nat.sub_self, Nat.mul_zero]
      omega
    | cons next rows =>
      obtain ⟨window, hlt, hleft⟩ := ih hrest (List.cons_ne_nil _ _) hrows
      refine ⟨window, hlt, ?_⟩
      simp only [List.length_cons, Nat.add_sub_cancel] at hleft ⊢
      rw [Nat.mul_succ]
      omega

/-- The rows are as many as the fullest window takes. -/
theorem Fills.length_eq (h : Fills n rows) {windows : Nat}
    (hrows : ∀ row ∈ rows, ∃ c ∈ row, c.window < windows) :
    rows.length = (Finset.range windows).sup fun window => n window ⌈/⌉ mostPerWindow := by
  have hpos : 0 < mostPerWindow := by decide
  refine Nat.le_antisymm ?_ (Finset.sup_le fun window _ => ?_)
  · by_cases hne : rows = []
    · rw [hne]
      exact Nat.zero_le _
    · -- one row less would be too few for the window that the last row is there for
      obtain ⟨window, hlt, hleft⟩ := h.exists_lt hne hrows
      refine Nat.le_trans ?_ (Finset.le_sup (Finset.mem_range.2 hlt))
      refine Nat.le_of_not_lt fun hfew => ?_
      have hle : n window ⌈/⌉ mostPerWindow ≤ rows.length - 1 := Nat.le_sub_one_of_lt hfew
      exact absurd ((ceilDiv_le_iff_le_mul hpos).1 hle) (Nat.not_le_of_lt hleft)
  · exact (ceilDiv_le_iff_le_mul hpos).2 (h.le_mul window)

/-! ### The groups of one key -/

/-- The windows of a frame. -/
def frameWindows : Nat := Layout.atrac3.bands * bandWindows

theorem window_lt {c : TonalComponent} (h : c.position < Layout.atrac3.frameLines) :
    c.window < frameWindows := Nat.div_lt_of_lt_mul h

/-- The groups of one key are as many as its fullest window takes. -/
theorem length_groupsOf (hpositions : ∀ c ∈ cs, c.position < Layout.atrac3.frameLines)
    (k : Nat × Nat) :
    (groupsOf cs k).length = (Finset.range frameWindows).sup fun window =>
      (inWindow window (cs.filter (key · == k))).length ⌈/⌉ mostPerWindow := by
  have hdealt := isDealt_foldl (membersOf cs k)
  have hrows : ∀ row ∈ (membersOf cs k).foldl (fun rows c => place c rows) [],
      ∃ c ∈ row, c.window < frameWindows := by
    intro row hrow
    obtain ⟨c, hc⟩ := List.exists_mem_of_ne_nil _ (hdealt.nonempty row hrow)
    have hmem := (mem_membersOf ((hdealt.sublist row hrow).subset hc)).1
    exact ⟨c, hc, window_lt (hpositions c hmem)⟩
  rw [groupsOf_eq, List.length_map, (fills_foldl (membersOf cs k)).length_eq hrows]
  refine Finset.sup_congr rfl fun window _ => ?_
  rw [inWindow, ((membersOf_perm cs k).filter _).length_eq]
  rfl

theorem groupsOf_of_not_mem {k : Nat × Nat} (hk : k ∉ keys cs) : groupsOf cs k = [] := by
  have hnone : cs.filter (key · == k) = [] := by
    refine List.filter_eq_nil_iff.2 fun c hc heq => hk ?_
    rw [← eq_of_beq heq]
    exact key_mem_keys hc
  have hmembers := (membersOf_perm cs k).length_eq
  rw [hnone] at hmembers
  rw [groupsOf_eq, List.eq_nil_of_length_eq_zero hmembers]
  rfl

theorem key_of_mem_groupsOf {k : Nat × Nat} {g : TonalGroup} (hg : g ∈ groupsOf cs k) :
    (g.selector, g.length) = k := by
  rw [groupsOf_eq] at hg
  obtain ⟨row, -, rfl⟩ := List.mem_map.1 hg
  rfl

/-- What one of several keys contributes. -/
theorem filter_flatMap_groupsOf {ks : List (Nat × Nat)} (hnodup : ks.Nodup) (k : Nat × Nat) :
    (ks.flatMap (groupsOf cs)).filter (fun g => (g.selector, g.length) = k) =
      if k ∈ ks then groupsOf cs k else [] := by
  induction ks with
  | nil => rfl
  | cons first ks ih =>
    obtain ⟨hfirst, hnodup⟩ := List.nodup_cons.1 hnodup
    rw [List.flatMap_cons, List.filter_append, ih hnodup]
    by_cases hk : first = k
    · subst hk
      have hall : (groupsOf cs first).filter (fun g => (g.selector, g.length) = first) =
          groupsOf cs first :=
        List.filter_eq_self.2 fun g hg => decide_eq_true (key_of_mem_groupsOf hg)
      rw [hall, if_neg hfirst, if_pos List.mem_cons_self, List.append_nil]
    · have hnone : (groupsOf cs first).filter (fun g => (g.selector, g.length) = k) = [] :=
        List.filter_eq_nil_iff.2 fun g hg heq =>
          hk ((key_of_mem_groupsOf hg).symm.trans (of_decide_eq_true heq))
      have hmem : k ∈ first :: ks ↔ k ∈ ks :=
        List.mem_cons.trans (or_iff_right (Ne.symm hk))
      rw [hnone, List.nil_append]
      simp only [hmem]

/-- The groups of one key among all groups. -/
theorem filter_groups_build (hcs : cs.length ≤ mostGroups) (k : Nat × Nat) :
    (build cs).groups.filter (fun g => (g.selector, g.length) = k) = groupsOf cs k := by
  rw [groups_build, groupsFor_eq hcs, filter_flatMap_groupsOf (nodup_keys cs)]
  split
  · rfl
  · exact (groupsOf_of_not_mem ‹_›).symm

/-! ### The order of the components -/

theorem keyLe_iff {a b : Nat × Nat} : keyLe a b = true ↔ a.1 < b.1 ∨ a.1 = b.1 ∧ a.2 ≤ b.2 := by
  simp [keyLe]

theorem pairwise_keys (cs : List TonalComponent) : (keys cs).Pairwise (keyLe · · = true) := by
  refine List.pairwise_mergeSort ?_ ?_ (cs.map key).eraseDups
  · intro a b c hab hbc
    rw [keyLe_iff] at *
    omega
  · intro a b
    rw [Bool.or_eq_true, keyLe_iff, keyLe_iff]
    omega

/-- Keys are sorted in one way only, and so are components with distinct positions. -/
theorem keys_of_perm (h : ds.Perm cs) : keys ds = keys cs := by
  refine List.Perm.eq_of_pairwise ?_ (pairwise_keys ds) (pairwise_keys cs) ?_
  · intro a b _ _ hab hba
    rw [keyLe_iff] at hab hba
    exact Prod.ext (by omega) (by omega)
  · refine (List.perm_ext_iff_of_nodup (nodup_keys ds) (nodup_keys cs)).2 fun k => ?_
    simp only [keys, List.mem_mergeSort, List.mem_eraseDups]
    exact (h.map key).mem_iff

theorem membersOf_of_perm (h : ds.Perm cs) (hdistinct : (cs.map (·.position)).Nodup)
    (k : Nat × Nat) : membersOf ds k = membersOf cs k := by
  refine List.Perm.eq_of_pairwise ?_ (ascending_membersOf ds k) (ascending_membersOf cs k) ?_
  · intro a b ha hb hab hba
    have hmem := h.mem_iff.1 (mem_membersOf ha).1
    exact List.inj_on_of_nodup_map hdistinct hmem (mem_membersOf hb).1 (Nat.le_antisymm hab hba)
  · exact (membersOf_perm ds k).trans ((h.filter _).trans (membersOf_perm cs k).symm)

theorem build_of_perm (h : ds.Perm cs) (hdistinct : (cs.map (·.position)).Nodup) :
    build ds = build cs := by
  have hgroups : groupsOf ds = groupsOf cs := by
    funext k
    rw [groupsOf_eq, groupsOf_eq, membersOf_of_perm h hdistinct]
  rw [build, build, groupsFor, groupsFor, keys_of_perm h, hgroups]

/-! ### Writing groups -/

theorem exists_of_foldr_addCosts {α : Type} {items : List α} {cost : α → Option Nat} {v : Nat}
    (h : items.foldr (fun x total => addCosts (cost x) total) (some 0) = some v) :
    ∀ x ∈ items, ∃ w, cost x = some w := by
  induction items generalizing v with
  | nil => exact nofun
  | cons x items ih =>
    obtain ⟨a, b, hx, hitems, -⟩ := addCosts_eq_some h
    exact List.forall_mem_cons.2 ⟨⟨a, hx⟩, ih hitems⟩

/-- A group is written if its mantissas are. -/
theorem fault_emit_group {g : TonalGroup} {isFixed : Bool}
    (h : ∀ c ∈ g.components, (emitMantissas isFixed g.selector c.mantissas).fault = none) :
    (g.emit isFixed).fault = none := by
  have hwindows : (Emission.each g.windows (g.windowFields isFixed)).fault = none := by
    refine Emission.fault_each_eq_none.2 fun window _ => ?_
    refine Emission.fault_append_eq_none.2 ⟨rfl, Emission.fault_each_eq_none.2 fun c hc => ?_⟩
    have hmantissas := h c (List.mem_filter.1 hc).1
    refine Emission.fault_concat_eq_none.2 ?_
    simp [hmantissas]
  have hflags : (Emission.each (List.range Layout.atrac3.bands)
      fun band => .flag (g.usesBand band)).fault = none :=
    Emission.fault_each_eq_none.2 fun _ _ => rfl
  refine Emission.fault_concat_eq_none.2 ?_
  simp only [List.forall_mem_cons, List.not_mem_nil, false_imp_iff, implies_true, and_true,
    Emission.fault_field, true_and]
  exact ⟨hflags, hwindows⟩

theorem fault_emit_mk {groups : List TonalGroup} {isFixed : Bool} (bits : Nat)
    (h : ∀ g ∈ groups, ∀ c ∈ g.components,
      (emitMantissas isFixed g.selector c.mantissas).fault = none) :
    (TonalGroups.mk groups isFixed bits).emit.fault = none := by
  refine Emission.fault_append_eq_none.2 ⟨rfl, ?_⟩
  split
  · rfl
  · refine Emission.fault_append_eq_none.2 ⟨rfl, Emission.fault_each_eq_none.2 fun g hg => ?_⟩
    exact fault_emit_group (h g hg)

/-- Words of variable length are chosen only where all mantissas have one. -/
theorem fault_emit_ofGroups {groups : List TonalGroup}
    (hselectors : ∀ g ∈ groups, 1 < g.selector) : (ofGroups groups).emit.fault = none := by
  rcases ofGroups_cases groups with hgroups | ⟨-, hgroups | ⟨v, hv, hgroups⟩⟩
  · rw [hgroups]
    rfl
  · rw [hgroups]
    exact fault_emit_mk _ fun g hg c _ => fault_emitFixed (hselectors g hg) c.mantissas
  · rw [hgroups]
    refine fault_emit_mk _ fun g hg c hc => ?_
    obtain ⟨w, hw⟩ := exists_of_foldr_addCosts hv g hg
    obtain ⟨u, hu⟩ := exists_of_foldr_addCosts hw c hc
    exact fault_emitVariable hu

theorem fault_emit_build (hselectors : ∀ c ∈ cs, 1 < c.selector) :
    (build cs).emit.fault = none :=
  fault_emit_ofGroups fun _ => one_lt_selector hselectors

/-! ### What grouping does -/

/-- The components `cs` in groups. -/
structure IsGroupingOf (cs : List TonalComponent) (t : TonalGroups) : Prop where
  perm : t.components.Perm cs
  unique : ∀ c ∈ cs, ∃! i : Nat, ∃ g, t.groups[i]? = some g ∧ c ∈ g.components
  /-- Components agree with their group. -/
  agree : ∀ g ∈ t.groups, ∀ c ∈ g.components, c.selector = g.selector ∧ c.length = g.length
  /-- Selector and length fit their fields. -/
  fit : ∀ g ∈ t.groups,
    (2 ≤ g.selector ∧ g.selector ≤ greatestSelector) ∧ 1 ≤ g.length ∧ g.length ≤ longestComponent
  ascending : ∀ g ∈ t.groups, g.components.Pairwise (·.position < ·.position)
  room : ∀ g ∈ t.groups, ∀ window, (inWindow window g.components).length ≤ mostPerWindow
  /-- The groups of one selector and one length are as many as their fullest window takes. -/
  fewest : ∀ k : Nat × Nat, (t.groups.filter fun g => (g.selector, g.length) = k).length =
    (Finset.range frameWindows).sup fun window =>
      (inWindow window (cs.filter (key · == k))).length ⌈/⌉ mostPerWindow
  most : t.groups.length ≤ mostGroups

/-- A component is in one group if no component comes twice. -/
theorem existsUnique_group {groups : List TonalGroup}
    (hnodup : (groups.flatMap (·.components)).Nodup) {c : TonalComponent}
    (hc : c ∈ groups.flatMap (·.components)) :
    ∃! i : Nat, ∃ g, groups[i]? = some g ∧ c ∈ g.components := by
  have hapart := (List.nodup_flatMap.1 hnodup).2
  obtain ⟨g, hg, hcg⟩ := List.mem_flatMap.1 hc
  obtain ⟨i, hi, rfl⟩ := List.getElem_of_mem hg
  refine ⟨i, ⟨_, List.getElem?_eq_getElem hi, hcg⟩, ?_⟩
  rintro j ⟨g, hg, hcj⟩
  obtain ⟨hj, rfl⟩ := List.getElem?_eq_some_iff.1 hg
  rcases Nat.lt_trichotomy j i with hlt | heq | hlt
  · exact absurd hcg (List.pairwise_iff_getElem.1 hapart j i hj hi hlt hcj)
  · exact heq
  · exact absurd hcj (List.pairwise_iff_getElem.1 hapart i j hi hj hlt hcg)

theorem ascending_of_nodup (hascending : cs.Pairwise (·.position ≤ ·.position))
    (hdistinct : (cs.map (·.position)).Nodup) : cs.Pairwise (·.position < ·.position) :=
  (hascending.and (List.pairwise_map.1 hdistinct)).imp fun h => Nat.lt_of_le_of_ne h.1 h.2

theorem isGroupingOf_build (hcount : cs.length ≤ mostGroups)
    (hselectors : ∀ c ∈ cs, 2 ≤ c.selector ∧ c.selector ≤ greatestSelector)
    (hlengths : ∀ c ∈ cs, 1 ≤ c.length ∧ c.length ≤ longestComponent)
    (hpositions : ∀ c ∈ cs, c.position < Layout.atrac3.frameLines)
    (hdistinct : (cs.map (·.position)).Nodup) : IsGroupingOf cs (build cs) := by
  have hperm := perm_components_build hcount
  have hnodup : (build cs).components.Nodup := hperm.nodup_iff.2 hdistinct.of_map
  have hgroup : ∀ g ∈ (build cs).groups, g.IsOf cs := by
    rw [groups_build]
    exact fun g hg => isOf_of_mem_groupsFor hg
  exact
    { perm := hperm
      unique := fun c hc => existsUnique_group hnodup (hperm.mem_iff.2 hc)
      agree := fun g hg c hc => ⟨(hgroup g hg).selector c hc, (hgroup g hg).length c hc⟩
      fit := by
        intro g hg
        obtain ⟨c, hc, hselector, hlength⟩ := (hgroup g hg).exists_mem
        rw [← hselector, ← hlength]
        exact ⟨hselectors c hc, hlengths c hc⟩
      ascending := by
        intro g hg
        have hpart : g.components.Sublist (build cs).components :=
          List.sublist_flatten_of_mem (List.mem_map_of_mem hg)
        exact ascending_of_nodup (hgroup g hg).ascending
          ((hpart.map _).nodup ((hperm.map _).nodup_iff.2 hdistinct))
      room := fun g hg => (hgroup g hg).room
      fewest := by
        intro k
        rw [filter_groups_build hcount]
        exact length_groupsOf hpositions k
      most := by
        rw [groups_build]
        exact length_groupsFor_le cs }

theorem build?_eq_ok (hselectors : ∀ c ∈ cs, c.selector ≤ greatestSelector) :
    build? cs = .ok (build cs) := by
  refine if_pos (List.all_eq_true.2 fun g hg => ?_)
  obtain ⟨c, hc, hselector, -⟩ := (isOf_of_mem_groupsFor hg).exists_mem
  exact decide_eq_true (Nat.lt_succ_of_le (hselector ▸ hselectors c hc))

/-- **Components are grouped without loss, in as few groups as windows of seven allow, whatever
their order.** They are written without a fault, in the bits that were foretold. -/
theorem build_spec (hcount : cs.length ≤ mostGroups)
    (hselectors : ∀ c ∈ cs, 2 ≤ c.selector ∧ c.selector ≤ greatestSelector)
    (hlengths : ∀ c ∈ cs, 1 ≤ c.length ∧ c.length ≤ longestComponent)
    (hpositions : ∀ c ∈ cs, c.position < Layout.atrac3.frameLines)
    (hdistinct : (cs.map (·.position)).Nodup) :
    build? cs = .ok (build cs) ∧ IsGroupingOf cs (build cs) ∧
      (∀ ds, ds.Perm cs → build ds = build cs) ∧
      (build cs).emit.fault = none ∧ (build cs).emit.bits.length = (build cs).bits := by
  have hvariable : ∀ c ∈ cs, 1 < c.selector := fun c hc => (hselectors c hc).1
  have hclean := fault_emit_build hvariable
  exact ⟨build?_eq_ok fun c hc => (hselectors c hc).2,
    isGroupingOf_build hcount hselectors hlengths hpositions hdistinct,
    fun _ hds => build_of_perm hds hdistinct, hclean,
    length_emit_build hvariable hpositions hclean⟩

/-- Eight components in one window, and one of another selector. -/
def crowded : List TonalComponent :=
  (List.range 8).map (fun i => ⟨8 * i, 0, 3, default, [1]⟩) ++ [⟨500, 0, 5, default, [1, -2]⟩]

/-- The eighth component of a window takes a group of its own. -/
theorem build_spec_crowded :
    IsGroupingOf crowded (build crowded) ∧ build crowded.reverse = build crowded ∧
      (build crowded).emit.fault = none ∧
      ((build crowded).groups.filter fun g => (g.selector, g.length) = (3, 1)).length = 2 := by
  obtain ⟨-, hgrouping, horder, hclean, -⟩ := build_spec (by decide : crowded.length ≤ mostGroups)
    (by decide) (by decide) (by decide) (by decide)
  have hcount : ((Finset.range frameWindows).sup fun window =>
      (inWindow window (crowded.filter (key · == (3, 1)))).length ⌈/⌉ mostPerWindow) = 2 := by
    decide
  exact ⟨hgrouping, horder _ crowded.reverse_perm, hclean,
    (hgrouping.fewest (3, 1)).trans hcount⟩

end TonalGroups

end Atrac3

end SpectralCoding
