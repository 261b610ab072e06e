import SpectralCoding.Atrac3.TonalSearch
import SpectralCoding.Proofs.Atrac3.Grouping
import SpectralCoding.Proofs.Atrac3.MantissaDecoder
import SpectralCoding.Proofs.Atrac3.TonalCost

/-!
# Reading tonal components back

The band flags of a group name the windows that follow, each of which says how many components it
has. A component says where in its window it lies, so that its position is known from both.

* `Atrac3.StoredComponent`, `Atrac3.StoredGroup` : what a sound unit says of a component and of a
  group.
* `Atrac3.readTonal` : the decoder.
* `TonalComponent.IsCodable` : a component that fits its fields.
* `Atrac3.flatMap_inWindow` : components in ascending order, taken window by window.
* `TonalGroup.decodes_emit` : the decoder undoes a group.
* `TonalGroups.decodes_emit_build` : the decoder undoes the groups of a sound unit.
-/

namespace SpectralCoding

namespace Atrac3

/-! ### The decoder -/

/-- What a sound unit says of a tonal component. -/
structure StoredComponent where
  /-- The index of the scale factor. -/
  index : Nat
  /-- The first line. -/
  position : Nat
  mantissas : List Int
  deriving DecidableEq, Repr

/-- What a sound unit says of a group of tonal components. -/
structure StoredGroup where
  selector : Nat
  /-- The number of mantissas of every component. -/
  length : Nat
  components : List StoredComponent
  deriving DecidableEq, Repr

/-- Read a component in a window. -/
def readComponent (isFixed : Bool) (selector length window : Nat) : Decoder StoredComponent := do
  let index ← .field 6
  let place ← .field 6
  let mantissas ← readMantissas isFixed selector length
  return { index, position := window * windowLines + place, mantissas }

/-- Read the components in a window. -/
def readWindow (isFixed : Bool) (selector length window : Nat) :
    Decoder (List StoredComponent) := do
  let count ← .field 3
  .times count (readComponent isFixed selector length window)

/-- The windows of the bands with a flag. -/
def flaggedWindows (flags : List Bool) : List Nat :=
  ((List.range flags.length).filter (flags.getD · false)).flatMap fun band =>
    (List.range bandWindows).map (band * bandWindows + ·)

/-- Read a group. -/
def readGroup (isFixed : Bool) : Decoder StoredGroup := do
  let flags ← .times Layout.atrac3.bands .flag
  let length ← .positive 3
  let selector ← .field 3
  let windows ← (flaggedWindows flags).mapM (readWindow isFixed selector length)
  return { selector, length, components := windows.flatten }

/-- Read the groups of a sound unit. -/
def readTonal : Decoder (List StoredGroup) := do
  let count ← .field 5
  if count = 0 then return []
  else do
    let mode ← .field 2
    .times count (readGroup (mode != 0))

/-! ### A component -/

namespace TonalComponent

/-- What a sound unit says of a component. -/
def stored (c : TonalComponent) : StoredComponent := ⟨c.scaled.index, c.position, c.mantissas⟩

/-- A component that fits its fields: a selector from two up, one to eight mantissas, a position in
the frame. -/
structure IsCodable (c : TonalComponent) : Prop where
  selector : 2 ≤ c.selector ∧ c.selector ≤ greatestSelector
  length : 1 ≤ c.length ∧ c.length ≤ longestComponent
  position : c.position < Layout.atrac3.frameLines
  index : c.scaled.index < ScaleFactor.count
  bounded : IsBounded c.selector c.mantissas

end TonalComponent

namespace TonalGroup

variable {cs : List TonalComponent} {g : TonalGroup}

/-- What a sound unit says of a group. -/
def stored (g : TonalGroup) : StoredGroup :=
  ⟨g.selector, g.length, g.components.map (·.stored)⟩

theorem decodes_emitComponent (isFixed : Bool) (hg : g.IsOf cs) {c : TonalComponent}
    (hmem : c ∈ g.components) (hc : c.IsCodable) :
    Decodes (readComponent isFixed g.selector g.length c.window) (g.emitComponent isFixed c)
      c.stored := by
  have hindex : Decodes (.field 6) (.field 6 c.scaled.index) c.scaled.index :=
    decodes_field (by decide) hc.index
  have hplace : Decodes (.field 6) (.field 6 (c.position % windowLines))
      (c.position % windowLines) :=
    decodes_field (by decide) (Nat.mod_lt _ (by decide))
  have hmantissas := decodes_mantissas isFixed (Nat.le_of_succ_le hc.selector.1) hc.selector.2
    hc.bounded
  have hlength : c.mantissas.length = g.length := hg.length c hmem
  rw [hlength, hg.selector c hmem] at hmantissas
  have hread : Decodes (readComponent isFixed g.selector g.length c.window)
      (g.emitComponent isFixed c)
      ⟨c.scaled.index, c.window * windowLines + c.position % windowLines, c.mantissas⟩ :=
    hindex.bind (hplace.bind (hmantissas.bind (.pure _)))
  have hposition : c.window * windowLines + c.position % windowLines = c.position :=
    Nat.div_add_mod' ..
  rwa [hposition] at hread

/-! ### A window -/

theorem decodes_windowFields (isFixed : Bool) (hg : g.IsOf cs) (hcs : ∀ c ∈ cs, c.IsCodable)
    (window : Nat) :
    Decodes (readWindow isFixed g.selector g.length window) (g.windowFields isFixed window)
      ((inWindow window g.components).map (·.stored)) := by
  have hcount : (inWindow window g.components).length < 2 ^ 3 :=
    Nat.lt_succ_of_le (hg.room window)
  refine (decodes_field (by decide) hcount).bind (Decodes.times ?_)
  intro c hc
  obtain ⟨hmem, hwindow⟩ := List.mem_filter.1 hc
  obtain rfl : c.window = window := by simpa using hwindow
  exact decodes_emitComponent isFixed hg hmem (hcs c (hg.mem c hmem))

end TonalGroup

theorem inWindow_eq_nil {window : Nat} {cs : List TonalComponent}
    (h : ∀ c ∈ cs, window < c.window) : inWindow window cs = [] :=
  List.filter_eq_nil_iff.2 fun c hc => by simpa using (h c hc).ne'

/-- Components in ascending order, taken window by window. -/
theorem flatMap_inWindow {cs : List TonalComponent} {windows : List Nat}
    (hwindows : windows.Pairwise (· < ·)) (hcs : cs.Pairwise (·.position ≤ ·.position))
    (hcover : ∀ c ∈ cs, c.window ∈ windows) :
    (windows.flatMap fun window => inWindow window cs) = cs := by
  induction cs with
  | nil => simp [inWindow]
  | cons c cs ih =>
    obtain ⟨hc, hcs⟩ := List.pairwise_cons.1 hcs
    obtain ⟨hmem, hcover⟩ := List.forall_mem_cons.1 hcover
    have hlater : ∀ d ∈ c :: cs, c.window ≤ d.window :=
      List.forall_mem_cons.2 ⟨Nat.le_refl _, fun d hd => Nat.div_le_div_right (hc d hd)⟩
    have hrest := ih hcs hcover
    obtain ⟨before, after, rfl⟩ := List.append_of_mem hmem
    obtain ⟨-, hafter, hbefore⟩ := List.pairwise_append.1 hwindows
    -- nothing lies in a window below that of the first component
    have hbelow : ∀ ds : List TonalComponent, (∀ d ∈ ds, c.window ≤ d.window) →
        (before.flatMap fun window => inWindow window ds) = [] := by
      intro ds hds
      refine List.flatMap_eq_nil_iff.2 fun window hwindow => inWindow_eq_nil fun d hd => ?_
      exact Nat.lt_of_lt_of_le (hbefore window hwindow c.window List.mem_cons_self) (hds d hd)
    have hown : inWindow c.window (c :: cs) = c :: inWindow c.window cs := by simp [inWindow]
    have habove : ∀ window ∈ after, inWindow window (c :: cs) = inWindow window cs := by
      intro window hwindow
      have hlt : c.window < window := (List.pairwise_cons.1 hafter).1 window hwindow
      simp [inWindow, hlt.ne]
    rw [List.flatMap_append, hbelow cs (List.forall_mem_cons.1 hlater).2, List.nil_append,
      List.flatMap_cons] at hrest
    rw [List.flatMap_append, hbelow (c :: cs) hlater, List.nil_append, List.flatMap_cons, hown,
      List.flatMap_congr habove, List.cons_append, hrest]

/-! ### A group -/

namespace TonalGroup

variable {cs : List TonalComponent} {g : TonalGroup}

theorem ascending_windows (g : TonalGroup) : g.windows.Pairwise (· < ·) := by
  have hall : ((List.range Layout.atrac3.bands).flatMap fun band =>
      (List.range bandWindows).map (band * bandWindows + ·)).Pairwise (· < ·) := by
    decide
  exact hall.sublist (List.Sublist.flatMap List.filter_sublist _)

theorem flaggedWindows_usesBand (g : TonalGroup) :
    flaggedWindows ((List.range Layout.atrac3.bands).map g.usesBand) = g.windows := by
  unfold flaggedWindows windows bands
  rw [List.length_map, List.length_range]
  refine congrArg (List.flatMap _) (List.filter_congr fun band hband => ?_)
  simp [List.getD_eq_getElem?_getD, List.mem_range.1 hband]

theorem decodes_emit (isFixed : Bool) (hg : g.IsOf cs) (hcs : ∀ c ∈ cs, c.IsCodable) :
    Decodes (readGroup isFixed) (g.emit isFixed) g.stored := by
  obtain ⟨c, hc⟩ := List.exists_mem_of_ne_nil _ hg.nonempty
  have hcodable := hcs c (hg.mem c hc)
  have hselector := hcodable.selector
  have hlength := hcodable.length
  rw [hg.selector c hc] at hselector
  rw [hg.length c hc] at hlength
  have hflags : Decodes (.times Layout.atrac3.bands .flag)
      (.each (List.range Layout.atrac3.bands) fun band => .flag (g.usesBand band))
      ((List.range Layout.atrac3.bands).map g.usesBand) := by
    have hflag : ∀ band ∈ List.range Layout.atrac3.bands,
        Decodes .flag (.flag (g.usesBand band)) (g.usesBand band) :=
      fun band _ => decodes_flag (g.usesBand band)
    have htimes := Decodes.times hflag
    rwa [List.length_range] at htimes
  have hcount : Decodes (.positive 3) (.field 3 (g.length - 1)) g.length :=
    decodes_positive (by decide) hlength.1 hlength.2
  have hchoice : Decodes (.field 3) (.field 3 g.selector) g.selector :=
    decodes_field (by decide) (Nat.lt_succ_of_le hselector.2)
  have hwindows : Decodes (g.windows.mapM (readWindow isFixed g.selector g.length))
      (.each g.windows (g.windowFields isFixed))
      (g.windows.map fun window => (inWindow window g.components).map (·.stored)) := by
    have hwindow : ∀ window ∈ g.windows,
        Decodes (readWindow isFixed g.selector g.length window) (g.windowFields isFixed window)
          ((inWindow window g.components).map (·.stored)) :=
      fun window _ => decodes_windowFields isFixed hg hcs window
    have hread := Decodes.mapM id hwindow
    rwa [List.map_id] at hread
  rw [← flaggedWindows_usesBand] at hwindows
  have hread : Decodes (readGroup isFixed) (g.emit isFixed) _ :=
    hflags.bind (hcount.bind (hchoice.bind (hwindows.bind (.pure _))))
  have hcomponents : (g.windows.map fun window =>
      (inWindow window g.components).map (·.stored)).flatten = g.components.map (·.stored) := by
    rw [← List.flatMap_def, ← List.map_flatMap, flatMap_inWindow g.ascending_windows hg.ascending]
    exact fun c hc => g.window_mem_windows hc (hcs c (hg.mem c hc)).position
  rwa [flaggedWindows_usesBand, hcomponents] at hread

end TonalGroup

/-! ### All groups -/

namespace TonalGroups

variable {cs : List TonalComponent}

theorem decodes_emit {t : TonalGroups} (hcount : t.groups.length ≤ mostGroups)
    (hgroups : ∀ g ∈ t.groups, g.IsOf cs) (hcs : ∀ c ∈ cs, c.IsCodable) :
    Decodes readTonal t.emit (t.groups.map (·.stored)) := by
  have hfield : Decodes (.field 5) (.field 5 t.groups.length) t.groups.length :=
    decodes_field (by decide) (Nat.lt_succ_of_le hcount)
  refine hfield.bind ?_
  cases hempty : t.isEmpty with
  | true =>
    have hnone : t.groups = [] := List.isEmpty_iff.1 hempty
    rw [hnone]
    exact .pure []
  | false =>
    have hsome : t.groups.length ≠ 0 := fun h => by
      rw [isEmpty, List.eq_nil_of_length_eq_zero h] at hempty
      cases hempty
    have hmode : Decodes (.field 2) (.field 2 t.isFixed.toNat) t.isFixed.toNat :=
      decodes_field (by decide) (Nat.lt_of_le_of_lt (Bool.toNat_le _) (by decide))
    have hkind : (t.isFixed.toNat != 0) = t.isFixed := by cases t.isFixed <;> rfl
    rw [if_neg hsome, if_neg Bool.false_ne_true]
    refine hmode.bind ?_
    rw [hkind]
    exact .times fun g hg => TonalGroup.decodes_emit t.isFixed (hgroups g hg) hcs

theorem decodes_emit_build (hcs : ∀ c ∈ cs, c.IsCodable) :
    Decodes readTonal (build cs).emit ((build cs).groups.map (·.stored)) := by
  refine decodes_emit ?_ ?_ hcs
  · rw [groups_build]
    exact length_groupsFor_le cs
  · rw [groups_build]
    exact fun g hg => isOf_of_mem_groupsFor hg

end TonalGroups

end Atrac3

end SpectralCoding
