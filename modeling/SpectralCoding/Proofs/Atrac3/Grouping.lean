import Mathlib.Algebra.Order.BigOperators.Group.List
import Mathlib.Data.List.Nodup
import SpectralCoding.Atrac3.TonalGroup

/-!
# Tonal components in groups

The components with one selector and one length are dealt into rows in ascending order of position,
each into the first row whose window of it has room. A row is a group.

* `Atrac3.perm_flatMap_filter` : items taken key by key are all items.
* `TonalGroup.IsOf` : what holds of every group: one selector and one length, ascending positions,
  windows that are not overfull.
* `TonalGroups.IsDealt`, `TonalGroups.IsDealt.place`, `TonalGroups.isDealt_foldl` : components dealt
  into rows, one more, and all of them.
* `TonalGroups.isOf_of_mem_groupsFor` : the groups of components are such groups.
* `TonalGroups.perm_components_build` : **up to 31 components are grouped without loss.**
-/

namespace SpectralCoding

namespace Atrac3

/-! ### Items by key -/

theorem nodup_eraseDups {α : Type} [BEq α] [LawfulBEq α] (xs : List α) : xs.eraseDups.Nodup := by
  induction h : xs.length using Nat.strongRecOn generalizing xs with
  | ind n ih =>
    cases xs with
    | nil => exact List.nodup_nil
    | cons x xs =>
      rw [List.eraseDups_cons]
      refine List.nodup_cons.2 ⟨by simp [List.mem_eraseDups], ih _ ?_ _ rfl⟩
      have hle := List.length_filter_le (fun y => !y == x) xs
      rw [List.length_cons] at h
      omega

theorem perm_flatMap_filter {α κ : Type} [BEq κ] [LawfulBEq κ] (f : α → κ) {ks : List κ}
    (hnodup : ks.Nodup) {items : List α} (hcover : ∀ x ∈ items, f x ∈ ks) :
    (ks.flatMap fun k => items.filter (f · == k)).Perm items := by
  induction ks generalizing items with
  | nil =>
    obtain rfl := List.eq_nil_iff_forall_not_mem.2 fun x hx => List.not_mem_nil (hcover x hx)
    exact .refl _
  | cons k ks ih =>
    obtain ⟨hk, hnodup⟩ := List.nodup_cons.1 hnodup
    -- the other keys find the same items among those that are left
    have hrest : ∀ k' ∈ ks, items.filter (f · == k') =
        (items.filter fun x => !f x == k).filter (f · == k') := by
      intro k' hk'
      rw [List.filter_filter]
      refine List.filter_congr fun x _ => ?_
      by_cases hx : f x = k'
      · have hne : f x ≠ k := fun h => hk (h ▸ hx ▸ hk')
        simp [hx, hx ▸ hne]
      · simp [hx]
    have hleft : ∀ x ∈ items.filter fun x => !f x == k, f x ∈ ks := by
      intro x hx
      obtain ⟨hx, hne⟩ := List.mem_filter.1 hx
      exact (List.mem_cons.1 (hcover x hx)).resolve_left (by simpa using hne)
    rw [List.flatMap_cons, List.flatMap_congr hrest]
    exact ((ih hnodup hleft).append_left _).trans (List.filter_append_perm ..)

/-! ### Groups -/

/-- A group of some of the components `cs`. -/
structure TonalGroup.IsOf (cs : List TonalComponent) (g : TonalGroup) : Prop where
  nonempty : g.components ≠ []
  mem : ∀ c ∈ g.components, c ∈ cs
  selector : ∀ c ∈ g.components, c.selector = g.selector
  length : ∀ c ∈ g.components, c.length = g.length
  ascending : g.components.Pairwise (·.position ≤ ·.position)
  room : ∀ window, (inWindow window g.components).length ≤ mostPerWindow

theorem TonalGroup.IsOf.exists_mem {cs : List TonalComponent} {g : TonalGroup} (h : g.IsOf cs) :
    ∃ c ∈ cs, c.selector = g.selector ∧ c.length = g.length := by
  obtain ⟨c, hc⟩ := List.exists_mem_of_ne_nil _ h.nonempty
  exact ⟨c, h.mem c hc, h.selector c hc, h.length c hc⟩

namespace TonalGroups

/-! ### Dealing components into rows -/

/-- The components `cs` dealt into rows: none is lost, those of a row keep their order, and no
window of a row is overfull. -/
structure IsDealt (cs : List TonalComponent) (rows : List (List TonalComponent)) : Prop where
  perm : rows.flatten.Perm cs
  nonempty : ∀ row ∈ rows, row ≠ []
  sublist : ∀ row ∈ rows, row.Sublist cs
  room : ∀ row ∈ rows, ∀ window, (inWindow window row).length ≤ mostPerWindow

variable {cs : List TonalComponent} {c : TonalComponent} {rows : List (List TonalComponent)}

/-- What holds of the rows when a component is put at the end of one with room, or of an empty one. -/
theorem forall_mem_place {P : List TonalComponent → Prop} (hrows : ∀ row ∈ rows, P row)
    (hchosen : ∀ row, row = [] ∨ row ∈ rows →
      (inWindow c.window row).length < mostPerWindow → P (row ++ [c])) :
    ∀ row ∈ place c rows, P row := by
  induction rows with
  | nil => exact List.forall_mem_singleton.2 (hchosen [] (.inl rfl) (Nat.zero_lt_succ _))
  | cons first rows ih =>
    obtain ⟨hfirst, hrows⟩ := List.forall_mem_cons.1 hrows
    rw [place]
    split
    · exact List.forall_mem_cons.2 ⟨hchosen first (.inr List.mem_cons_self) ‹_›, hrows⟩
    · refine List.forall_mem_cons.2 ⟨hfirst, ih hrows fun row hrow => ?_⟩
      exact hchosen row (hrow.imp_right (List.mem_cons_of_mem _))

theorem flatten_place_perm (c : TonalComponent) (rows : List (List TonalComponent)) :
    (place c rows).flatten.Perm (rows.flatten ++ [c]) := by
  induction rows with
  | nil => exact .refl _
  | cons first rows ih =>
    rw [place]
    split
    · rw [List.flatten_cons, List.flatten_cons, List.append_assoc, List.append_assoc]
      exact List.perm_append_comm.append_left first
    · rw [List.flatten_cons, List.flatten_cons, List.append_assoc]
      exact ih.append_left first

theorem length_inWindow_append_le {row : List TonalComponent}
    (hrow : ∀ window, (inWindow window row).length ≤ mostPerWindow)
    (hroom : (inWindow c.window row).length < mostPerWindow) (window : Nat) :
    (inWindow window (row ++ [c])).length ≤ mostPerWindow := by
  unfold inWindow at *
  rw [List.filter_append, List.length_append]
  by_cases hwindow : c.window = window
  · subst hwindow
    simpa using Nat.succ_le_of_lt hroom
  · simpa [hwindow] using hrow window

theorem IsDealt.place (h : IsDealt cs rows) (c : TonalComponent) :
    IsDealt (cs ++ [c]) (place c rows) where
  perm := (flatten_place_perm c rows).trans (h.perm.append_right [c])
  nonempty := forall_mem_place h.nonempty fun row _ _ => by simp
  sublist := by
    refine forall_mem_place
      (fun row hrow => (h.sublist row hrow).trans (List.sublist_append_left ..)) ?_
    rintro row (rfl | hrow) -
    · exact (List.nil_sublist cs).append (List.Sublist.refl [c])
    · exact (h.sublist row hrow).append (List.Sublist.refl [c])
  room := by
    refine forall_mem_place h.room ?_
    rintro row (rfl | hrow) hfree
    · exact length_inWindow_append_le (fun _ => Nat.zero_le _) hfree
    · exact length_inWindow_append_le (h.room row hrow) hfree

theorem IsDealt.foldl {dealt : List TonalComponent} (h : IsDealt dealt rows)
    (cs : List TonalComponent) :
    IsDealt (dealt ++ cs) (cs.foldl (fun rows c => TonalGroups.place c rows) rows) := by
  induction cs generalizing dealt rows with
  | nil => rwa [List.append_nil]
  | cons c cs ih =>
    have hrest := ih (h.place c)
    rwa [List.append_assoc] at hrest

theorem isDealt_nil : IsDealt [] [] := ⟨.refl _, nofun, nofun, nofun⟩

theorem isDealt_foldl (cs : List TonalComponent) :
    IsDealt cs (cs.foldl (fun rows c => place c rows) []) :=
  isDealt_nil.foldl cs

/-! ### The groups of one key -/

/-- The components with one key in ascending order of position. -/
def membersOf (cs : List TonalComponent) (k : Nat × Nat) : List TonalComponent :=
  (cs.filter (key · == k)).mergeSort fun a b => a.position ≤ b.position

theorem membersOf_perm (cs : List TonalComponent) (k : Nat × Nat) :
    (membersOf cs k).Perm (cs.filter (key · == k)) :=
  List.mergeSort_perm ..

theorem ascending_membersOf (cs : List TonalComponent) (k : Nat × Nat) :
    (membersOf cs k).Pairwise (·.position ≤ ·.position) := by
  refine (List.pairwise_mergeSort ?_ ?_ (cs.filter (key · == k))).imp of_decide_eq_true
  · intro a b c hab hbc
    exact decide_eq_true (Nat.le_trans (of_decide_eq_true hab) (of_decide_eq_true hbc))
  · intro a b
    rcases Nat.le_total a.position b.position with h | h <;> simp [h]

theorem mem_membersOf {k : Nat × Nat} (h : c ∈ membersOf cs k) : c ∈ cs ∧ key c = k := by
  have hmem := List.mem_filter.1 ((membersOf_perm cs k).mem_iff.1 h)
  exact ⟨hmem.1, by simpa using hmem.2⟩

theorem groupsOf_eq (cs : List TonalComponent) (k : Nat × Nat) :
    groupsOf cs k =
      ((membersOf cs k).foldl (fun rows c => place c rows) []).map fun row => ⟨k.1, k.2, row⟩ :=
  rfl

theorem isOf_of_mem_groupsOf {k : Nat × Nat} {g : TonalGroup} (hg : g ∈ groupsOf cs k) :
    g.IsOf cs := by
  rw [groupsOf_eq] at hg
  obtain ⟨row, hrow, rfl⟩ := List.mem_map.1 hg
  have hdealt := isDealt_foldl (membersOf cs k)
  have hkey : ∀ c ∈ row, c ∈ cs ∧ key c = k := fun c hc =>
    mem_membersOf ((hdealt.sublist row hrow).subset hc)
  exact
    { nonempty := hdealt.nonempty row hrow
      mem := fun c hc => (hkey c hc).1
      selector := fun c hc => congrArg Prod.fst (hkey c hc).2
      length := fun c hc => congrArg Prod.snd (hkey c hc).2
      ascending := (ascending_membersOf cs k).sublist (hdealt.sublist row hrow)
      room := hdealt.room row hrow }

theorem perm_components_groupsOf (cs : List TonalComponent) (k : Nat × Nat) :
    ((groupsOf cs k).flatMap (·.components)).Perm (cs.filter (key · == k)) := by
  rw [groupsOf_eq, List.flatMap_map, List.flatMap_id']
  exact (isDealt_foldl (membersOf cs k)).perm.trans (membersOf_perm cs k)

/-! ### All groups -/

theorem isOf_of_mem_groupsFor {g : TonalGroup} (hg : g ∈ groupsFor cs) : g.IsOf cs := by
  obtain ⟨k, -, hg⟩ := List.mem_flatMap.1 (List.mem_of_mem_take hg)
  exact isOf_of_mem_groupsOf hg

theorem length_groupsFor_le (cs : List TonalComponent) : (groupsFor cs).length ≤ mostGroups :=
  List.length_take_le ..

theorem groups_build (cs : List TonalComponent) : (build cs).groups = groupsFor cs := by
  unfold build ofGroups
  split
  · exact (List.isEmpty_iff.1 ‹_›).symm
  · rfl

theorem nodup_keys (cs : List TonalComponent) : (keys cs).Nodup :=
  (List.mergeSort_perm ..).nodup_iff.2 (nodup_eraseDups (cs.map key))

theorem key_mem_keys (hc : c ∈ cs) : key c ∈ keys cs :=
  List.mem_mergeSort.2 (List.mem_eraseDups.2 (List.mem_map_of_mem hc))

theorem perm_components_keys (cs : List TonalComponent) :
    (((keys cs).flatMap (groupsOf cs)).flatMap (·.components)).Perm cs := by
  rw [List.flatMap_assoc]
  exact (List.Perm.flatMap_left _ fun k _ => perm_components_groupsOf cs k).trans
    (perm_flatMap_filter key (nodup_keys cs) fun _ => key_mem_keys)

/-- A group has a component, so that up to 31 components have no more groups than there is room
for. -/
theorem groupsFor_eq (hcs : cs.length ≤ mostGroups) :
    groupsFor cs = (keys cs).flatMap (groupsOf cs) := by
  have hperm := perm_components_keys cs
  refine List.take_of_length_le ?_
  refine Nat.le_trans ?_ (Nat.le_trans (Nat.le_of_eq hperm.length_eq) hcs)
  rw [List.length_flatMap (f := TonalGroup.components)]
  refine Nat.le_trans (Nat.le_of_eq (List.length_map _).symm) (List.length_le_sum_of_one_le _ ?_)
  intro size hsize
  obtain ⟨g, hg, rfl⟩ := List.mem_map.1 hsize
  obtain ⟨k, -, hg⟩ := List.mem_flatMap.1 hg
  exact List.length_pos_iff.2 (isOf_of_mem_groupsOf hg).nonempty

/-- **Up to 31 components are grouped without loss.** -/
theorem perm_components_build (hcs : cs.length ≤ mostGroups) : (build cs).components.Perm cs := by
  rw [components, groups_build, groupsFor_eq hcs]
  exact perm_components_keys cs

/-! ### A single group -/

theorem foldl_place {row : List TonalComponent}
    (hroom : row.length + cs.length ≤ mostPerWindow) :
    cs.foldl (fun rows c => place c rows) [row] = [row ++ cs] := by
  induction cs generalizing row with
  | nil => rw [List.foldl_nil, List.append_nil]
  | cons c cs ih =>
    rw [List.length_cons] at hroom
    have hmembers : (inWindow c.window row).length ≤ row.length := List.length_filter_le ..
    have hrest : (row ++ [c]).length + cs.length ≤ mostPerWindow := by
      rw [List.length_append, List.length_singleton]
      omega
    rw [List.foldl_cons, place, if_pos (by omega), ih hrest, List.append_assoc]
    rfl

/-- Components of one key in order, no more than a window holds, are a single group. -/
theorem build_of_key {k : Nat × Nat} (hnonempty : cs ≠ []) (hkey : ∀ c ∈ cs, key c = k)
    (hascending : cs.Pairwise (·.position ≤ ·.position)) (hroom : cs.length ≤ mostPerWindow) :
    build cs = ofGroups [⟨k.1, k.2, cs⟩] := by
  obtain ⟨c, rest, rfl⟩ := List.exists_cons_of_ne_nil hnonempty
  have hk : ∀ k' ∈ keys (c :: rest), k' = k := fun k' hk' => by
    obtain ⟨d, hd, rfl⟩ := List.mem_map.1 (List.mem_eraseDups.1 (List.mem_mergeSort.1 hk'))
    exact hkey d hd
  have hkeys : keys (c :: rest) = [k] := by
    have hmem : key c ∈ keys (c :: rest) := key_mem_keys List.mem_cons_self
    refine List.perm_singleton.1 ?_
    refine (List.perm_ext_iff_of_nodup (nodup_keys _) (List.nodup_singleton k)).2 fun k' => ?_
    refine ⟨fun hk' => List.mem_singleton.2 (hk k' hk'), fun hk' => ?_⟩
    rw [List.mem_singleton.1 hk', ← hk _ hmem]
    exact hmem
  have hmembers : membersOf (c :: rest) k = c :: rest := by
    rw [membersOf, List.filter_eq_self.2 fun d hd => beq_iff_eq.2 (hkey d hd)]
    exact List.mergeSort_of_pairwise (hascending.imp decide_eq_true)
  have hgroup : groupsOf (c :: rest) k = [⟨k.1, k.2, c :: rest⟩] := by
    have hrow : rest.foldl (fun rows c => place c rows) [[c]] = [[c] ++ rest] :=
      foldl_place (by rwa [Nat.add_comm])
    rw [groupsOf_eq, hmembers, List.foldl_cons, place, hrow]
    rfl
  rw [build, groupsFor, hkeys, List.flatMap_singleton, hgroup]
  rfl

end TonalGroups

end Atrac3

end SpectralCoding
