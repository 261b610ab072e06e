import SpectralCoding.Proofs.Bits.EmissionParts
import SpectralCoding.Proofs.Pipeline.Visits

/-!
# How many turns a frame takes

The turns of a frame are counted on its record. A count that every turn lowers is an upper bound for
them, whether the stages settle or one of them fails; and a frame that has such a bound is never
given up for want of turns.

* `Pipeline.turns`, `Pipeline.EndsWithin` : the turns that a frame takes; an upper bound for them.
* `Error.IsOfStage` : a failure that is a stage's own.
* `Pipeline.IsReady` : the stages stand in their row and no return is called for.
  `Pipeline.isKept_isReady` : every turn keeps it.
* `Pipeline.IsLowered` : every turn of a row of stages lowers the turns that suffice.
* `Pipeline.endsWithin_of_isLowered` : **turns that suffice are an upper bound.**
* `Pipeline.exists_settle_eq_ok` : a frame with a bound settles, if no turn of it fails.
-/

namespace SpectralCoding

/-- The failure is a stage's own, and not for want of turns. -/
def Error.IsOfStage (cause : Error) : Prop := ∀ position, cause ≠ .unsettled position

namespace Pipeline

variable {κ φ σ : Type} {stages : List (Stage κ φ σ)} {position : Nat} {slot : Slot κ φ σ}
  {s : Progress κ φ σ} {p : Pipeline κ φ σ} {frame : φ}

/-! ### The row of stages -/

/-- The stages stand in their row, and no return is called for. -/
structure IsReady (stages : List (Stage κ φ σ)) (s : Progress κ φ σ) : Prop where
  row : s.slots.map (·.stage) = stages
  closed : s.desk.isReopened = false

theorem IsReady.stage_eq (hs : IsReady stages s) (hslot : s.slots[position]? = some slot) :
    stages[position]? = some slot.stage := by
  rw [← hs.row, List.getElem?_map, hslot, Option.map_some]

theorem isReady_fresh (hp : p.slots.map (·.stage) = stages) (frame : φ) :
    IsReady stages (p.fresh frame) := by
  refine ⟨?_, rfl⟩
  rw [fresh, List.map_map]
  exact hp

/-- What a stage remembers is no part of the row. -/
theorem row_after (hs : IsReady stages s) (hslot : s.slots[position]? = some slot) (t : Turn φ σ)
    (desk : Desk κ) : (s.after position slot t desk).slots.map (·.stage) = stages := by
  obtain ⟨hlt, hget⟩ := List.getElem?_eq_some_iff.1 (hs.stage_eq hslot)
  rw [Progress.after, List.map_set, hs.row]
  dsimp only
  rw [← hget, List.set_getElem_self]

theorem row_restarted (s : Progress κ φ σ) (position : Nat) :
    (s.restarted position).slots.map (·.stage) = s.slots.map (·.stage) := by
  have hforget : (s.slots.take position).map ((·.stage) ∘ Slot.forget) =
      (s.slots.take position).map (·.stage) := rfl
  rw [Progress.restarted, List.map_append, List.map_map, hforget, ← List.map_append,
    List.take_append_drop]

variable [Dial κ]

theorem isKept_isReady (stages : List (Stage κ φ σ)) :
    IsKept (fun _ s => IsReady stages s) fun _ => True := by
  intro position slot s hslot hs
  rw [turn_eq_conclude]
  generalize (slot.stage.work s.frame slot.memory).run position
    (Slot.totalCost (s.slots.take position)) s.desk = left
  unfold conclude
  cases left.1.verdict with
  | error cause => trivial
  | ok verdict =>
    cases hreopened : left.2.isReopened with
    | true => exact ⟨row_after hs hslot _ _, rfl⟩
    | false =>
      cases verdict with
      | proceed => exact ⟨row_after hs hslot _ _, hreopened⟩
      | restart => exact ⟨(row_restarted _ _).trans (row_after hs hslot _ _), hreopened⟩

/-! ### Bounds -/

/-- The turns that the stages take for a frame. -/
def turns (p : Pipeline κ φ σ) (frame : φ) : Nat :=
  (settleVisiting runLimit 0 (p.fresh frame)).2.length

/-- A frame takes at most `count` turns, and is not given up for want of turns. -/
structure EndsWithin (p : Pipeline κ φ σ) (count : Nat) (frame : φ) : Prop where
  turns_le : p.turns frame ≤ count
  settled : ∀ position, (p.encode frame).emission.fault ≠ some (.unsettled position)

theorem EndsWithin.mono {count more : Nat} (h : p.EndsWithin count frame) (hle : count ≤ more) :
    p.EndsWithin more frame :=
  ⟨Nat.le_trans h.turns_le hle, h.settled⟩

/-! ### Turns that suffice -/

/-- Every turn of the stages lowers the turns that suffice, or fails by the stage's own doing. -/
def IsLowered (stages : List (Stage κ φ σ)) (W : Nat → Nat → Progress κ φ σ → Prop) : Prop :=
  ∀ turns position stage memory s, stages[position]? = some stage → s.desk.isReopened = false →
    W turns position s →
    ∃ fewer < turns, (turn position ⟨stage, memory⟩ s).Leads (W fewer) Error.IsOfStage

variable {W : Nat → Nat → Progress κ φ σ → Prop}

/-- A run takes no more turns than suffice, and if it fails it is by a stage's own doing. -/
theorem settleVisiting_of_isLowered (hlowered : IsLowered stages W) {turns runs : Nat}
    (hle : turns ≤ runs) (hready : IsReady stages s) (hs : W turns position s) :
    (settleVisiting runs position s).2.length ≤ turns ∧
      ∀ cause, (settleVisiting runs position s).1.1 = .error cause → cause.IsOfStage := by
  induction runs generalizing turns position s with
  | zero =>
    cases hslot : s.slots[position]? with
    | none =>
      rw [settleVisiting_of_past hslot]
      exact ⟨Nat.zero_le _, nofun⟩
    | some slot =>
      obtain ⟨fewer, hlt, -⟩ :=
        hlowered turns position slot.stage slot.memory s (hready.stage_eq hslot) hready.closed hs
      omega
  | succ runs ih =>
    cases hslot : s.slots[position]? with
    | none =>
      rw [settleVisiting_of_past hslot]
      exact ⟨Nat.zero_le _, nofun⟩
    | some slot =>
      obtain ⟨fewer, hlt, hturn⟩ :=
        hlowered turns position slot.stage slot.memory s (hready.stage_eq hslot) hready.closed hs
      have hkept := isKept_isReady stages position slot s hslot hready
      have hfst := visit_fst position slot s
      rcases hvisit : visit position slot s with ⟨⟨next, s'⟩ | ⟨cause, s'⟩, record⟩
      · rw [hvisit] at hfst
        rw [← hfst] at hturn hkept
        obtain ⟨hlength, hcause⟩ := ih (by omega) hkept hturn
        rw [settleVisiting_of_goOn hslot hvisit]
        refine ⟨?_, hcause⟩
        rw [List.length_cons]
        omega
      · rw [hvisit] at hfst
        rw [← hfst] at hturn
        rw [settleVisiting_of_failed hslot hvisit]
        refine ⟨?_, ?_⟩
        · rw [List.length_singleton]
          omega
        · intro cause' heq
          obtain rfl := Except.error.inj heq
          exact hturn

/-! ### Frames -/

/-- **Turns that suffice are an upper bound.** -/
theorem endsWithin_of_isLowered (hlowered : IsLowered stages W)
    (hemit : ∀ stage ∈ stages, ∀ frame memory, (stage.emit frame memory).FaultsIn Error.IsOfStage)
    (hp : p.slots.map (·.stage) = stages) {count : Nat} (hcount : count ≤ runLimit)
    (hfresh : W count 0 (p.fresh frame)) : p.EndsWithin count frame := by
  have hready := isReady_fresh hp frame
  obtain ⟨hturns, hcause⟩ := settleVisiting_of_isLowered hlowered hcount hready hfresh
  refine ⟨hturns, fun position hfault => ?_⟩
  rw [settleVisiting_fst] at hcause
  have hends := settle_of_isKept (isKept_isReady stages) runLimit 0 _ hready
  rcases hrun : settle runLimit 0 (p.fresh frame) with ⟨cause | ⟨⟩, last⟩
  · rw [emission_of_failed hrun] at hfault
    rw [hrun] at hcause
    exact hcause cause rfl position (Option.some.inj hfault)
  · rw [encode_of_settled hrun] at hfault
    rw [hrun] at hends
    obtain ⟨-, -, hlast⟩ := hends
    have hput : last.put.emission.FaultsIn Error.IsOfStage := by
      refine Emission.faultsIn_each fun slot hslot => ?_
      have hstage : slot.stage ∈ stages := hlast.row ▸ List.mem_map_of_mem hslot
      exact hemit slot.stage hstage last.frame slot.memory
    exact hput _ hfault position rfl

/-- A frame whose first stage fails in its first turn takes that turn only. -/
theorem endsWithin_of_turn_failed {s : Progress κ φ σ} {cause : Error}
    (hslot : (p.fresh frame).slots[0]? = some slot)
    (hturn : turn 0 slot (p.fresh frame) = .failed cause s) (hcause : cause.IsOfStage) :
    p.EndsWithin 1 frame := by
  refine ⟨?_, fun position hfault => ?_⟩
  · obtain ⟨runs, hlimit⟩ : ∃ runs, runLimit = runs + 1 := ⟨_, rfl⟩
    have hvisit : visit 0 slot (p.fresh frame) = (.failed cause s, _) :=
      Prod.ext ((visit_fst 0 slot (p.fresh frame)).trans hturn) rfl
    rw [turns, hlimit, settleVisiting_of_failed hslot hvisit]
    exact Nat.le_refl 1
  · rw [emission_of_turn_failed hslot hturn] at hfault
    exact hcause position (Option.some.inj hfault)

/-- A frame that has a bound settles, if no turn of it fails. -/
theorem exists_settle_eq_ok {P : Nat → Progress κ φ σ → Prop} (hkept : IsKept P fun _ => False)
    (hfresh : P 0 (p.fresh frame)) {count : Nat} (hends : p.EndsWithin count frame) :
    ∃ last, settle runLimit 0 (p.fresh frame) = (.ok (), last) := by
  have hrun := settle_of_isKept hkept runLimit 0 _ hfresh
  rcases hsettle : settle runLimit 0 (p.fresh frame) with ⟨cause | ⟨⟩, last⟩
  · rw [hsettle] at hrun
    rcases hrun with hnever | ⟨position, rfl⟩
    · exact hnever.elim
    · exact absurd (congrArg Emission.fault (emission_of_failed hsettle)) (hends.settled position)
  · exact ⟨last, rfl⟩

end Pipeline

end SpectralCoding
