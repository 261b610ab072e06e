import SpectralCoding.Proofs.Pipeline.Run

/-!
# Frames do not see the frames before them

From one frame to the next a pipeline keeps its desk and whatever its stages remember, also where a
frame broke off. None of it matters to the next frame: every stage forgets before it works, a return
that was called for is not made, and the first stage begins a new search before anyone asks for a
shift.

* `Negotiation.Begins` : a talk that opens with a new search, unless it fails at once.
* `Stage.Forgets`, `AreForgetful` : stages of which nothing is left once they forget, the first of
  which begins a search.
* `Pipeline.cleared` : a pipeline with nothing left of earlier frames.
* `Pipeline.cleared_encode`, `Pipeline.emission_cleared` : **a frame leaves nothing behind that
  clearing would not remove, and is put out as from a cleared pipeline.**
-/

namespace SpectralCoding

variable {κ φ σ : Type}

/-- A talk that opens with a new search, or ends at once with a failure. -/
def Negotiation.Begins : Negotiation κ (Turn φ σ) → Prop
  | .start .. => True
  | .done t => ∃ cause, t.verdict = .error cause
  | _ => False

theorem Pipeline.map_forget_after {s : Progress κ φ σ} {slot : Slot κ φ σ} {position : Nat}
    (hslot : s.slots[position]? = some slot) {t : Turn φ σ} {desk : Desk κ}
    (ht : slot.stage.forget t.memory = slot.stage.forget slot.memory) :
    (s.after position slot t desk).slots.map Slot.forget = s.slots.map Slot.forget := by
  have hforget : Slot.forget { slot with memory := t.memory } = slot.forget := by
    simp only [Slot.forget, ht]
  obtain ⟨hlt, rfl⟩ := List.getElem?_eq_some_iff.1 hslot
  rw [Progress.after, List.map_set, hforget, ← List.getElem_map Slot.forget, List.set_getElem_self]
  simpa using hlt

variable [Dial κ]

/-- Wherever the search stood before, such a talk leaves the same behind, or fails. -/
theorem Negotiation.run_of_begins {n : Negotiation κ (Turn φ σ)} (h : n.Begins)
    (position cost : Nat) (d : Desk κ) (search : Bisection κ) :
    n.run position cost { d with search } = n.run position cost d ∨
      ∃ t cause, n = .done t ∧ t.verdict = .error cause := by
  cases n with
  | start => exact .inl rfl
  | done t =>
    obtain ⟨cause, hcause⟩ := h
    exact .inr ⟨t, cause, rfl, hcause⟩
  | probe => exact h.elim
  | submit => exact h.elim
  | isUnder => exact h.elim
  | target => exact h.elim
  | spent => exact h.elim

/-- Wherever the search stood before, the turn of a stage that begins a search leads the same
way. -/
theorem Pipeline.turn_of_begins {slot : Slot κ φ σ} {s : Progress κ φ σ}
    (h : (slot.stage.work s.frame slot.memory).Begins) (position : Nat) (search : Bisection κ) :
    turn position slot { s with desk := { s.desk with search } } = turn position slot s ∨
      ∃ cause s₁ s₂,
        turn position slot { s with desk := { s.desk with search } } = .failed cause s₁ ∧
          turn position slot s = .failed cause s₂ := by
  rw [turn_eq_conclude, turn_eq_conclude]
  rcases Negotiation.run_of_begins h position (Slot.totalCost (s.slots.take position)) s.desk search
    with hsame | ⟨t, cause, hdone, hcause⟩
  · left
    dsimp only
    rw [hsame]
    rfl
  · right
    dsimp only
    rw [hdone]
    simp only [Negotiation.run, conclude, hcause]
    exact ⟨cause, _, _, rfl, rfl⟩

/-- Once a stage forgets, nothing is left of its turns. -/
structure Stage.Forgets (stage : Stage κ φ σ) : Prop where
  forget : ∀ memory, stage.forget (stage.forget memory) = stage.forget memory
  work : ∀ frame memory position spent desk,
    stage.forget ((stage.work frame memory).run position spent desk).1.memory = stage.forget memory

theorem Stage.forgets_of_const {stage : Stage κ φ σ} (blank : σ)
    (h : ∀ memory, stage.forget memory = blank) : stage.Forgets where
  forget _ := by rw [h, h]
  work _ _ _ _ _ := by rw [h, h]

/-- Stages of which nothing is left once they forget, the first of which begins a search. -/
structure AreForgetful (stages : List (Stage κ φ σ)) : Prop where
  begins : ∀ stage ∈ stages.head?, ∀ frame memory, (stage.work frame memory).Begins
  forgets : ∀ stage ∈ stages, stage.Forgets

namespace Pipeline

/-- The stages of a pipeline. -/
def stages (p : Pipeline κ φ σ) : List (Stage κ φ σ) := p.slots.map (·.stage)

/-- A pipeline with nothing left of earlier frames. -/
def cleared (p : Pipeline κ φ σ) : Pipeline κ φ σ :=
  { slots := p.slots.map Slot.forget, desk := .idle }

@[simp] theorem stages_cleared (p : Pipeline κ φ σ) : p.cleared.stages = p.stages := by
  simp only [stages, cleared, List.map_map]
  rfl

variable {p : Pipeline κ φ σ} {s : Progress κ φ σ} {slot : Slot κ φ σ} {position : Nat}

theorem forget_forget (h : slot.stage.Forgets) : slot.forget.forget = slot.forget := by
  simp only [Slot.forget, h.forget]

theorem map_forget_map_forget {slots : List (Slot κ φ σ)} (h : ∀ slot ∈ slots, slot.stage.Forgets) :
    (slots.map Slot.forget).map Slot.forget = slots.map Slot.forget := by
  rw [List.map_map]
  exact List.map_congr_left fun slot hslot => forget_forget (h slot hslot)

/-! ### What a turn leaves behind -/

/-- The state in which a turn ends. -/
def Outcome.state : Outcome κ φ σ → Progress κ φ σ
  | .goOn _ s => s
  | .failed _ s => s

theorem map_forget_restarted (h : ∀ slot ∈ s.slots, slot.stage.Forgets) (position : Nat) :
    (s.restarted position).slots.map Slot.forget = s.slots.map Slot.forget := by
  have hahead : ∀ slot ∈ s.slots.take position, slot.stage.Forgets :=
    fun slot hslot => h slot (List.mem_of_mem_take hslot)
  rw [Progress.restarted, List.map_append, map_forget_map_forget hahead, ← List.map_append,
    List.take_append_drop]

theorem forgets_of_map_forget_eq {slots slots' : List (Slot κ φ σ)}
    (heq : slots'.map Slot.forget = slots.map Slot.forget)
    (h : ∀ slot ∈ slots, slot.stage.Forgets) :
    ∀ slot ∈ slots', slot.stage.Forgets := by
  intro slot hslot
  have hmem : slot.forget ∈ slots.map Slot.forget := heq ▸ List.mem_map_of_mem hslot
  obtain ⟨slot', hslot', hforget⟩ := List.mem_map.1 hmem
  have hstage : slot'.stage = slot.stage := congrArg (·.stage) hforget
  exact hstage ▸ h slot' hslot'

/-- A turn leaves nothing behind that forgetting would not remove. -/
theorem map_forget_turn (hslot : s.slots[position]? = some slot)
    (h : ∀ slot ∈ s.slots, slot.stage.Forgets) :
    (turn position slot s).state.slots.map Slot.forget = s.slots.map Slot.forget := by
  have hwork := (h slot (List.mem_of_getElem? hslot)).work s.frame slot.memory position
    (Slot.totalCost (s.slots.take position)) s.desk
  rw [turn_eq_conclude]
  generalize (slot.stage.work s.frame slot.memory).run position
    (Slot.totalCost (s.slots.take position)) s.desk = left at hwork ⊢
  have hafter (desk : Desk κ) : (s.after position slot left.1 desk).slots.map Slot.forget =
      s.slots.map Slot.forget :=
    map_forget_after hslot hwork
  unfold conclude
  split
  · exact hafter _
  · split
    · exact hafter _
    · split
      · have hforgets := forgets_of_map_forget_eq (hafter left.2) h
        exact (map_forget_restarted hforgets position).trans (hafter left.2)
      · exact hafter _

theorem map_forget_settle (runs : Nat) (h : ∀ slot ∈ s.slots, slot.stage.Forgets) :
    (settle runs position s).2.slots.map Slot.forget = s.slots.map Slot.forget := by
  induction runs generalizing position s with
  | zero =>
    rw [settle]
    split <;> rfl
  | succ runs ih =>
    cases hslot : s.slots[position]? with
    | none => rw [settle_of_past hslot]
    | some slot =>
      have hturn := map_forget_turn hslot h
      cases hout : turn position slot s with
      | failed cause s' =>
        rw [settle_of_failed hslot hout]
        rwa [hout] at hturn
      | goOn next s' =>
        rw [hout] at hturn
        rw [settle_of_goOn hslot hout]
        exact (ih (forgets_of_map_forget_eq hturn h)).trans hturn

/-! ### Frames -/

theorem slots_encode (p : Pipeline κ φ σ) (frame : φ) :
    (p.encode frame).pipeline.slots = (settle runLimit 0 (p.fresh frame)).2.slots := by
  rcases hrun : settle runLimit 0 (p.fresh frame) with ⟨result, s⟩
  unfold fresh at hrun
  cases result <;> simp only [encode, hrun]

theorem forgets_of_areForgetful (h : AreForgetful p.stages) :
    ∀ slot ∈ p.slots, slot.stage.Forgets :=
  fun _ hslot => h.forgets _ (List.mem_map_of_mem hslot)

/-- **A frame leaves nothing behind that clearing would not remove.** -/
theorem cleared_encode (h : AreForgetful p.stages) (frame : φ) :
    (p.encode frame).pipeline.cleared = p.cleared := by
  have hagain := map_forget_map_forget (forgets_of_areForgetful h)
  have hfresh : ∀ slot ∈ (p.fresh frame).slots, slot.stage.Forgets :=
    forgets_of_map_forget_eq hagain (forgets_of_areForgetful h)
  rw [cleared, slots_encode, map_forget_settle runLimit hfresh, cleared, ← hagain]
  rfl

theorem fresh_cleared (h : AreForgetful p.stages) (frame : φ) :
    p.cleared.fresh frame =
      { p.fresh frame with desk := { (p.fresh frame).desk with search := .idle } } := by
  simp only [fresh, cleared, Desk.idle, map_forget_map_forget (forgets_of_areForgetful h)]

theorem begins_of_areForgetful (h : AreForgetful p.stages) {frame : φ}
    (hslot : (p.fresh frame).slots[0]? = some slot) (frame : φ) (memory : σ) :
    (slot.stage.work frame memory).Begins := by
  refine h.begins slot.stage ?_ frame memory
  rw [fresh, List.getElem?_map, Option.map_eq_some_iff] at hslot
  obtain ⟨first, hfirst, rfl⟩ := hslot
  rw [stages, List.head?_eq_getElem?, List.getElem?_map, hfirst]
  rfl

/-- Runs that begin with turns that lead the same way end the same way. -/
theorem settle_of_turn_eq {s' : Progress κ φ σ} (hslot : s.slots[position]? = some slot)
    (hslot' : s'.slots[position]? = some slot)
    (hsame : turn position slot s' = turn position slot s) (runs : Nat) :
    settle (runs + 1) position s' = settle (runs + 1) position s := by
  cases hout : turn position slot s with
  | failed cause last =>
    rw [settle_of_failed hslot hout, settle_of_failed hslot' (hsame.trans hout)]
  | goOn next last => rw [settle_of_goOn hslot hout, settle_of_goOn hslot' (hsame.trans hout)]

/-- **A frame is put out as from a cleared pipeline.** -/
theorem emission_cleared (h : AreForgetful p.stages) (frame : φ) :
    (p.cleared.encode frame).emission = (p.encode frame).emission := by
  have hfresh := fresh_cleared h frame
  cases hslot : (p.fresh frame).slots[0]? with
  | none =>
    -- without stages the search is not looked at
    have hslot' : (p.cleared.fresh frame).slots[0]? = none := by rw [hfresh]; exact hslot
    rw [encode_of_settled (settle_of_past hslot runLimit),
      encode_of_settled (settle_of_past hslot' runLimit), hfresh]
    rfl
  | some slot =>
    -- the two runs differ in the search only, and the first turn overwrites that
    have hslot' : (p.cleared.fresh frame).slots[0]? = some slot := by rw [hfresh]; exact hslot
    have hbegins := begins_of_areForgetful h hslot (p.fresh frame).frame slot.memory
    have hturns := turn_of_begins hbegins 0 .idle
    rw [← hfresh] at hturns
    rcases hturns with hsame | ⟨cause, s₁, s₂, hcleared, hkept⟩
    · obtain ⟨runs, hlimit⟩ : ∃ runs, runLimit = runs + 1 := ⟨_, rfl⟩
      have hsettle := settle_of_turn_eq hslot hslot' hsame runs
      rw [← hlimit] at hsettle
      rcases hrun : settle runLimit 0 (p.fresh frame) with ⟨cause | ⟨⟩, last⟩
      · rw [emission_of_failed hrun, emission_of_failed (hsettle.trans hrun)]
      · rw [encode_of_settled hrun, encode_of_settled (hsettle.trans hrun)]
    · rw [emission_of_turn_failed hslot hkept, emission_of_turn_failed hslot' hcleared]

theorem stages_of_cleared_eq {q : Pipeline κ φ σ} (heq : p.cleared = q.cleared) :
    p.stages = q.stages := by
  rw [← stages_cleared p, heq, stages_cleared]

/-- Pipelines that differ in what is left of earlier frames put out a frame alike, and differ in
nothing else afterwards. -/
theorem encode_of_cleared_eq {q : Pipeline κ φ σ} (h : AreForgetful p.stages)
    (heq : p.cleared = q.cleared) (frame : φ) :
    (p.encode frame).emission = (q.encode frame).emission ∧
      (p.encode frame).pipeline.cleared = (q.encode frame).pipeline.cleared := by
  have hq : AreForgetful q.stages := stages_of_cleared_eq heq ▸ h
  constructor
  · rw [← emission_cleared h, heq, emission_cleared hq]
  · rw [cleared_encode h, cleared_encode hq, heq]

end Pipeline

end SpectralCoding
