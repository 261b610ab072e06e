import SpectralCoding.Pipeline.Basic

/-!
# Runs of a pipeline

What every turn keeps holds when the stages have settled.

* `Pipeline.Outcome.Leads` : where a turn leads, or why it failed.
* `Pipeline.IsKept` : a property of position and state that every turn keeps; `IsKept.and` : one
  that it keeps together with another.
* `Pipeline.conclude` : where a turn leads, as a function of what its talk left behind.
* `Pipeline.turn_leads_of_error`, `Pipeline.turn_leads_of_proceed`,
  `Pipeline.turn_leads_of_restart`, `Pipeline.turn_leads_of_reopened` : a turn by the talk its stage
  holds.
* `Pipeline.settle_of_isKept` : the induction over a run.
* `Pipeline.encode_of_isKept` : a frame is refused for one of the causes allowed, or put out in a
  state with the property; `Pipeline.encode_of_isOk` : the latter, if the stages settle.
-/

namespace SpectralCoding

theorem Bisection.exists_probe {κ : Type} [Dial κ] (b : Bisection κ) :
    ∃ shift search, b.probe = (shift, search) ∧ search.target = b.target :=
  ⟨_, _, rfl, target_probe b⟩

theorem Bisection.exists_submit {κ : Type} [Dial κ] (b : Bisection κ) (cost : Nat) :
    ∃ stands search, b.submit cost = (stands, search) ∧ search.target = b.target :=
  ⟨_, _, rfl, target_submit b cost⟩

namespace Pipeline

variable {κ φ σ : Type} {P : Nat → Progress κ φ σ → Prop} {Q : Error → Prop}

/-- A turn goes on in front of a stage and in a state in `P`, or fails with a cause in `Q`. -/
def Outcome.Leads (P : Nat → Progress κ φ σ → Prop) (Q : Error → Prop) : Outcome κ φ σ → Prop
  | .goOn position s => P position s
  | .failed cause _ => Q cause

variable [Dial κ]

/-- Every turn in front of which `P` holds leads to `P` again, or fails with a cause in `Q`. -/
def IsKept (P : Nat → Progress κ φ σ → Prop) (Q : Error → Prop) : Prop :=
  ∀ position slot s, s.slots[position]? = some slot → P position s →
  (turn position slot s).Leads P Q

/-- What every turn keeps as long as it keeps something else as well. -/
theorem IsKept.and (h : IsKept P Q) {P' : Nat → Progress κ φ σ → Prop}
    (h' : ∀ position slot s, s.slots[position]? = some slot → P position s → P' position s →
      (turn position slot s).Leads P' Q) :
    IsKept (fun position s => P position s ∧ P' position s) Q := by
  intro position slot s hslot hs
  have hfirst := h position slot s hslot hs.1
  have hsecond := h' position slot s hslot hs.1 hs.2
  cases hturn : turn position slot s with
  | goOn next after =>
    rw [hturn] at hfirst hsecond
    exact ⟨hfirst, hsecond⟩
  | failed cause after =>
    rw [hturn] at hfirst
    exact hfirst

/-- The state after a turn that left `t` and `desk` behind. -/
def Progress.after (s : Progress κ φ σ) (position : Nat) (slot : Slot κ φ σ) (t : Turn φ σ)
    (desk : Desk κ) : Progress κ φ σ :=
  { slots := s.slots.set position { slot with memory := t.memory }, desk, frame := t.frame }

/-- The state after a turn whose stage calls for a restart. -/
def Progress.restarted (s : Progress κ φ σ) (position : Nat) : Progress κ φ σ :=
  { s with
    slots := (s.slots.take position).map Slot.forget ++ s.slots.drop position
    desk := { s.desk with anchor := 0 } }

/-! ### The four ways a turn can end -/

/-- Where the turn of a stage leads, given what its talk left behind. -/
def conclude (position : Nat) (slot : Slot κ φ σ) (s : Progress κ φ σ)
    (left : Turn φ σ × Desk κ) : Outcome κ φ σ :=
  match left.1.verdict with
  | .error cause => .failed cause (s.after position slot left.1 left.2)
  | .ok verdict =>
    if left.2.isReopened then
      .goOn left.2.anchor (s.after position slot left.1 { left.2 with isReopened := false })
    else match verdict with
      | .restart => .goOn 0 ((s.after position slot left.1 left.2).restarted position)
      | .proceed => .goOn (position + 1) (s.after position slot left.1 left.2)

theorem turn_eq_conclude (position : Nat) (slot : Slot κ φ σ) (s : Progress κ φ σ) :
    turn position slot s =
      conclude position slot s ((slot.stage.work s.frame slot.memory).run position
        (Slot.totalCost (s.slots.take position)) s.desk) := rfl

section

variable {position : Nat} {slot : Slot κ φ σ} {s : Progress κ φ σ} {t : Turn φ σ} {desk : Desk κ}
  (hwork : (slot.stage.work s.frame slot.memory).run position
    (Slot.totalCost (s.slots.take position)) s.desk = (t, desk))

include hwork

theorem turn_leads_of_error {cause : Error} (hverdict : t.verdict = .error cause)
    (hcause : Q cause) :
    (turn position slot s).Leads P Q := by
  simp only [turn, hwork, hverdict]
  exact hcause

theorem turn_leads_of_proceed (hverdict : t.verdict = .ok .proceed)
    (hclosed : desk.isReopened = false) (hnext : P (position + 1) (s.after position slot t desk)) :
    (turn position slot s).Leads P Q := by
  have hopen : ¬desk.isReopened = true := by simp [hclosed]
  simp only [turn, hwork, hverdict, if_neg hopen]
  exact hnext

theorem turn_leads_of_restart (hverdict : t.verdict = .ok .restart)
    (hclosed : desk.isReopened = false)
    (hfirst : P 0 ((s.after position slot t desk).restarted position)) :
    (turn position slot s).Leads P Q := by
  have hopen : ¬desk.isReopened = true := by simp [hclosed]
  simp only [turn, hwork, hverdict, if_neg hopen]
  exact hfirst

theorem turn_leads_of_reopened {verdict : Verdict} (hverdict : t.verdict = .ok verdict)
    (hreopened : desk.isReopened = true)
    (hanchor : P desk.anchor (s.after position slot t { desk with isReopened := false })) :
    (turn position slot s).Leads P Q := by
  simp only [turn, hwork, hverdict, if_pos hreopened]
  exact hanchor

end

/-! ### Runs -/

/-- A run ended past the last stage in a state in `P`, or with a cause in `Q`, or did not settle. -/
def Ends (P : Nat → Progress κ φ σ → Prop) (Q : Error → Prop) :
    Except Error Unit × Progress κ φ σ → Prop
  | (.ok (), s) => ∃ last, s.slots.length ≤ last ∧ P last s
  | (.error cause, _) => Q cause ∨ ∃ last, cause = .unsettled last

theorem settle_of_past {position : Nat} {s : Progress κ φ σ}
    (h : s.slots[position]? = none) (runs : Nat) :
    settle runs position s = (.ok (), s) := by
  unfold settle
  simp only [h]

theorem settle_of_failed {position : Nat} {s s' : Progress κ φ σ}
    {slot : Slot κ φ σ} {cause : Error} (h : s.slots[position]? = some slot)
    (hturn : turn position slot s = .failed cause s') (runs : Nat) :
    settle (runs + 1) position s = (.error cause, s') := by
  rw [settle]
  simp only [h, hturn]

theorem settle_of_goOn {position next : Nat} {s s' : Progress κ φ σ} {slot : Slot κ φ σ}
    (h : s.slots[position]? = some slot)
      (hturn : turn position slot s = .goOn next s') (runs : Nat) :
    settle (runs + 1) position s = settle runs next s' := by
  rw [settle]
  simp only [h, hturn]

theorem settle_of_isKept (hkept : IsKept P Q) (runs position : Nat) (s : Progress κ φ σ)
    (hs : P position s) :
    Ends P Q (settle runs position s) := by
  induction runs generalizing position s with
  | zero =>
    cases hslot : s.slots[position]? with
    | none =>
      rw [settle_of_past hslot]
      exact ⟨position, List.getElem?_eq_none_iff.1 hslot, hs⟩
    | some slot =>
      rw [settle]
      simp only [hslot]
      exact .inr ⟨position, rfl⟩
  | succ runs ih =>
    cases hslot : s.slots[position]? with
    | none =>
      rw [settle_of_past hslot]
      exact ⟨position, List.getElem?_eq_none_iff.1 hslot, hs⟩
    | some slot =>
      have hturn := hkept position slot s hslot hs
      cases hout : turn position slot s with
      | failed cause s' =>
        rw [hout] at hturn
        rw [settle_of_failed hslot hout]
        exact .inl hturn
      | goOn next s' =>
        rw [hout] at hturn
        rw [settle_of_goOn hslot hout]
        exact ih next s' hturn

/-! ### Frames -/

/-- The state in which a pipeline takes up a frame. -/
def fresh (p : Pipeline κ φ σ) (frame : φ) : Progress κ φ σ :=
  { slots := p.slots.map Slot.forget
    desk := { p.desk with anchor := 0, isReopened := false }
    frame }

/-- What is left behind by stages that have settled. -/
def Progress.put (s : Progress κ φ σ) : Encoded κ φ σ :=
  { pipeline := { slots := s.slots, desk := s.desk }
    frame := s.frame
    emission := .each s.slots (·.emit s.frame) }

theorem encode_of_settled {p : Pipeline κ φ σ} {frame : φ} {s : Progress κ φ σ}
    (h : settle runLimit 0 (p.fresh frame) = (.ok (), s)) : p.encode frame = s.put := by
  unfold fresh at h
  simp only [encode, h]
  rfl

theorem emission_of_failed {p : Pipeline κ φ σ} {frame : φ} {s : Progress κ φ σ} {cause : Error}
    (h : settle runLimit 0 (p.fresh frame) = (.error cause, s)) :
    (p.encode frame).emission = .fail cause := by
  unfold fresh at h
  simp only [encode, h]

theorem emission_of_turn_failed {p : Pipeline κ φ σ} {frame : φ} {slot : Slot κ φ σ}
    {s : Progress κ φ σ} {cause : Error} (hslot : (p.fresh frame).slots[0]? = some slot)
    (hturn : turn 0 slot (p.fresh frame) = .failed cause s) :
    (p.encode frame).emission = .fail cause := by
  obtain ⟨runs, hlimit⟩ : ∃ runs, runLimit = runs + 1 := ⟨_, rfl⟩
  have hrun := settle_of_failed hslot hturn runs
  rw [← hlimit] at hrun
  exact emission_of_failed hrun

/-- A frame ends in a fault that `Q` allows or that says that the stages did not settle; or it is
put out in a state in `P`. -/
theorem encode_of_isKept (hkept : IsKept P Q) (p : Pipeline κ φ σ) (frame : φ)
    (hfresh : P 0 (p.fresh frame)) :
    (∃ cause, (p.encode frame).emission = .fail cause ∧
        (Q cause ∨ ∃ last, cause = .unsettled last)) ∨
      ∃ last s, s.slots.length ≤ last ∧ P last s ∧ p.encode frame = s.put := by
  have hends := settle_of_isKept hkept runLimit 0 _ hfresh
  cases hrun : settle runLimit 0 (p.fresh frame) with
  | mk result s =>
    rw [hrun] at hends
    cases result with
    | error cause => exact .inl ⟨cause, emission_of_failed hrun, hends⟩
    | ok =>
      obtain ⟨last, hlast, hP⟩ := hends
      exact .inr ⟨last, s, hlast, hP, encode_of_settled hrun⟩

theorem encode_of_isOk (hkept : IsKept P Q) (p : Pipeline κ φ σ) (frame : φ)
    (hfresh : P 0 (p.fresh frame)) (h : (settle runLimit 0 (p.fresh frame)).1.isOk = true) :
    ∃ last s, s.slots.length ≤ last ∧ P last s ∧ p.encode frame = s.put := by
  have hends := settle_of_isKept hkept runLimit 0 _ hfresh
  cases hrun : settle runLimit 0 (p.fresh frame) with
  | mk result s =>
    rw [hrun] at h hends
    cases result with
    | error cause => cases h
    | ok =>
      obtain ⟨last, hlast, hP⟩ := hends
      exact ⟨last, s, hlast, hP, encode_of_settled hrun⟩

end Pipeline

end SpectralCoding
