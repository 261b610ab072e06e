import SpectralCoding.Proofs.Pipeline.Run

/-!
# The order in which stages are visited

A frame is settled by visits to its stages, and two kinds of return interleave: to the stage that
last asked for a shift, and to the first stage. A stage that last asked for a shift is never ahead
of the one whose turn it is, so positions climb one at a time however far they fall. Here the run is
kept on record and the order read off the record.

* `Negotiation.runHearing`, `Pipeline.visit`, `Pipeline.settleVisiting`, `Pipeline.encodeVisiting` :
  the steps of a run, with a record of what happened. Each is the step it records (`runHearing_fst`,
  `visit_fst`, `settleVisiting_fst`, `encodeVisiting_fst`).
* `Pipeline.conclude_goOn` : where a turn leads.
* `Pipeline.exists_visit`, `Pipeline.isFollowed` : a settled run passes every stage, and the last
  visit to a stage comes before the last visit to the next one.
* `Pipeline.encode_in_order` : **stages settle in order, and only then put out their parts, each
  once.**
* `Pipeline.costs_of_last` : in its last turn a stage sees what the stages ahead cost in the end.
-/

namespace SpectralCoding

namespace Negotiation

variable {κ α : Type} [Dial κ]

/-- A talk as `run` holds it, with the answers given to questions for what the stages ahead
cost. -/
def runHearing (position cost : Nat) : Negotiation κ α → Desk κ → (α × Desk κ) × List Nat
  | done a, d => ((a, d), [])
  | start t lo hi next, d => runHearing position cost next { d with search := .start t lo hi }
  | probe next, d =>
    let (shift, search) := d.search.probe
    let anchor := if d.search.isCollapsed then d.anchor else position
    runHearing position cost (next shift) { d with search, anchor }
  | submit c next, d =>
    let (stands, search) := d.search.submit c
    runHearing position cost (next stands) { d with search, isReopened := !stands }
  | isUnder c next, d => runHearing position cost (next (d.search.isUnder c)) d
  | target next, d => runHearing position cost (next d.search.target) d
  | spent next, d =>
    let (left, heard) := runHearing position cost (next cost) d
    (left, cost :: heard)

theorem runHearing_fst (position cost : Nat) (n : Negotiation κ α) (d : Desk κ) :
    (n.runHearing position cost d).1 = n.run position cost d := by
  induction n generalizing d with
  | done => rfl
  | start t lo hi next ih => exact ih _
  | probe next ih => exact ih _ _
  | submit c next ih => exact ih _ _
  | isUnder c next ih => exact ih _ _
  | target next ih => exact ih _ _
  | spent next ih => exact ih _ _

theorem eq_of_mem_heard {position cost : Nat} {n : Negotiation κ α} {d : Desk κ} {answer : Nat}
    (h : answer ∈ (n.runHearing position cost d).2) : answer = cost := by
  induction n generalizing d with
  | done => cases h
  | start t lo hi next ih => exact ih h
  | probe next ih => exact ih _ h
  | submit c next ih => exact ih _ h
  | isUnder c next ih => exact ih _ h
  | target next ih => exact ih _ h
  | spent next ih =>
    rcases List.mem_cons.1 h with rfl | h
    · rfl
    · exact ih _ h

theorem anchor_run_le {position cost : Nat} (n : Negotiation κ α) {d : Desk κ}
    (h : d.anchor ≤ position) : (n.run position cost d).2.anchor ≤ position := by
  induction n generalizing d with
  | done => exact h
  | start t lo hi next ih => exact ih h
  | probe next ih =>
    refine ih _ ?_
    dsimp only
    split
    · exact h
    · exact Nat.le_refl position
  | submit c next ih => exact ih _ h
  | isUnder c next ih => exact ih _ h
  | target next ih => exact ih _ h
  | spent next ih => exact ih _ h

end Negotiation

namespace Pipeline

variable {κ φ σ : Type}

/-! ### The record of a run -/

/-- A turn of a stage, on record. -/
structure Visit where
  /-- The position of the stage. -/
  position : Nat
  /-- What each stage costs as the turn begins. -/
  costs : List Nat
  /-- The answers to the stage's questions for what the stages ahead cost. -/
  heard : List Nat
  /-- The search or the stage calls for a return. -/
  isReturn : Bool
  /-- The position to go on with, unless the stage failed. -/
  next : Option Nat
  deriving DecidableEq, Repr

/-- Something that happens to a stage. -/
inductive Event where
  /-- It takes a turn. -/
  | worked (visit : Visit)
  /-- It puts out its part. -/
  | emitted (position : Nat)
  deriving DecidableEq, Repr

/-- The position to go on with after a turn. -/
def Outcome.next : Outcome κ φ σ → Option Nat
  | .goOn position _ => some position
  | .failed _ _ => none

/-- What a turn left behind calls for a return. -/
def leadsBack (left : Turn φ σ × Desk κ) : Bool :=
  left.2.isReopened || match left.1.verdict with
    | .ok .restart => true
    | _ => false

/-- A return leads to the stage whose turn it is or to one ahead of it, all else to the next stage.
The stage to return to is never behind the one whose turn it is. -/
theorem conclude_goOn {position next : Nat} {slot : Slot κ φ σ} {s s' : Progress κ φ σ}
    {left : Turn φ σ × Desk κ} (hanchor : left.2.anchor ≤ position)
    (h : conclude position slot s left = .goOn next s') :
    s'.slots.length = s.slots.length ∧ s'.desk.anchor ≤ next ∧
      (∀ count ≤ position, count ≤ next → s'.slots.take count = s.slots.take count) ∧
      (leadsBack left = true ∧ next ≤ position ∨
        leadsBack left = false ∧ next = position + 1) := by
  obtain ⟨⟨frame, memory, verdict⟩, desk⟩ := left
  cases verdict with
  | error cause => cases h
  | ok verdict =>
    cases hreopened : desk.isReopened with
    | true =>
      simp only [conclude, hreopened, if_true, Outcome.goOn.injEq] at h
      obtain ⟨rfl, rfl⟩ := h
      refine ⟨?_, Nat.le_refl _, fun count hcount _ => ?_, .inl ⟨?_, hanchor⟩⟩
      · simp [Progress.after]
      · exact List.take_set_of_le hcount
      · simp [leadsBack, hreopened]
    | false =>
      cases verdict with
      | restart =>
        simp only [conclude, hreopened, Bool.false_eq_true, if_false, Outcome.goOn.injEq] at h
        obtain ⟨rfl, rfl⟩ := h
        refine ⟨?_, Nat.le_refl _, fun count _ hcount => ?_, .inl ⟨?_, Nat.zero_le _⟩⟩
        · simp only [Progress.restarted, Progress.after, List.length_append, List.length_map,
            List.length_take, List.length_drop, List.length_set]
          omega
        · rw [Nat.le_zero.1 hcount, List.take_zero, List.take_zero]
        · simp [leadsBack]
      | proceed =>
        simp only [conclude, hreopened, Bool.false_eq_true, if_false, Outcome.goOn.injEq] at h
        obtain ⟨rfl, rfl⟩ := h
        refine ⟨?_, Nat.le_succ_of_le hanchor, fun count hcount _ => ?_, .inr ⟨?_, rfl⟩⟩
        · simp [Progress.after]
        · exact List.take_set_of_le hcount
        · simp [leadsBack, hreopened]

/-- The parts put out one after the other, with the positions of the stages that were asked. -/
def emitVisiting (frame : φ) : (position : Nat) → List (Slot κ φ σ) → Emission × List Nat
  | _, [] => (.empty, [])
  | position, slot :: slots =>
    let part := slot.emit frame
    match part.fault with
    | some _ => (part, [position])
    | none =>
      let (rest, positions) := emitVisiting frame (position + 1) slots
      (part ++ rest, position :: positions)

theorem emitVisiting_fst (frame : φ) (position : Nat) (slots : List (Slot κ φ σ)) :
    (emitVisiting frame position slots).1 = .each slots (·.emit frame) := by
  induction slots generalizing position with
  | nil => rfl
  | cons slot slots ih =>
    have hcons : Emission.each (slot :: slots) (·.emit frame) =
      slot.emit frame ++ Emission.each slots (·.emit frame) := rfl
    rw [emitVisiting, hcons]
    cases hpart : (slot.emit frame).fault with
    | none => rw [← ih (position + 1)]
    | some cause => simp [Emission.append_def, Emission.append, hpart]

theorem emitVisiting_snd {frame : φ} {position : Nat} {slots : List (Slot κ φ σ)}
    (h : (emitVisiting frame position slots).1.fault = none) :
    (emitVisiting frame position slots).2 = List.range' position slots.length := by
  induction slots generalizing position with
  | nil => rfl
  | cons slot slots ih =>
    rw [emitVisiting] at h ⊢
    cases hpart : (slot.emit frame).fault with
    | some cause =>
      simp only [hpart] at h
      cases h
    | none =>
      simp only [hpart] at h ⊢
      rw [ih (Emission.fault_append_eq_none.1 h).2, List.length_cons, List.range'_succ]

variable [Dial κ]

/-- A turn with its record. -/
def visit (position : Nat) (slot : Slot κ φ σ) (s : Progress κ φ σ) : Outcome κ φ σ × Visit :=
  let spent := Slot.totalCost (s.slots.take position)
  let (left, heard) := (slot.stage.work s.frame slot.memory).runHearing position spent s.desk
  let outcome := conclude position slot s left
  let record :=
    { position, costs := s.slots.map Slot.cost, heard, isReturn := leadsBack left
      next := outcome.next }
  (outcome, record)

theorem visit_fst (position : Nat) (slot : Slot κ φ σ) (s : Progress κ φ σ) :
    (visit position slot s).1 = turn position slot s := by
  rw [turn_eq_conclude, ← Negotiation.runHearing_fst]
  rfl

/-- The stages worked through as by `settle`, with the turns they take. -/
def settleVisiting : (runs : Nat) → (position : Nat) → Progress κ φ σ →
    (Except Error Unit × Progress κ φ σ) × List Visit
  | runs, position, s =>
    match s.slots[position]? with
    | none => ((.ok (), s), [])
    | some slot =>
      match runs with
      | 0 => ((.error (.unsettled position), s), [])
      | runs + 1 =>
        match visit position slot s with
        | (.failed cause s, record) => ((.error cause, s), [record])
        | (.goOn position s, record) =>
          let (ended, records) := settleVisiting runs position s
          (ended, record :: records)

/-- A frame encoded as by `encode`, with all that happens to the stages. -/
def encodeVisiting (p : Pipeline κ φ σ) (frame : φ) : Encoded κ φ σ × List Event :=
  let ((result, s), visits) := settleVisiting runLimit 0 (p.fresh frame)
  let pipeline := { slots := s.slots, desk := s.desk }
  match result with
  | .error cause => ({ pipeline, frame := s.frame, emission := .fail cause }, visits.map .worked)
  | .ok () =>
    let (emission, positions) := emitVisiting s.frame 0 s.slots
    ({ pipeline, frame := s.frame, emission }, visits.map .worked ++ positions.map .emitted)

/-! ### The record of a run is that of the run itself -/

theorem settleVisiting_of_past {position : Nat} {s : Progress κ φ σ}
    (h : s.slots[position]? = none) (runs : Nat) :
    settleVisiting runs position s = ((.ok (), s), []) := by
  unfold settleVisiting
  simp only [h]

theorem settleVisiting_zero {position : Nat} {s : Progress κ φ σ} {slot : Slot κ φ σ}
    (h : s.slots[position]? = some slot) :
    settleVisiting 0 position s = ((.error (.unsettled position), s), []) := by
  unfold settleVisiting
  simp only [h]

theorem settleVisiting_of_failed {position : Nat} {s s' : Progress κ φ σ} {slot : Slot κ φ σ}
    {cause : Error} {record : Visit} (h : s.slots[position]? = some slot)
    (hvisit : visit position slot s = (.failed cause s', record)) (runs : Nat) :
    settleVisiting (runs + 1) position s = ((.error cause, s'), [record]) := by
  rw [settleVisiting]
  simp only [h, hvisit]

theorem settleVisiting_of_goOn {position next : Nat} {s s' : Progress κ φ σ} {slot : Slot κ φ σ}
    {record : Visit} (h : s.slots[position]? = some slot)
    (hvisit : visit position slot s = (.goOn next s', record)) (runs : Nat) :
    settleVisiting (runs + 1) position s =
      ((settleVisiting runs next s').1, record :: (settleVisiting runs next s').2) := by
  rw [settleVisiting]
  simp only [h, hvisit]

theorem settleVisiting_fst (runs position : Nat) (s : Progress κ φ σ) :
    (settleVisiting runs position s).1 = settle runs position s := by
  induction runs generalizing position s with
  | zero =>
    cases hslot : s.slots[position]? with
    | none => rw [settleVisiting_of_past hslot, settle_of_past hslot]
    | some slot =>
      rw [settleVisiting_zero hslot, settle]
      simp only [hslot]
  | succ runs ih =>
    cases hslot : s.slots[position]? with
    | none => rw [settleVisiting_of_past hslot, settle_of_past hslot]
    | some slot =>
      have hturn := visit_fst position slot s
      rcases hvisit : visit position slot s with ⟨next, s'⟩ | ⟨cause, s'⟩
      all_goals rw [hvisit] at hturn
      · rw [settleVisiting_of_goOn hslot hvisit, settle_of_goOn hslot hturn.symm]
        exact ih next s'
      · rw [settleVisiting_of_failed hslot hvisit, settle_of_failed hslot hturn.symm]

theorem encodeVisiting_fst (p : Pipeline κ φ σ) (frame : φ) :
    (p.encodeVisiting frame).1 = p.encode frame := by
  have hsettle := (settleVisiting_fst runLimit 0 (p.fresh frame)).symm
  rcases hrun : settleVisiting runLimit 0 (p.fresh frame) with ⟨⟨result, s⟩, visits⟩
  rw [hrun] at hsettle
  unfold fresh at hsettle
  cases result with
  | error cause => simp only [encodeVisiting, hrun, encode, hsettle]
  | ok => simp only [encodeVisiting, hrun, encode, hsettle, ← emitVisiting_fst s.frame 0]

variable {position next : Nat} {slot : Slot κ φ σ} {s s' last : Progress κ φ σ}
  {record : Visit} {visits : List Visit}

/-! ### Records -/

theorem visit_eq {outcome : Outcome κ φ σ} (h : visit position slot s = (outcome, record)) :
    ∃ left, (slot.stage.work s.frame slot.memory).run position
        (Slot.totalCost (s.slots.take position)) s.desk = left ∧
      conclude position slot s left = outcome ∧ record.position = position ∧
      record.costs = s.slots.map Slot.cost ∧ record.isReturn = leadsBack left ∧
      record.next = outcome.next := by
  simp only [visit, Prod.mk.injEq] at h
  obtain ⟨rfl, rfl⟩ := h
  refine ⟨_, rfl, ?_, rfl, rfl, ?_, rfl⟩ <;> rw [Negotiation.runHearing_fst]

/-- A turn that does not fail goes on with the next stage, or returns to one not behind it. The
stages ahead of both keep what they remember. -/
theorem visit_goOn (hanchor : s.desk.anchor ≤ position)
    (h : visit position slot s = (.goOn next s', record)) :
    s'.slots.length = s.slots.length ∧ s'.desk.anchor ≤ next ∧
      (∀ count ≤ position, count ≤ next → s'.slots.take count = s.slots.take count) ∧
      (record.isReturn = true ∧ next ≤ position ∨
        record.isReturn = false ∧ next = position + 1) := by
  obtain ⟨left, hrun, hconclude, -, -, hreturn, -⟩ := visit_eq h
  have hleft : left.2.anchor ≤ position := hrun ▸ Negotiation.anchor_run_le _ hanchor
  rw [hreturn]
  exact conclude_goOn hleft hconclude

/-- Every record is right about what the stage heard and where its turn led. -/
structure Visit.IsRight (v : Visit) : Prop where
  heard : ∀ answer ∈ v.heard, answer = (v.costs.take v.position).sum
  back : v.isReturn = true → ∀ next, v.next = some next → next ≤ v.position
  on : v.isReturn = false → ∀ next, v.next = some next → next = v.position + 1

theorem heard_visit {outcome : Outcome κ φ σ} (h : visit position slot s = (outcome, record)) :
    ∀ answer ∈ record.heard, answer = (record.costs.take record.position).sum := by
  simp only [visit, Prod.mk.injEq] at h
  obtain ⟨-, rfl⟩ := h
  intro answer hanswer
  rw [Negotiation.eq_of_mem_heard hanswer, Slot.totalCost, ← List.map_take]

theorem isRight_visit {outcome : Outcome κ φ σ} (hanchor : s.desk.anchor ≤ position)
    (h : visit position slot s = (outcome, record)) : record.IsRight := by
  obtain ⟨left, -, -, hposition, -, -, hnext⟩ := visit_eq h
  cases outcome with
  | failed cause s' =>
    rw [Outcome.next] at hnext
    refine ⟨heard_visit h, fun _ next hsome => ?_, fun _ next hsome => ?_⟩
    all_goals cases hnext.symm.trans hsome
  | goOn target s' =>
    rw [Outcome.next] at hnext
    obtain ⟨-, -, -, hleads⟩ := visit_goOn hanchor h
    rw [← hposition] at hleads
    refine ⟨heard_visit h, fun hback next hsome => ?_, fun hon next hsome => ?_⟩
    all_goals obtain rfl := Option.some.inj (hnext.symm.trans hsome)
    · rcases hleads with ⟨-, hle⟩ | ⟨hon, -⟩
      · exact hle
      · exact nomatch hback.symm.trans hon
    · rcases hleads with ⟨hback, -⟩ | ⟨-, heq⟩
      · exact nomatch hback.symm.trans hon
      · exact heq

theorem isRight_of_mem {runs : Nat} {ended : Except Error Unit × Progress κ φ σ}
    (hanchor : s.desk.anchor ≤ position)
    (h : settleVisiting runs position s = (ended, visits)) : ∀ v ∈ visits, v.IsRight := by
  induction runs generalizing position s ended visits with
  | zero =>
    cases hslot : s.slots[position]? with
    | none =>
      rw [settleVisiting_of_past hslot] at h
      cases h
      exact nofun
    | some slot =>
      rw [settleVisiting_zero hslot] at h
      cases h
      exact nofun
  | succ runs ih =>
    cases hslot : s.slots[position]? with
    | none =>
      rw [settleVisiting_of_past hslot] at h
      cases h
      exact nofun
    | some slot =>
      rcases hvisit : visit position slot s with ⟨next, s'⟩ | ⟨cause, s'⟩
      all_goals have hfirst := isRight_visit hanchor hvisit
      · rw [settleVisiting_of_goOn hslot hvisit] at h
        cases h
        exact List.forall_mem_cons.2 ⟨hfirst, ih (visit_goOn hanchor hvisit).2.1 rfl⟩
      · rw [settleVisiting_of_failed hslot hvisit] at h
        cases h
        exact List.forall_mem_cons.2 ⟨hfirst, nofun⟩

/-! ### Settled runs -/

/-- A run from `position` that settles in `last` takes the turns on record. -/
inductive Settles (last : Progress κ φ σ) : Nat → Progress κ φ σ → List Visit → Prop
  | past {position : Nat} (h : last.slots.length ≤ position) : Settles last position last []
  | turn {position next : Nat} {slot : Slot κ φ σ} {s s' : Progress κ φ σ} {record : Visit}
      {visits : List Visit} (hslot : s.slots[position]? = some slot)
      (hanchor : s.desk.anchor ≤ position)
      (hvisit : visit position slot s = (.goOn next s', record))
      (rest : Settles last next s' visits) : Settles last position s (record :: visits)

theorem settles_of_settleVisiting {runs : Nat} (hanchor : s.desk.anchor ≤ position)
    (h : settleVisiting runs position s = ((.ok (), last), visits)) :
    Settles last position s visits := by
  induction runs generalizing position s visits with
  | zero =>
    cases hslot : s.slots[position]? with
    | none =>
      rw [settleVisiting_of_past hslot] at h
      cases h
      exact .past (List.getElem?_eq_none_iff.1 hslot)
    | some slot =>
      rw [settleVisiting_zero hslot] at h
      cases h
  | succ runs ih =>
    cases hslot : s.slots[position]? with
    | none =>
      rw [settleVisiting_of_past hslot] at h
      cases h
      exact .past (List.getElem?_eq_none_iff.1 hslot)
    | some slot =>
      rcases hvisit : visit position slot s with ⟨next, s'⟩ | ⟨cause, s'⟩
      · rw [settleVisiting_of_goOn hslot hvisit, Prod.mk.injEq] at h
        obtain ⟨hended, rfl⟩ := h
        exact .turn hslot hanchor hvisit (ih (visit_goOn hanchor hvisit).2.1 (Prod.ext hended rfl))
      · rw [settleVisiting_of_failed hslot hvisit] at h
        cases h

namespace Settles

theorem length_eq (h : Settles last position s visits) : s.slots.length = last.slots.length := by
  induction h with
  | past => rfl
  | turn _ hanchor hvisit _ ih => rw [← ih, (visit_goOn hanchor hvisit).1]

/-- A run passes every stage from the one it starts with: it ends past the last one, and climbs one
stage at a time. -/
theorem exists_visit (h : Settles last position s visits) {i : Nat} (hle : position ≤ i)
    (hi : i < last.slots.length) : ∃ v ∈ visits, v.position = i := by
  induction h with
  | past h => omega
  | turn _ hanchor hvisit _ ih =>
    obtain ⟨-, -, -, hposition, -⟩ := visit_eq hvisit
    obtain ⟨-, -, -, hleads⟩ := visit_goOn hanchor hvisit
    rcases Nat.eq_or_lt_of_le hle with rfl | hlt
    · exact ⟨_, List.mem_cons_self, hposition⟩
    · obtain ⟨v, hv, hvi⟩ := ih (by omega)
      exact ⟨v, List.mem_cons_of_mem _ hv, hvi⟩

end Settles

/-- The last visit to stage `i` comes before the last visit to the next stage. -/
def IsFollowed (i : Nat) (visits : List Visit) : Prop :=
  ∃ before v after, visits = before ++ v :: after ∧ v.position = i ∧ (∀ w ∈ after, w.position ≠ i) ∧
    ∃ w ∈ after, w.position = i + 1

namespace Settles

/-- After its last turn a stage is left behind for the next one: to return is to pass it again. -/
theorem isFollowed (h : Settles last position s visits) {i : Nat} (hi : i + 1 < last.slots.length)
    (hvisited : ∃ v ∈ visits, v.position = i) : IsFollowed i visits := by
  induction h with
  | past => exact nomatch hvisited
  | @turn position next slot s s' record visits _ hanchor hvisit rest ih =>
    by_cases hagain : ∃ v ∈ visits, v.position = i
    · obtain ⟨before, v, after, rfl, hv⟩ := ih hagain
      exact ⟨record :: before, v, after, rfl, hv⟩
    · have hnever : ∀ v ∈ visits, v.position ≠ i := fun v hv hvi => hagain ⟨v, hv, hvi⟩
      obtain ⟨v, hv, hvi⟩ := hvisited
      rcases List.mem_cons.1 hv with rfl | hv
      · obtain ⟨-, -, -, hposition, -⟩ := visit_eq hvisit
        obtain ⟨-, -, -, hleads⟩ := visit_goOn hanchor hvisit
        exact ⟨[], v, visits, rfl, hvi, hnever, rest.exists_visit (by omega) hi⟩
      · exact absurd hvi (hnever v hv)

theorem take_eq (h : Settles last position s visits) {i : Nat} (hi : i < last.slots.length)
    (hlt : i < position) (hnever : ∀ v ∈ visits, v.position ≠ i) :
    last.slots.take (i + 1) = s.slots.take (i + 1) := by
  induction h with
  | past => rfl
  | @turn position next slot s s' record visits _ hanchor hvisit rest ih =>
    obtain ⟨-, hnever⟩ := List.forall_mem_cons.1 hnever
    obtain ⟨-, -, hkept, -⟩ := visit_goOn hanchor hvisit
    have hnext : i < next := Nat.lt_of_not_le fun hle =>
      let ⟨v, hv, hvi⟩ := rest.exists_visit hle hi
      hnever v hv hvi
    rw [ih hnext hnever, hkept (i + 1) hlt hnext]

/-- **In its last turn a stage sees what the stages ahead cost in the end.** -/
theorem costs_of_last (h : Settles last position s visits) {before after : List Visit} {v : Visit}
    (hvisits : visits = before ++ v :: after) (hv : v.position < last.slots.length)
    (hafter : ∀ w ∈ after, w.position ≠ v.position) :
    v.costs.take v.position = (last.slots.map Slot.cost).take v.position := by
  induction h generalizing before with
  | past => simp at hvisits
  | @turn position next slot s s' record visits _ hanchor hvisit rest ih =>
    cases before with
    | cons b before => exact ih (List.cons.inj hvisits).2
    | nil =>
      obtain ⟨rfl, rfl⟩ := List.cons.inj hvisits
      obtain ⟨left, -, -, hposition, hcosts, -⟩ := visit_eq hvisit
      obtain ⟨-, -, hkept, -⟩ := visit_goOn hanchor hvisit
      have hnext : record.position < next := Nat.lt_of_not_le fun hle =>
        let ⟨w, hw, hwrecord⟩ := rest.exists_visit hle hv
        hafter w hw hwrecord
      have hahead := congrArg (List.take record.position) (rest.take_eq hv hnext hafter)
      rw [List.take_take, List.take_take, Nat.min_eq_left (Nat.le_succ _)] at hahead
      rw [hcosts, ← List.map_take, ← List.map_take, hahead,
        hkept record.position (Nat.le_of_eq hposition) (Nat.le_of_lt hnext)]

end Settles

/-! ### Frames -/

/-- The stages of a frame worked through, before anything is put out. -/
def workThrough (p : Pipeline κ φ σ) (frame : φ) : Except Error Unit × Progress κ φ σ :=
  settle runLimit 0 (p.fresh frame)

/-- The record of a frame that did not settle ends with its turns. -/
theorem encodeVisiting_of_failed {p : Pipeline κ φ σ} {frame : φ} {cause : Error}
    (h : settleVisiting runLimit 0 (p.fresh frame) = ((.error cause, last), visits)) :
    (p.encode frame).emission = .fail cause ∧ (p.encodeVisiting frame).2 = visits.map .worked := by
  have hsettle := settleVisiting_fst runLimit 0 (p.fresh frame)
  rw [h] at hsettle
  refine ⟨emission_of_failed hsettle.symm, ?_⟩
  simp only [encodeVisiting, h]

/-- The record of a frame that settled goes on with what its stages put out. -/
theorem encodeVisiting_of_settled {p : Pipeline κ φ σ} {frame : φ}
    (h : settleVisiting runLimit 0 (p.fresh frame) = ((.ok (), last), visits)) :
    (p.encode frame).emission = (emitVisiting last.frame 0 last.slots).1 ∧
      (p.encodeVisiting frame).2 =
        visits.map .worked ++ (emitVisiting last.frame 0 last.slots).2.map .emitted := by
  have hsettle := settleVisiting_fst runLimit 0 (p.fresh frame)
  rw [h] at hsettle
  refine ⟨?_, ?_⟩
  · rw [encode_of_settled hsettle.symm, emitVisiting_fst]
    rfl
  · simp only [encodeVisiting, h]

/-- **Stages settle in order, and only then put out their parts, each once.** -/
theorem encode_in_order (p : Pipeline κ φ σ) (frame : φ) :
    (p.encodeVisiting frame).1 = p.encode frame ∧
      ((p.encode frame).emission.fault = none → ∃ visits,
        (p.encodeVisiting frame).2 =
            visits.map .worked ++ (List.range p.slots.length).map .emitted ∧
          (∀ i < p.slots.length, ∃ v ∈ visits, v.position = i) ∧
          ∀ i, i + 1 < p.slots.length → IsFollowed i visits) ∧
      (∀ v, .worked v ∈ (p.encodeVisiting frame).2 →
        (∀ answer ∈ v.heard, answer = (v.costs.take v.position).sum) ∧
          (v.isReturn = true → ∀ next, v.next = some next → next ≤ v.position) ∧
          (v.isReturn = false → ∀ next, v.next = some next → next = v.position + 1)) ∧
      ∀ cause, (p.workThrough frame).1 = .error cause →
        (p.encode frame).emission = .fail cause ∧
          ∀ i, .emitted i ∉ (p.encodeVisiting frame).2 := by
  refine ⟨p.encodeVisiting_fst frame, ?_⟩
  have hsettle := settleVisiting_fst runLimit 0 (p.fresh frame)
  rcases hrun : settleVisiting runLimit 0 (p.fresh frame) with ⟨⟨result, last⟩, visits⟩
  rw [hrun] at hsettle
  have hright := isRight_of_mem (Nat.zero_le 0) hrun
  cases result with
  | error cause =>
    obtain ⟨hfail, hlog⟩ := encodeVisiting_of_failed hrun
    rw [hfail, hlog]
    refine ⟨nofun, fun v hv => ?_, fun cause' hcause => ?_⟩
    · have hv : v ∈ visits := by simpa using hv
      exact ⟨(hright v hv).heard, (hright v hv).back, (hright v hv).on⟩
    · rw [workThrough, ← hsettle] at hcause
      obtain rfl := Except.error.inj hcause
      exact ⟨rfl, by simp⟩
  | ok =>
    obtain ⟨hemission, hlog⟩ := encodeVisiting_of_settled hrun
    have hsettles := settles_of_settleVisiting (Nat.zero_le 0) hrun
    have hlength : last.slots.length = p.slots.length := by
      rw [← hsettles.length_eq, fresh, List.length_map]
    rw [hemission, hlog]
    refine ⟨fun hclean => ⟨visits, ?_, ?_, ?_⟩, fun v hv => ?_, fun cause hcause => ?_⟩
    · rw [emitVisiting_snd hclean, hlength, List.range_eq_range']
    · intro i hi
      exact hsettles.exists_visit (Nat.zero_le i) (hlength ▸ hi)
    · intro i hi
      rw [← hlength] at hi
      exact hsettles.isFollowed hi (hsettles.exists_visit (Nat.zero_le i) (Nat.lt_of_succ_lt hi))
    · have hv : v ∈ visits := by simpa using hv
      exact ⟨(hright v hv).heard, (hright v hv).back, (hright v hv).on⟩
    · rw [workThrough, ← hsettle] at hcause
      cases hcause

/-- **In its last turn a stage sees what the stages ahead cost in the end.** -/
theorem costs_of_last (p : Pipeline κ φ σ) {frame : φ}
    (h : settleVisiting runLimit 0 (p.fresh frame) = ((.ok (), last), visits))
    {before after : List Visit} {v : Visit} (hvisits : visits = before ++ v :: after)
    (hv : v.position < p.slots.length) (hafter : ∀ w ∈ after, w.position ≠ v.position) :
    v.costs.take v.position =
      ((p.encode frame).pipeline.slots.map Slot.cost).take v.position := by
  have hsettle := settleVisiting_fst runLimit 0 (p.fresh frame)
  have hsettles := settles_of_settleVisiting (Nat.zero_le 0) h
  rw [h] at hsettle
  have hlength : last.slots.length = p.slots.length := by
    rw [← hsettles.length_eq, fresh, List.length_map]
  rw [encode_of_settled hsettle.symm]
  exact hsettles.costs_of_last hvisits (hlength ▸ hv) hafter

/-- Three stages over a count of restarts: one that opens a search, one that costs nine below the
shift one and three from there on, and one that calls for a restart the first time. -/
def hesitantPipeline : Pipeline Float32 Nat Nat :=
  .ofStages
    [({ work := fun frame memory =>
          .start 6 0 4 (.done { frame, memory, verdict := .ok .proceed })
        emit := fun _ _ => .empty, forget := id, cost := id }, 2),
     ({ work := fun frame _ => .probe fun shift =>
          let memory := if shift < 1 then 9 else 3
          .submit memory fun _ => .done { frame, memory, verdict := .ok .proceed }
        emit := fun _ memory => .zeros memory, forget := fun _ => 0, cost := id }, 0),
     ({ work := fun frame memory => .spent fun _ =>
          .done
            { frame := frame + 1, memory
              verdict := .ok (if frame = 0 then .restart else .proceed) }
        emit := fun _ _ => .flag true, forget := fun _ => 0, cost := fun _ => 1 }, 0)]

theorem encode_hesitantPipeline :
    (hesitantPipeline.encode 0).emission.fault = none ∧
      ∃ visits, (hesitantPipeline.encodeVisiting 0).2 =
          visits.map .worked ++ [0, 1, 2].map .emitted ∧
        (∃ v ∈ visits, v.position = 2) ∧ IsFollowed 0 visits ∧ IsFollowed 1 visits := by
  have hclean : (hesitantPipeline.encode 0).emission.fault = none := by decide +kernel
  obtain ⟨visits, hlog, hvisited, hfollowed⟩ :=
    (encode_in_order hesitantPipeline 0).2.1 hclean
  exact ⟨hclean, visits, hlog, hvisited 2 (by decide), hfollowed 0 (by decide),
    hfollowed 1 (by decide)⟩

/-- The search is gone through twice, once before and once after the restart. -/
example : ((settleVisiting runLimit 0 (hesitantPipeline.fresh 0)).2.map (·.position)) =
    [0] ++ List.replicate 9 1 ++ [2, 0] ++ List.replicate 9 1 ++ [2] := by decide +kernel

end Pipeline

end SpectralCoding
