import Mathlib.Tactic.IntervalCases
import SpectralCoding.Atrac3Plus.Encoder
import SpectralCoding.Proofs.Atrac3Plus.PartCosts
import SpectralCoding.Proofs.Pipeline.Run

/-!
# An ATRAC3+ frame within its size

The target of the search is what the size leaves before the flags, the tones and the terminator. A
cost that stands above it makes units silent one after the other; with no unit left in use the parts
before cost what was set aside for them when the frame was opened.

* `Atrac3Plus.Parts` : what the nine stages remember.
* `Atrac3Plus.Holds` : what is known of each part once its stage is done.
* `Atrac3Plus.isKept_inFront` : every turn keeps it.
* `Atrac3Plus.encode_fits_size` : **a frame is refused for its size exactly if silence and its tones
  do not fit, and never exceeds it.**
-/

namespace SpectralCoding

namespace Atrac3Plus

open Pipeline

variable {κ : Type} [Dial κ]

/-! ### The room in a frame -/

/-- The fields of the tones of a frame. -/
def Frame.toneFields (frame : Frame) : Fields := packTones (frame.channels.map (·.tones))

/-- What comes after the mantissas. -/
def Frame.tail (frame : Frame) : Nat :=
  flagBits frame.channels.length + Fields.cost frame.toneFields + terminatorBits

/-- What a frame takes at least. -/
def Frame.least (frame : Frame) : Nat :=
  leastBits frame.channels.length - 1 + Fields.cost frame.toneFields

theorem Frame.least_eq (frame : Frame) :
    frame.least = 9 + 5 * frame.channels.length + frame.tail := by
  unfold Frame.least Frame.tail leastBits terminatorBits
  omega

/-! ### The parts -/

/-- What the nine stages remember. -/
structure Parts where
  opening : Fields
  allotting : Fields
  lengths : Fields
  scales : Fields
  kinds : Fields
  mantissas : Fields
  flags : Fields
  tones : Fields
  terminating : Fields

namespace Parts

/-- The stages beside their parts. -/
def slots (m : Parts) : List (Slot κ Frame Fields) :=
  [⟨Atrac3Plus.opening, m.opening⟩, ⟨Atrac3Plus.allotting, m.allotting⟩,
    ⟨writingLengths, m.lengths⟩, ⟨writingScales, m.scales⟩, ⟨choosingKinds, m.kinds⟩,
    ⟨writingMantissas, m.mantissas⟩, ⟨writingFlags, m.flags⟩, ⟨writingTones, m.tones⟩,
    ⟨Atrac3Plus.terminating, m.terminating⟩]

/-- The cost of the parts before the mantissas. -/
def spent (m : Parts) : Nat :=
  Fields.cost m.opening + Fields.cost m.allotting + Fields.cost m.lengths + Fields.cost m.scales +
    Fields.cost m.kinds

/-- The cost of all parts. -/
def total (m : Parts) : Nat :=
  m.spent + Fields.cost m.mantissas + Fields.cost m.flags + Fields.cost m.tones +
    Fields.cost m.terminating

theorem totalCost_take (m : Parts) :
    Slot.totalCost ((m.slots : List (Slot κ Frame Fields)).take 5) = m.spent := by
  simp only [Slot.totalCost, slots, List.take_succ_cons, List.take_zero, List.map_cons,
    List.map_nil, List.sum_cons, List.sum_nil, spent]
  simp only [Slot.cost, Atrac3Plus.opening, Atrac3Plus.allotting, writingLengths,
    writingScales, choosingKinds, plainStage]
  omega

theorem totalCost_slots (m : Parts) :
    Slot.totalCost (m.slots : List (Slot κ Frame Fields)) = m.total := by
  simp only [Slot.totalCost, slots, List.map_cons, List.map_nil, List.sum_cons,
    List.sum_nil, total, spent]
  simp only [Slot.cost, Atrac3Plus.opening, Atrac3Plus.allotting, writingLengths,
    writingScales, choosingKinds, writingMantissas, writingFlags, writingTones,
    Atrac3Plus.terminating, plainStage]
  omega

theorem emit_slots (m : Parts) (frame : Frame) :
    Emission.each (m.slots : List (Slot κ Frame Fields)) (·.emit frame) =
      .each [m.opening, m.allotting, m.lengths, m.scales, m.kinds, m.mantissas, m.flags,
        m.tones, m.terminating]
        Fields.emit := rfl

theorem exists_slots {slots : List (Slot κ Frame Fields)} (h : slots.map (·.stage) = stages) :
    ∃ m : Parts, slots = m.slots := by
  match slots, h with
  | [⟨_, a⟩, ⟨_, b⟩, ⟨_, c⟩, ⟨_, d⟩, ⟨_, e⟩, ⟨_, f⟩, ⟨_, g⟩, ⟨_, h⟩, ⟨_, i⟩], hstages =>
    simp only [stages, List.map_cons, List.map_nil, List.cons.injEq, and_true] at hstages
    obtain ⟨rfl, rfl, rfl, rfl, rfl, rfl, rfl, rfl, rfl⟩ := hstages
    exact ⟨⟨a, b, c, d, e, f, g, h, i⟩, rfl⟩

end Parts

/-! ### The invariant -/

/-- What is known of the part of stage `stage`, once the stage is done. -/
def Holds (frame : Frame) (target : Nat) (m : Parts) : (stage : Nat) → Prop
  | 0 => Fields.cost m.opening = 3 ∧ target + frame.tail = frame.size ∧ frame.least ≤ frame.size
  | 1 => Fields.cost m.allotting = 6 ∧
      IsAllotted frame.channels.length frame.units frame.usedUnits frame.lengths
  | 2 => frame.usedUnits = 0 → Fields.cost m.lengths ≤ 5 * frame.channels.length
  | 3 => frame.usedUnits = 0 → Fields.cost m.scales = 0
  | 4 => frame.usedUnits = 0 → Fields.cost m.kinds = 0 ∧ ∀ units ∈ frame.mantissas, units = []
  | 5 => m.spent + Fields.cost m.mantissas ≤ target
  | 6 => Fields.cost m.flags = flagBits frame.channels.length
  | 7 => Fields.cost m.tones = Fields.cost frame.toneFields
  | 8 => Fields.cost m.terminating = terminatorBits
  | _ => True

/-- A frame taken up as `start`, on its way. -/
structure Frame.IsFrom (frame start : Frame) : Prop where
  size : frame.size = start.size
  channels : frame.channels = start.channels

/-- What holds in front of a stage of a frame taken up as `start`. -/
structure InFront (start : Frame) (position : Nat) (s : Progress κ Frame Fields) : Prop where
  isFrom : s.frame.IsFrom start
  closed : s.desk.isReopened = false
  anchor : s.desk.anchor ≤ 1
  parts : ∃ m : Parts, s.slots = m.slots ∧
    ∀ stage < position, Holds s.frame s.desk.search.target m stage

/-- A failure other than the refusal of the frame for its size. -/
def IsOther (cause : Error) : Prop := cause.kind ≠ .invalidArgument

variable {start : Frame} {s : Progress κ Frame Fields}

/-- A stage that takes no part in the search goes on with its part put by, or fails. -/
theorem InFront.plain {work : Frame → Except Error (Frame × Fields)} {position : Nat}
    {memory : Fields} (hs : InFront start position s) (put : Parts → Fields → Parts)
    (hput : ∀ m fields,
      (m.slots : List (Slot κ Frame Fields)).set position ⟨plainStage work, fields⟩ =
      (put m fields).slots)
    (hfailed : ∀ cause, work s.frame = .error cause → IsOther cause)
    (hdone : ∀ m : Parts, (∀ stage < position, Holds s.frame s.desk.search.target m stage) →
      ∀ frame fields, work s.frame = .ok (frame, fields) → frame.IsFrom start ∧
        ∀ stage < position + 1, Holds frame s.desk.search.target (put m fields) stage) :
    (turn position ⟨plainStage work, memory⟩ s).Leads (InFront start) IsOther := by
  obtain ⟨m, hslots, hholds⟩ := hs.parts
  cases hwork : work s.frame with
  | error cause =>
    have hrun : ((plainStage work : Stage κ Frame Fields).work s.frame memory).run position
        (Slot.totalCost (s.slots.take position)) s.desk =
          ({ frame := s.frame, memory := [], verdict := .error cause }, s.desk) := by
      simp only [plainStage, hwork, Negotiation.run]
    exact turn_leads_of_error hrun rfl (hfailed cause hwork)
  | ok result =>
    obtain ⟨frame, fields⟩ := result
    have hrun : ((plainStage work : Stage κ Frame Fields).work s.frame memory).run position
        (Slot.totalCost (s.slots.take position)) s.desk =
          ({ frame, memory := fields, verdict := .ok .proceed }, s.desk) := by
      simp only [plainStage, hwork, Negotiation.run]
    obtain ⟨hfrom, hholds'⟩ := hdone m hholds frame fields hwork
    refine turn_leads_of_proceed hrun rfl hs.closed ⟨hfrom, hs.closed, hs.anchor,
      put m fields, ?_, hholds'⟩
    rw [← hput, ← hslots]
    rfl

theorem turn_writingLengths (memory : Fields) (hs : InFront start 2 s) :
    (turn 2 ⟨writingLengths, memory⟩ s).Leads (InFront start) IsOther := by
  refine hs.plain (fun m fields => { m with lengths := fields }) (fun _ _ => rfl) ?_ ?_
  · intro cause h
    split at h
    · cases h
    · obtain rfl := Except.error.inj h
      exact nofun
  · intro m hholds frame fields h
    split at h
    · obtain ⟨rfl, rfl⟩ := Prod.mk.inj (Except.ok.inj h)
      refine ⟨hs.isFrom, Nat.forall_lt_succ_right.2 ⟨?_, ?_⟩⟩
      · intro stage hstage
        have hold := hholds stage hstage
        interval_cases stage <;> exact hold
      · intro hnone
        obtain ⟨-, hallotted⟩ := hholds 1 (by decide)
        refine Nat.le_trans (cost_lengthFields_le ..) ?_
        rw [hallotted.rows, hallotted.single hnone]
    · cases h

theorem turn_writingScales (memory : Fields) (hs : InFront start 3 s) :
    (turn 3 ⟨writingScales, memory⟩ s).Leads (InFront start) IsOther := by
  refine hs.plain (fun m fields => { m with scales := fields }) (fun _ _ => rfl) ?_ ?_
  · intro cause h
    split at h
    · cases h
    · obtain rfl := Except.error.inj h
      exact nofun
  · intro m hholds frame fields h
    split at h
    · obtain ⟨rfl, rfl⟩ := Prod.mk.inj (Except.ok.inj h)
      refine ⟨hs.isFrom, Nat.forall_lt_succ_right.2 ⟨?_, ?_⟩⟩
      · intro stage hstage
        have hold := hholds stage hstage
        interval_cases stage <;> exact hold
      · intro hnone
        simp only [scaleFields, if_pos hnone, Fields.cost_nil]
    · cases h

theorem turn_choosingKinds (memory : Fields) (hs : InFront start 4 s) :
    (turn 4 ⟨choosingKinds, memory⟩ s).Leads (InFront start) IsOther := by
  refine hs.plain (fun m fields => { m with kinds := fields }) (fun _ _ => rfl) ?_ ?_
  · intro cause h
    simp only at h
    split at h
    · cases h
    · split at h
      · cases h
      · obtain rfl := Except.error.inj h
        exact nofun
  · intro m hholds frame fields h
    simp only at h
    split at h
    · obtain ⟨rfl, rfl⟩ := Prod.mk.inj (Except.ok.inj h)
      refine ⟨⟨hs.isFrom.size, hs.isFrom.channels⟩, Nat.forall_lt_succ_right.2 ⟨?_, ?_⟩⟩
      · intro stage hstage
        have hold := hholds stage hstage
        interval_cases stage <;> exact hold
      · intro _
        simp
    · split at h
      · rename_i hsome _
        obtain ⟨rfl, rfl⟩ := Prod.mk.inj (Except.ok.inj h)
        refine ⟨⟨hs.isFrom.size, hs.isFrom.channels⟩,
          Nat.forall_lt_succ_right.2 ⟨?_, fun hnone => absurd hnone hsome⟩⟩
        intro stage hstage
        have hold := hholds stage hstage
        interval_cases stage <;> exact hold
      · cases h

theorem turn_writingFlags (memory : Fields) (hs : InFront start 6 s) :
    (turn 6 ⟨writingFlags, memory⟩ s).Leads (InFront start) IsOther := by
  refine hs.plain (fun m fields => { m with flags := fields }) (fun _ _ => rfl) ?_ ?_
  · intro cause h
    cases h
  · intro m hholds frame fields h
    obtain ⟨rfl, rfl⟩ := Prod.mk.inj (Except.ok.inj h)
    refine ⟨hs.isFrom, Nat.forall_lt_succ_right.2 ⟨?_, ?_⟩⟩
    · intro stage hstage
      have hold := hholds stage hstage
      interval_cases stage <;> exact hold
    · simp [Holds, flagFields, Fields.cost, Field.flag]

theorem turn_writingTones (htones : ∀ ch ∈ start.channels, checkTones ch.tones = .ok ())
    (memory : Fields) (hs : InFront start 7 s) :
    (turn 7 ⟨writingTones, memory⟩ s).Leads (InFront start) IsOther := by
  have hpacked : s.frame.toneFields? = .ok s.frame.toneFields :=
    toneFields_of_checkTones (hs.isFrom.channels ▸ htones)
  refine hs.plain (fun m fields => { m with tones := fields }) (fun _ _ => rfl) ?_ ?_
  · intro cause h
    rw [hpacked] at h
    cases h
  · intro m hholds frame fields h
    rw [hpacked] at h
    obtain ⟨rfl, rfl⟩ := Prod.mk.inj (Except.ok.inj h)
    refine ⟨hs.isFrom, Nat.forall_lt_succ_right.2 ⟨?_, rfl⟩⟩
    intro stage hstage
    have hold := hholds stage hstage
    interval_cases stage <;> exact hold

theorem turn_terminating (memory : Fields) (hs : InFront start 8 s) :
    (turn 8 ⟨terminating, memory⟩ s).Leads (InFront start) IsOther := by
  refine hs.plain (fun m fields => { m with terminating := fields }) (fun _ _ => rfl) ?_ ?_
  · intro cause h
    cases h
  · intro m hholds frame fields h
    obtain ⟨rfl, rfl⟩ := Prod.mk.inj (Except.ok.inj h)
    refine ⟨hs.isFrom, Nat.forall_lt_succ_right.2 ⟨?_, rfl⟩⟩
    intro stage hstage
    have hold := hholds stage hstage
    interval_cases stage <;> exact hold

/-! ### The stages that take part in the search -/

theorem turn_opening (htones : ∀ ch ∈ start.channels, checkTones ch.tones = .ok ())
    (hroom : start.least ≤ start.size) (memory : Fields) (hs : InFront start 0 s) :
    (turn 0 ⟨opening, memory⟩ s).Leads (InFront start) IsOther := by
  obtain ⟨m, hslots, -⟩ := hs.parts
  have hpacked : s.frame.toneFields? = .ok s.frame.toneFields :=
    toneFields_of_checkTones (hs.isFrom.channels ▸ htones)
  have hleast : s.frame.least ≤ s.frame.size := by
    unfold Frame.least Frame.toneFields
    rw [hs.isFrom.size, hs.isFrom.channels]
    exact hroom
  have hrun : ((opening : Stage κ Frame Fields).work s.frame memory).run 0
      (Slot.totalCost (s.slots.take 0)) s.desk =
        ({ frame := s.frame, memory := [⟨0, 1⟩, ⟨s.frame.channels.length - 1, 2⟩]
           verdict := .ok .proceed },
          { s.desk with
            search := .start (s.frame.size - s.frame.tail) leastShift greatestShift }) := by
    have hfits : ¬s.frame.size <
        leastBits s.frame.channels.length - 1 + Fields.cost s.frame.toneFields :=
      Nat.not_lt.2 hleast
    simp only [opening, hpacked]
    rw [if_neg hfits]
    rfl
  refine turn_leads_of_proceed hrun rfl hs.closed ⟨hs.isFrom, hs.closed, hs.anchor,
    { m with opening := [⟨0, 1⟩, ⟨s.frame.channels.length - 1, 2⟩] }, ?_, ?_⟩
  · simp only [Progress.after, hslots]
    rfl
  · refine Nat.forall_lt_succ_right.2 ⟨nofun, rfl, ?_, hleast⟩
    have htail := s.frame.least_eq
    exact Nat.sub_add_cancel (by omega)

theorem turn_allotting (memory : Fields) (hs : InFront start 1 s) :
    (turn 1 ⟨allotting, memory⟩ s).Leads (InFront start) IsOther := by
  obtain ⟨m, hslots, hholds⟩ := hs.parts
  obtain ⟨shift, search, hprobe, htarget⟩ := s.desk.search.exists_probe
  have hanchor : (if s.desk.search.isCollapsed then s.desk.anchor else 1) ≤ 1 := by
    split
    · exact hs.anchor
    · exact Nat.le_refl 1
  by_cases htables :
    (s.frame.channels.all fun ch => hasTables ch s.frame.thresholds s.frame.loudness) = true
  · have hrun : ((allotting : Stage κ Frame Fields).work s.frame memory).run 1
        (Slot.totalCost (s.slots.take 1)) s.desk =
          ({ frame := s.frame.withShift (Dial.toFloat32 shift)
             memory := [⟨(s.frame.withShift (Dial.toFloat32 shift)).units - 1, 5⟩, ⟨0, 1⟩]
             verdict := .ok .proceed },
            { s.desk with
              search, anchor := if s.desk.search.isCollapsed then s.desk.anchor else 1 }) := by
      simp only [allotting, Negotiation.run, hprobe]
      rw [if_pos htables]
      rfl
    refine turn_leads_of_proceed hrun rfl hs.closed ⟨⟨hs.isFrom.size, hs.isFrom.channels⟩,
      hs.closed, hanchor,
      { m with allotting := [⟨(s.frame.withShift (Dial.toFloat32 shift)).units - 1, 5⟩, ⟨0, 1⟩] },
      ?_, ?_⟩
    · simp only [Progress.after, hslots]
      rfl
    · refine Nat.forall_lt_succ_right.2 ⟨?_, rfl, isAllotted_withShift ..⟩
      intro stage hstage
      have hold := hholds stage hstage
      rw [← htarget] at hold
      interval_cases stage
      exact hold
  · have hrun : ((allotting : Stage κ Frame Fields).work s.frame memory).run 1
        (Slot.totalCost (s.slots.take 1)) s.desk =
          ({ frame := s.frame, memory, verdict := .error .outOfRange },
            { s.desk with
              search, anchor := if s.desk.search.isCollapsed then s.desk.anchor else 1 }) := by
      simp only [allotting, Negotiation.run, hprobe]
      rw [if_neg htables]
      rfl
    exact turn_leads_of_error hrun rfl nofun

theorem mantissaFields_of_empty {frame : Frame} (h : ∀ units ∈ frame.mantissas, units = []) :
    frame.mantissaFields = [] := by
  rw [Frame.mantissaFields, List.flatMap_eq_nil_iff]
  rintro ⟨units, channel⟩ hmem
  rw [h units (List.fst_mem_of_mem_zipIdx hmem)]
  rfl

/-- With no unit in use the parts up to the mantissas are within the target. -/
theorem spent_le_of_silent {frame : Frame} {target : Nat} {m : Parts}
    (hholds : ∀ stage < 5, Holds frame target m stage) (hnone : frame.usedUnits = 0) :
    m.spent + Fields.cost frame.mantissaFields ≤ target := by
  obtain ⟨hopening, htarget, hleast⟩ := hholds 0 (by decide)
  obtain ⟨hallotting, -⟩ := hholds 1 (by decide)
  have hlengths := hholds 2 (by decide) hnone
  have hscales := hholds 3 (by decide) hnone
  obtain ⟨hkinds, hempty⟩ := hholds 4 (by decide) hnone
  have heq := frame.least_eq
  rw [mantissaFields_of_empty hempty, Fields.cost_nil, Parts.spent]
  omega

/-- The sixth stage submits the cost so far. It returns to the search, gives a unit up, or has
stayed within the target. -/
theorem turn_writingMantissas (memory : Fields) (hs : InFront start 5 s) :
    (turn 5 ⟨writingMantissas, memory⟩ s).Leads (InFront start) IsOther := by
  obtain ⟨m, hslots, hholds⟩ := hs.parts
  have hspent : Slot.totalCost (s.slots.take 5) = m.spent := by rw [hslots, Parts.totalCost_take]
  by_cases hwrite : s.frame.canWrite = true
  · obtain ⟨stands, search, hsubmit, htarget⟩ :=
      s.desk.search.exists_submit (m.spent + Fields.cost s.frame.mantissaFields)
    have hkept : ∀ stage < 5,
        Holds s.frame search.target { m with mantissas := s.frame.mantissaFields } stage := by
      intro stage hstage
      have hold := hholds stage hstage
      rw [← htarget] at hold
      interval_cases stage <;> exact hold
    have hset : s.slots.set 5 ⟨writingMantissas, s.frame.mantissaFields⟩ =
        ({ m with mantissas := s.frame.mantissaFields } : Parts).slots := by
      rw [hslots]
      rfl
    by_cases hover : stands = true ∧ search.target < m.spent + Fields.cost s.frame.mantissaFields ∧
      0 < s.frame.usedUnits
    · have hrun : ((writingMantissas : Stage κ Frame Fields).work s.frame memory).run 5
          (Slot.totalCost (s.slots.take 5)) s.desk =
            ({ frame := { s.frame with limit := s.frame.usedUnits - 1 }
               memory := s.frame.mantissaFields, verdict := .ok .restart },
              { s.desk with search, isReopened := !stands }) := by
        simp only [writingMantissas, if_pos hwrite, Negotiation.run, hspent, hsubmit, if_pos hover]
      have hclosed : (!stands) = false := by rw [hover.1, Bool.not_true]
      refine turn_leads_of_restart hrun rfl hclosed ⟨⟨hs.isFrom.size, hs.isFrom.channels⟩, hclosed,
        Nat.zero_le 1,
        { m with
          opening := [], allotting := [], lengths := [], scales := [], kinds := []
          mantissas := s.frame.mantissaFields }, ?_, nofun⟩
      simp only [Progress.restarted, Progress.after, hset]
      rfl
    · have hrun : ((writingMantissas : Stage κ Frame Fields).work s.frame memory).run 5
          (Slot.totalCost (s.slots.take 5)) s.desk =
            ({ frame := s.frame, memory := s.frame.mantissaFields, verdict := .ok .proceed },
              { s.desk with search, isReopened := !stands }) := by
        simp only [writingMantissas, if_pos hwrite, Negotiation.run, hspent, hsubmit, if_neg hover]
      cases stands with
      | false =>
        refine turn_leads_of_reopened hrun rfl rfl ⟨hs.isFrom, rfl, hs.anchor,
          { m with mantissas := s.frame.mantissaFields }, hset, fun stage hstage => hkept stage ?_⟩
        exact Nat.lt_of_lt_of_le hstage (Nat.le_trans hs.anchor (by decide))
      | true =>
        refine turn_leads_of_proceed hrun rfl rfl ⟨hs.isFrom, rfl, hs.anchor,
          { m with mantissas := s.frame.mantissaFields }, hset,
          Nat.forall_lt_succ_right.2 ⟨hkept, ?_⟩⟩
        by_cases hnone : s.frame.usedUnits = 0
        · have hle := spent_le_of_silent hholds hnone
          rwa [← htarget] at hle
        · exact Nat.le_of_not_lt fun hlt => hover ⟨rfl, hlt, Nat.pos_of_ne_zero hnone⟩
  · have hrun : ((writingMantissas : Stage κ Frame Fields).work s.frame memory).run 5
        (Slot.totalCost (s.slots.take 5)) s.desk =
          ({ frame := s.frame, memory, verdict := .error .outOfRange }, s.desk) := by
      simp only [writingMantissas, if_neg hwrite, Negotiation.run]
    exact turn_leads_of_error hrun rfl nofun

/-- Every turn keeps what holds in front of a stage, and no failure is a refusal for the size. -/
theorem isKept_inFront (htones : ∀ ch ∈ start.channels, checkTones ch.tones = .ok ())
    (hroom : start.least ≤ start.size) :
    IsKept (InFront start : Nat → Progress κ Frame Fields → Prop) IsOther := by
  intro position slot s hslot hs
  obtain ⟨m, hslots, -⟩ := hs.parts
  rw [hslots] at hslot
  match position, hslot with
  | 0, rfl => exact turn_opening htones hroom _ hs
  | 1, rfl => exact turn_allotting _ hs
  | 2, rfl => exact turn_writingLengths _ hs
  | 3, rfl => exact turn_writingScales _ hs
  | 4, rfl => exact turn_choosingKinds _ hs
  | 5, rfl => exact turn_writingMantissas _ hs
  | 6, rfl => exact turn_writingFlags _ hs
  | 7, rfl => exact turn_writingTones htones _ hs
  | 8, rfl => exact turn_terminating _ hs

/-! ### Frames -/

theorem isCodedUnits_iff {count : Nat} :
    isCodedUnits count = true ↔ 1 ≤ count ∧ count ≤ 28 ∨ count = 32 := by
  have hblocks : Layout.atrac3Plus.blocks = 32 := rfl
  simp only [isCodedUnits, Bool.or_eq_true, Bool.and_eq_true, decide_eq_true_eq,
    beq_iff_eq, hblocks]
  exact Iff.rfl

/-- The stages of a frame, whatever they remember of the frame before and wherever their search
stands. -/
def IsFramePipeline (p : Pipeline κ Frame Fields) : Prop := p.slots.map (·.stage) = stages

theorem inFront_fresh {p : Pipeline κ Frame Fields} (hp : IsFramePipeline p) (start : Frame) :
    InFront start 0 (p.fresh start) := by
  have hfresh : (p.slots.map Slot.forget).map (·.stage) = stages := by
    rw [List.map_map]
    exact hp
  obtain ⟨m, hslots⟩ := Parts.exists_slots hfresh
  exact ⟨⟨rfl, rfl⟩, rfl, Nat.zero_le 1, m, hslots, nofun⟩

/-- A frame without room for silence and its tones is refused. -/
theorem emission_of_refused {p : Pipeline κ Frame Fields} (hp : IsFramePipeline p) {frame : Frame}
    (htones : ∀ ch ∈ frame.channels, checkTones ch.tones = .ok ())
      (hroom : frame.size < frame.least) :
    (p.encode frame).emission = .fail (.toneOverflow frame.least frame.size) := by
  obtain ⟨m, hslots, -⟩ := (inFront_fresh hp frame).parts
  have hslot : (p.fresh frame).slots[0]? = some ⟨opening, m.opening⟩ := by
    rw [hslots]
    rfl
  have hsmall : frame.size <
      leastBits frame.channels.length - 1 + Fields.cost frame.toneFields := hroom
  have hpacked : frame.toneFields? = .ok frame.toneFields := toneFields_of_checkTones htones
  have hturn : ∃ s', turn 0 ⟨opening, m.opening⟩ (p.fresh frame) =
      .failed (.toneOverflow frame.least frame.size) s' := by
    have hframe : (p.fresh frame).frame = frame := rfl
    simp only [turn, opening, hframe, hpacked, if_pos hsmall, Negotiation.run]
    exact ⟨_, rfl⟩
  obtain ⟨s', hturn⟩ := hturn
  exact emission_of_turn_failed hslot hturn

theorem put_of_inFront {last : Nat} (hlast : s.slots.length ≤ last) (hs : InFront start last s) :
    s.put.emission.fault = none ∧ s.put.emission.bits.length = s.put.pipeline.cost ∧
      s.put.pipeline.cost ≤ start.size ∧
      IsAllotted start.channels.length s.frame.units s.frame.usedUnits s.frame.lengths := by
  obtain ⟨m, hslots, hholds⟩ := hs.parts
  have hpast : 9 ≤ last := by simpa [hslots, Parts.slots] using hlast
  have hdone (stage : Nat) (hstage : stage < 9) : Holds s.frame s.desk.search.target m stage :=
    hholds stage (Nat.lt_of_lt_of_le hstage hpast)
  obtain ⟨-, htarget, -⟩ := hdone 0 (by decide)
  obtain ⟨-, hallotted⟩ := hdone 1 (by decide)
  have hspent := hdone 5 (by decide)
  have hflags := hdone 6 (by decide)
  have htones := hdone 7 (by decide)
  have hterminating := hdone 8 (by decide)
  simp only [Holds] at hspent hflags htones hterminating
  have hcost : s.put.pipeline.cost = m.total := by
    have h : Slot.totalCost (m.slots : List (Slot κ Frame Fields)) = m.total := m.totalCost_slots
    rwa [← hslots] at h
  have hemission : s.put.emission = .each [m.opening, m.allotting, m.lengths, m.scales, m.kinds,
      m.mantissas, m.flags, m.tones, m.terminating] Fields.emit := by
    have h : Emission.each (m.slots : List (Slot κ Frame Fields)) (·.emit s.frame) = _ :=
      m.emit_slots s.frame
    rwa [← hslots] at h
  have hclean : ∀ fields ∈ [m.opening, m.allotting, m.lengths, m.scales, m.kinds, m.mantissas,
      m.flags, m.tones, m.terminating], (Fields.emit fields).fault = none :=
      fun fields _ => Fields.fault_emit fields
  refine ⟨?_, ?_, ?_, ?_⟩
  · rw [hemission]
    exact Emission.fault_each_eq_none.2 hclean
  · rw [hemission, Emission.length_each_of_clean hclean, hcost]
    simp only [List.map_cons, List.map_nil, List.sum_cons, List.sum_nil, Fields.length_emit,
      Parts.total, Parts.spent]
    omega
  · rw [hcost, ← hs.isFrom.size, ← htarget]
    unfold Parts.total Frame.tail
    omega
  · rwa [← hs.isFrom.channels]

/-- **A frame is refused for its size exactly if silence and its tones do not fit, and never exceeds
it.** -/
theorem encode_fits_size {p : Pipeline κ Frame Fields} (hp : IsFramePipeline p) (size : Nat)
    {channels : List Channel} (htones : ∀ ch ∈ channels, checkTones ch.tones = .ok ())
    (thresholds : List Float32) (loudness : Float32) :
    let encoded := p.encode { size, channels, thresholds, loudness }
    (encoded.emission.fault.map Error.kind = some .invalidArgument ↔
        size < leastBits channels.length - 1 + Fields.cost (packTones (channels.map (·.tones)))) ∧
      (encoded.emission.fault = none →
        encoded.emission.bits.length = encoded.pipeline.cost ∧ encoded.pipeline.cost ≤ size ∧
          (1 ≤ encoded.frame.units ∧ encoded.frame.units ≤ 28 ∨ encoded.frame.units = 32) ∧
          encoded.frame.lengths.length = channels.length ∧
          ∀ row ∈ encoded.frame.lengths, row.length = encoded.frame.units ∧
            ∀ i, encoded.frame.usedUnits ≤ i → row.getD i 0 = 0) := by
  intro encoded
  by_cases hroom :
    size < leastBits channels.length - 1 + Fields.cost (packTones (channels.map (·.tones)))
  · have hfail : encoded.emission = .fail (.toneOverflow _ size) :=
      emission_of_refused hp htones hroom
    rw [hfail]
    exact ⟨⟨fun _ => hroom, fun _ => rfl⟩, nofun⟩
  · have hleast : Frame.least { size, channels, thresholds, loudness } ≤ size :=
      Nat.le_of_not_lt hroom
    rcases encode_of_isKept (isKept_inFront htones hleast) p _ (inFront_fresh hp _) with
      ⟨cause, hfail, hcause⟩ | ⟨last, s, hlast, hs, hput⟩
    · have hother : IsOther cause := by
        rcases hcause with hother | ⟨last, rfl⟩
        · exact hother
        · exact nofun
      have hfail : encoded.emission = .fail cause := hfail
      rw [hfail]
      exact ⟨⟨fun h => absurd (Option.some.inj h) hother, fun h => absurd h hroom⟩, nofun⟩
    · have hput : encoded = s.put := hput
      obtain ⟨hclean, hlength, hle, hallotted⟩ := put_of_inFront hlast hs
      rw [hput, hclean]
      refine ⟨⟨nofun, fun h => absurd h hroom⟩, fun _ => ⟨hlength, hle, ?_, hallotted.rows,
        fun row hrow => ⟨hallotted.length row hrow, hallotted.silent row hrow⟩⟩⟩
      exact isCodedUnits_iff.1 hallotted.coded

/-- Two tones and a single loud line, in a frame of 13 bytes. -/
def clickFrame : Frame where
  size := 104
  channels :=
    [{ blocks := (List.range Layout.atrac3Plus.blocks).map fun block =>
         Layout.atrac3Plus.scale
           (Layout.atrac3Plus.blockLines .long (0.5 :: List.replicate 2047 0) block)
       spread := 0.5
       tones := [{ waves := [⟨40, 20, 3⟩, ⟨47, 11, 0⟩] }] }]
  thresholds := List.replicate 32 0.1
  loudness := 1

/-- The unit of the loud line is in use, and the tones are written beside it. -/
theorem fits_clickFrame :
    clickFrame.least = 70 ∧
      (freshPipeline.encode clickFrame).emission.fault = none ∧
      (freshPipeline.encode clickFrame).frame.usedUnits = 1 ∧
      (freshPipeline.encode clickFrame).frame.lengths = [[3]] ∧
      (freshPipeline.encode clickFrame).emission.bits.length =
        (freshPipeline.encode clickFrame).pipeline.cost ∧
      (freshPipeline.encode clickFrame).emission.bits.length ≤ 104 := by
  have hp : IsFramePipeline freshPipeline := rfl
  have htones : ∀ ch ∈ clickFrame.channels, checkTones ch.tones = .ok () := by
    intro ch hch
    rw [List.mem_singleton.1 hch]
    rfl
  have hrun : (freshPipeline.encode clickFrame).emission.fault = none ∧
      (freshPipeline.encode clickFrame).frame.usedUnits = 1 ∧
      (freshPipeline.encode clickFrame).frame.lengths = [[3]] := by decide +kernel
  obtain ⟨hclean, hused, hlengths⟩ := hrun
  have hnew : clickFrame =
      { size := 104, channels := clickFrame.channels, thresholds := clickFrame.thresholds
        loudness := clickFrame.loudness } := rfl
  have hfits := encode_fits_size hp 104 htones clickFrame.thresholds clickFrame.loudness
  rw [← hnew] at hfits
  obtain ⟨hlength, hle, -⟩ := hfits.2 hclean
  exact ⟨by decide, hclean, hused, hlengths, hlength, hlength ▸ hle⟩

end Atrac3Plus

end SpectralCoding
