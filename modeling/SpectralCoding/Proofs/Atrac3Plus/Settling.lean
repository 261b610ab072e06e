import SpectralCoding.Proofs.Atrac3Plus.FrameBudget
import SpectralCoding.Proofs.Pipeline.Turns
import SpectralCoding.Proofs.Search.Closing

/-!
# An ATRAC3+ frame settles

The cost that a turn of the sixth stage submits closes the search that the second stage reads, so a
round is a search of so many tries, each of them five turns long. If the last shift costs too much
as well, a unit that was in use is given up, and another round begins; and no more units are in use
than there are fixed lengths. It does not matter for this what a frame is made of.

* `Atrac3Plus.usedUnits_withShift_le` : a bound for the units in use.
* `Atrac3Plus.exists_plainStage` : most stages take no part in the search.
* `Atrac3Plus.opening_cases`, `Atrac3Plus.allotting_cases`, `Atrac3Plus.writingMantissas_cases` :
  what the talks of the others leave behind.
* `Atrac3Plus.Suffices` : a count of turns that suffices from in front of a stage.
* `Atrac3Plus.isLowered_suffices` : every turn lowers it.
* `Atrac3Plus.endsWithin` : **a frame takes at most thirty-three rounds and three turns.**
-/

namespace SpectralCoding

namespace Atrac3Plus

open Pipeline

/-! ### Units in use -/

/-- Past the fixed lengths no unit of a channel that has its tables is heard. -/
theorem getD_wordLengths_of_hasTables {ch : Channel} {thresholds : List Float32}
    {loudness : Float32} (htables : hasTables ch thresholds loudness = true) (shift : Float32)
    {i : Nat} (hi : fixedLengths.length ≤ i) :
    (wordLengths ch shift thresholds loudness).getD i 0 = 0 := by
  have hfaint := (Bool.and_eq_true_iff.1 htables).2
  rw [List.all_eq_true] at hfaint
  rw [wordLengths, List.getD_eq_getElem?_getD, List.getElem?_mapIdx]
  cases hget : (ch.blocks.zip thresholds)[i]? with
  | none => rfl
  | some entry =>
    have hdrop : ((ch.blocks.zip thresholds).drop fixedLengths.length)[i - fixedLengths.length]? =
        some entry := by
      rw [List.getElem?_drop, Nat.add_sub_cancel' hi, hget]
    have hinaudible := hfaint entry (List.mem_of_getElem? hdrop)
    rw [Option.map_some, Option.getD_some, wordLength]
    exact if_pos hinaudible

theorem getD_silenceFrom (limit : Nat) (lengths : List Nat) (i : Nat) :
    (silenceFrom limit lengths).getD i 0 = if i < limit then lengths.getD i 0 else 0 := by
  have hzeros (n j : Nat) : (List.replicate n 0).getD j 0 = 0 := by
    rw [List.getD_eq_getElem?_getD, List.getElem?_replicate]
    split <;> rfl
  rcases Nat.lt_or_ge i (lengths.take limit).length with hkept | hpast
  · have hlt : i < limit := by
      rw [List.length_take] at hkept
      omega
    rw [silenceFrom, List.getD_append _ _ _ _ hkept, if_pos hlt, List.getD_eq_getElem?_getD,
      List.getElem?_take_of_lt hlt, List.getD_eq_getElem?_getD]
  · rw [silenceFrom, List.getD_append_right _ _ _ _ hpast, hzeros]
    split
    · refine (List.getD_eq_default _ _ ?_).symm
      rw [List.length_take] at hpast
      omega
    · rfl

/-- The most units that can be in use. -/
def Frame.mostUnits (frame : Frame) : Nat := min frame.limit fixedLengths.length

theorem usedUnits_withShift_le {frame : Frame}
    (htables : ∀ ch ∈ frame.channels, hasTables ch frame.thresholds frame.loudness = true)
    (shift : Float32) : (frame.withShift shift).usedUnits ≤ frame.mostUnits := by
  refine foldl_max_le (Nat.zero_le _) fun used hused => ?_
  obtain ⟨lengths, hlengths, rfl⟩ := List.mem_map.1 hused
  obtain ⟨ch, hch, rfl⟩ := List.mem_map.1 hlengths
  refine unitsInUse_le_iff.2 fun i hi => ?_
  rw [getD_silenceFrom]
  split
  · -- below the limit there are only the fixed lengths
    refine getD_wordLengths_of_hasTables (htables ch hch) shift ?_
    unfold Frame.mostUnits at hi
    omega
  · rfl

/-! ### Talks -/

variable {κ : Type}

/-- Work on a frame that leaves alone what the search goes by, or fails. -/
def StaysAside (frame : Frame) : Except Error (Frame × Fields) → Prop
  | .error cause => cause.IsOfStage
  | .ok (after, _) => after.limit = frame.limit ∧ after.usedUnits = frame.usedUnits

/-- The stages that take no part in the search stay aside. -/
theorem exists_plainStage {stage : Stage κ Frame Fields}
    (h : stage ∈ [writingLengths, writingScales, choosingKinds, writingFlags, writingTones,
      terminating]) :
    ∃ work, stage = plainStage work ∧ ∀ frame, StaysAside frame (work frame) := by
  simp only [List.mem_cons, List.not_mem_nil, or_false] at h
  rcases h with rfl | rfl | rfl | rfl | rfl | rfl
  · refine ⟨_, rfl, fun frame => ?_⟩
    split
    · exact ⟨rfl, rfl⟩
    · exact nofun
  · refine ⟨_, rfl, fun frame => ?_⟩
    split
    · exact ⟨rfl, rfl⟩
    · exact nofun
  · refine ⟨_, rfl, fun frame => ?_⟩
    dsimp only
    split
    · exact ⟨rfl, rfl⟩
    · split
      · exact ⟨rfl, rfl⟩
      · exact nofun
  · exact ⟨_, rfl, fun frame => ⟨rfl, rfl⟩⟩
  · refine ⟨_, rfl, fun frame => ?_⟩
    unfold Frame.toneFields? packTones?
    split
    · exact ⟨rfl, rfl⟩
    · exact nofun
  · exact ⟨_, rfl, fun frame => ⟨rfl, rfl⟩⟩

variable [Dial κ]

section

variable {frame : Frame} {memory : Fields} {position spent : Nat} {desk after : Desk κ}
  {t : Turn Frame Fields}

/-- A talk of the first stage opens a search of the encoders' interval, or fails. -/
theorem opening_cases
    (hwork : ((opening : Stage κ Frame Fields).work frame memory).run position spent desk =
      (t, after)) :
    (∃ cause, t.verdict = .error cause ∧ cause.IsOfStage) ∨
      t.verdict = .ok .proceed ∧ t.frame = frame ∧
        ∃ target, after = { desk with search := .start target leastShift greatestShift } := by
  simp only [opening, Frame.toneFields?, packTones?] at hwork
  split at hwork
  · rename_i cause hpack
    split at hpack
    · cases hpack
    · obtain rfl := Except.error.inj hpack
      obtain ⟨rfl, -⟩ := Prod.mk.inj hwork
      refine .inl ⟨_, rfl, ?_⟩
      rintro _ ⟨⟩
  · split at hwork
    · obtain ⟨rfl, -⟩ := Prod.mk.inj hwork
      refine .inl ⟨_, rfl, ?_⟩
      rintro _ ⟨⟩
    · obtain ⟨rfl, rfl⟩ := Prod.mk.inj hwork
      exact .inr ⟨rfl, rfl, _, rfl⟩

/-- A talk of the second stage asks for a shift, and decides on lengths that there are tables for,
or fails. -/
theorem allotting_cases
    (hwork : ((allotting : Stage κ Frame Fields).work frame memory).run position spent desk =
      (t, after)) :
    t.verdict = .error .outOfRange ∨
      t.verdict = .ok .proceed ∧ t.frame.limit = frame.limit ∧
        t.frame.usedUnits ≤ frame.mostUnits ∧
        after = { desk with
          search := desk.search.probe.2
          anchor := if desk.search.isCollapsed then desk.anchor else position } := by
  simp only [allotting, Negotiation.run] at hwork
  split at hwork
  · rename_i htables
    obtain ⟨rfl, rfl⟩ := Prod.mk.inj hwork
    exact .inr ⟨rfl, rfl, usedUnits_withShift_le (List.all_eq_true.1 htables) _, rfl⟩
  · obtain ⟨rfl, -⟩ := Prod.mk.inj hwork
    exact .inl rfl

/-- A talk of the sixth stage submits a cost, and may give a unit up if it stands; or fails. -/
theorem writingMantissas_cases
    (hwork : ((writingMantissas : Stage κ Frame Fields).work frame memory).run position spent desk =
      (t, after)) :
    t.verdict = .error .outOfRange ∨
      ∃ cost, after = { desk with
          search := (desk.search.submit cost).2
          isReopened := !(desk.search.submit cost).1 } ∧
        (t.verdict = .ok .proceed ∧ t.frame = frame ∨
          t.verdict = .ok .restart ∧ (desk.search.submit cost).1 = true ∧ 0 < frame.usedUnits ∧
            t.frame = { frame with limit := frame.usedUnits - 1 }) := by
  simp only [writingMantissas] at hwork
  split at hwork
  · simp only [Negotiation.run] at hwork
    generalize spent + Fields.cost frame.mantissaFields = cost at hwork
    refine .inr ⟨cost, ?_⟩
    split at hwork
    · rename_i hover
      obtain ⟨rfl, rfl⟩ := Prod.mk.inj hwork
      exact ⟨rfl, .inr ⟨rfl, hover.1, hover.2.2, rfl⟩⟩
    · obtain ⟨rfl, rfl⟩ := Prod.mk.inj hwork
      exact ⟨rfl, .inl ⟨rfl, rfl⟩⟩
  · obtain ⟨rfl, -⟩ := Prod.mk.inj hwork
    exact .inl rfl

end

/-! ### Turns -/

variable {s : Progress κ Frame Fields}

/-- The turns from the second stage to the sixth. -/
def tryTurns : Nat := 5

/-- The most turns of a round: one to open the search, and eleven tries, of which the last one
stands. -/
def roundTurns : Nat := 1 + 11 * tryTurns

/-- The turns behind the sixth stage. -/
def closingTurns : Nat := 3

/-- The search waits for the cost of the shift it has named, and is sure to close when `tries` costs
have not stood. -/
structure IsAwaiting (tries : Nat) (desk : Desk κ) : Prop where
  named : ∃ b : Bisection κ, desk.search = b.probe.2 ∧
    Bisection.closesWithin tries b.lo b.hi = true ∧ (b.isCollapsed = false → desk.anchor = 1)

/-- So many turns suffice from in front of a stage. -/
def Suffices (turns : Nat) : (position : Nat) → Progress κ Frame Fields → Prop
  | 0, s => (s.frame.mostUnits + 1) * roundTurns + closingTurns ≤ turns
  | 1, s => ∃ tries, Bisection.closesWithin tries s.desk.search.lo s.desk.search.hi = true ∧
      s.frame.mostUnits * roundTurns + (tries + 1) * tryTurns + closingTurns ≤ turns
  | position + 2, s =>
    if position ≤ 3 then
      ∃ tries, IsAwaiting tries s.desk ∧ s.frame.usedUnits ≤ s.frame.mostUnits ∧
        s.frame.mostUnits * roundTurns + tries * tryTurns + (4 - position) + closingTurns ≤ turns
    else 7 ≤ turns + position

theorem suffices_opening
    (hcloses : Bisection.closesWithin 10 (leastShift : κ) greatestShift = true) (memory : Fields)
    (hclosed : s.desk.isReopened = false) {turns : Nat} (h : Suffices (turns + 1) 0 s) :
    (turn 0 ⟨opening, memory⟩ s).Leads (Suffices turns) Error.IsOfStage := by
  rcases hwork : ((opening : Stage κ Frame Fields).work s.frame memory).run 0
    (Slot.totalCost (s.slots.take 0)) s.desk with ⟨t, after⟩
  rcases opening_cases hwork with ⟨cause, hverdict, hcause⟩ | ⟨hverdict, hframe, target, rfl⟩
  · exact turn_leads_of_error hwork hverdict hcause
  · refine turn_leads_of_proceed hwork hverdict hclosed ⟨10, hcloses, ?_⟩
    simp only [Suffices, roundTurns, tryTurns, Progress.after, hframe] at h ⊢
    omega

theorem suffices_allotting (memory : Fields) (hclosed : s.desk.isReopened = false) {turns : Nat}
    (h : Suffices (turns + 1) 1 s) :
    (turn 1 ⟨allotting, memory⟩ s).Leads (Suffices turns) Error.IsOfStage := by
  obtain ⟨tries, hcloses, hturns⟩ := h
  rcases hwork : ((allotting : Stage κ Frame Fields).work s.frame memory).run 1
    (Slot.totalCost (s.slots.take 1)) s.desk with ⟨t, after⟩
  rcases allotting_cases hwork with hverdict | ⟨hverdict, hlimit, hused, rfl⟩
  · exact turn_leads_of_error hwork hverdict nofun
  · have hmost : t.frame.mostUnits = s.frame.mostUnits := by
      unfold Frame.mostUnits
      rw [hlimit]
    refine turn_leads_of_proceed hwork hverdict hclosed ⟨tries, ⟨_, rfl, hcloses, ?_⟩, ?_, ?_⟩
    · intro hopen
      simp only [Progress.after, hopen, Bool.false_eq_true, if_false]
    · rw [← hmost] at hused
      exact hused
    · simp only [Progress.after, hmost, tryTurns] at hturns ⊢
      omega

/-- A stage that takes no part in the search passes the turns on, less its own. -/
theorem suffices_plain {stage : Stage κ Frame Fields}
    (hstage : stage ∈ [writingLengths, writingScales, choosingKinds, writingFlags, writingTones,
      terminating])
    {position : Nat} (hposition : position ≠ 3) (memory : Fields)
    (hclosed : s.desk.isReopened = false) {turns : Nat}
    (h : Suffices (turns + 1) (position + 2) s) :
    (turn (position + 2) ⟨stage, memory⟩ s).Leads (Suffices turns) Error.IsOfStage := by
  obtain ⟨work, rfl, haside⟩ := exists_plainStage hstage
  have haside := haside s.frame
  cases hwork : work s.frame with
  | error cause =>
    have hrun : ((plainStage work : Stage κ Frame Fields).work s.frame memory).run (position + 2)
        (Slot.totalCost (s.slots.take (position + 2))) s.desk =
          ({ frame := s.frame, memory := [], verdict := .error cause }, s.desk) := by
      simp only [plainStage, hwork, Negotiation.run]
    rw [hwork] at haside
    exact turn_leads_of_error hrun rfl haside
  | ok result =>
    obtain ⟨frame, fields⟩ := result
    have hrun : ((plainStage work : Stage κ Frame Fields).work s.frame memory).run (position + 2)
        (Slot.totalCost (s.slots.take (position + 2))) s.desk =
          ({ frame, memory := fields, verdict := .ok .proceed }, s.desk) := by
      simp only [plainStage, hwork, Negotiation.run]
    rw [hwork] at haside
    obtain ⟨hlimit, hused⟩ : frame.limit = s.frame.limit ∧ frame.usedUnits = s.frame.usedUnits :=
      haside
    have hmost : frame.mostUnits = s.frame.mostUnits := by
      unfold Frame.mostUnits
      rw [hlimit]
    refine turn_leads_of_proceed hrun rfl hclosed ?_
    simp only [Suffices] at h
    change if position + 1 ≤ 3 then _ else _
    split at h
    · obtain ⟨tries, hawaiting, hle, hturns⟩ := h
      rw [if_pos (by omega)]
      refine ⟨tries, hawaiting, ?_, ?_⟩
      · simpa only [Progress.after, hused, hmost] using hle
      · simp only [Progress.after, hmost]
        omega
    · rw [if_neg (by omega)]
      omega

theorem suffices_writingMantissas (memory : Fields) {turns : Nat} (h : Suffices (turns + 1) 5 s) :
    (turn 5 ⟨writingMantissas, memory⟩ s).Leads (Suffices turns) Error.IsOfStage := by
  obtain ⟨tries, ⟨b, hnamed, hcloses, hanchor⟩, hused, hturns⟩ := h
  have hturns : s.frame.mostUnits * roundTurns + tries * tryTurns + 1 + closingTurns ≤ turns + 1 :=
    hturns
  rcases hwork : ((writingMantissas : Stage κ Frame Fields).work s.frame memory).run 5
    (Slot.totalCost (s.slots.take 5)) s.desk with ⟨t, after⟩
  rcases writingMantissas_cases hwork with hverdict | ⟨cost, rfl, hend⟩
  · exact turn_leads_of_error hwork hverdict nofun
  · cases hstands : (s.desk.search.submit cost).1 with
    | false =>
      -- only an open search reopens, and the second stage named its shift
      rw [hnamed] at hstands
      obtain ⟨hopen, fewer, rfl, hfewer⟩ := Bisection.closesWithin_of_reopened hcloses hstands
      obtain ⟨hverdict, hframe⟩ : t.verdict = .ok .proceed ∧ t.frame = s.frame := by
        rcases hend with hend | ⟨-, hend, -⟩
        · exact hend
        · rw [hnamed, hstands] at hend
          cases hend
      refine turn_leads_of_reopened hwork hverdict (by rw [hnamed, hstands, Bool.not_false]) ?_
      rw [hanchor hopen]
      refine ⟨fewer, ?_, ?_⟩
      · simpa only [Progress.after, hnamed] using hfewer
      · simp only [Progress.after, hframe]
        omega
    | true =>
      rcases hend with ⟨hverdict, hframe⟩ | ⟨hverdict, -, hpos, hframe⟩
      · refine turn_leads_of_proceed hwork hverdict (by rw [hstands, Bool.not_true]) ?_
        change 7 ≤ turns + 4
        unfold closingTurns at hturns
        omega
      · refine turn_leads_of_restart hwork hverdict (by rw [hstands, Bool.not_true]) ?_
        -- the units still in use are one round each, and one of them is given up
        have hfewer : t.frame.mostUnits + 1 ≤ s.frame.mostUnits := by
          rw [hframe]
          unfold Frame.mostUnits at hused ⊢
          dsimp only
          omega
        have hrounds := Nat.mul_le_mul_right roundTurns hfewer
        simp only [Suffices, Progress.restarted, Progress.after]
        omega

theorem isLowered_suffices
    (hcloses : Bisection.closesWithin 10 (leastShift : κ) greatestShift = true) :
    IsLowered (stages : List (Stage κ Frame Fields)) Suffices := by
  intro turns position stage memory s hstage hclosed h
  have hpast : position < 9 := (List.getElem?_eq_some_iff.1 hstage).1
  obtain ⟨turns, rfl⟩ : ∃ fewer, turns = fewer + 1 := by
    refine ⟨turns - 1, ?_⟩
    match position, h with
    | 0, h =>
      simp only [Suffices, closingTurns] at h
      omega
    | 1, h =>
      obtain ⟨tries, -, hturns⟩ := h
      unfold closingTurns at hturns
      omega
    | position + 2, h =>
      simp only [Suffices] at h
      split at h
      · obtain ⟨tries, -, -, hturns⟩ := h
        omega
      · omega
  refine ⟨turns, Nat.lt_succ_self turns, ?_⟩
  match position, hstage with
  | 0, rfl => exact suffices_opening hcloses memory hclosed h
  | 1, rfl => exact suffices_allotting memory hclosed h
  | 2, rfl => exact suffices_plain (by simp) (by decide) memory hclosed h
  | 3, rfl => exact suffices_plain (by simp) (by decide) memory hclosed h
  | 4, rfl => exact suffices_plain (by simp) (by decide) memory hclosed h
  | 5, rfl => exact suffices_writingMantissas memory h
  | 6, rfl => exact suffices_plain (by simp) (by decide) memory hclosed h
  | 7, rfl => exact suffices_plain (by simp) (by decide) memory hclosed h
  | 8, rfl => exact suffices_plain (by simp) (by decide) memory hclosed h

/-! ### Frames -/

theorem emit_of_mem_stages {stage : Stage κ Frame Fields} (h : stage ∈ stages) (frame : Frame)
    (fields : Fields) : stage.emit frame fields = fields.emit := by
  simp only [stages, List.mem_cons, List.not_mem_nil, or_false] at h
  rcases h with rfl | rfl | rfl | rfl | rfl | rfl | rfl | rfl | rfl
  all_goals rfl

/-- **A frame takes at most thirty-three rounds and three turns.** -/
theorem endsWithin (hcloses : Bisection.closesWithin 10 (leastShift : κ) greatestShift = true)
    {p : Pipeline κ Frame Fields} (hp : IsFramePipeline p) (frame : Frame) :
    p.EndsWithin ((fixedLengths.length + 1) * roundTurns + closingTurns) frame := by
  refine endsWithin_of_isLowered (isLowered_suffices hcloses) ?_ hp (by decide) ?_
  · intro stage hstage frame fields
    rw [emit_of_mem_stages hstage]
    exact Emission.faultsIn_of_clean (Fields.fault_emit fields)
  · have hmost : frame.mostUnits ≤ fixedLengths.length := Nat.min_le_right ..
    have hrounds := Nat.mul_le_mul_right roundTurns (Nat.succ_le_succ hmost)
    exact Nat.add_le_add_right hrounds closingTurns

end Atrac3Plus

end SpectralCoding
