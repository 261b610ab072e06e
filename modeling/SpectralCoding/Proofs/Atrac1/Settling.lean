import SpectralCoding.Proofs.Atrac1.UnitBudget
import SpectralCoding.Proofs.Bits.Bytes
import SpectralCoding.Proofs.Pipeline.Turns
import SpectralCoding.Proofs.Search.Closing

/-!
# An ATRAC1 sound unit settles

A turn of the second stage either ends the search, lowers the number of blocks, or closes the search
further; and there are only so many blocks and so many shifts. Counted out, a unit takes at most
twelve turns for each number of blocks, which is far from the limit. It does not matter for this
whether the blocks of the frame are those of a spectrum.

* `Atrac1.allotting_cases` : what a talk of the second stage leaves behind.
* `Atrac1.Suffices` : a count of turns that suffices from in front of a stage.
* `Atrac1.isLowered_suffices` : every turn lowers it.
* `Atrac1.endsWithin` : **a unit takes at most ninety-six turns, whatever its blocks.**
* `Atrac1.exists_settle_eq_ok`, `Atrac1.fault_encode` : the stages of a unit settle, and it is put
  out.
* `Atrac1.exists_encodeUnit` : a spectrum of the right length becomes a unit of full size.
-/

namespace SpectralCoding

namespace Atrac1

open Pipeline

variable {κ : Type} [Dial κ] {isAuto isFast : Bool} {start : Frame}
  {s : Progress κ Frame (List Nat)}

/-! ### Turns -/

/-- A talk of the second stage fails for want of blocks; or calls for a return, having put to the
search one cost that did not stand; or settles lengths. -/
theorem allotting_cases {frame : Frame} {memory : List Nat} {position spent : Nat}
    {desk after : Desk κ} {t : Turn Frame (List Nat)} (hclosed : desk.isReopened = false)
    (hwork : ((allotting isAuto isFast).work frame memory).run position spent desk = (t, after)) :
    (¬frame.HasBlocks ∧ t.verdict = .error .outOfRange) ∨
      (after.isReopened = true ∧ t = { frame, memory, verdict := .ok .proceed } ∧
        after.anchor = (if desk.search.isCollapsed then desk.anchor else position) ∧
        ∃ cost, (desk.search.probe.2.submit cost).1 = false ∧
          after.search = (desk.search.probe.2.submit cost).2) ∨
      (after.isReopened = false ∧ ∃ lengths bits,
        t = settleLengths isAuto isFast frame memory lengths bits) := by
  by_cases hblocks : frame.HasBlocks
  swap
  · left
    obtain ⟨_, hfails⟩ :=
      allotting_talk_of_not_hasBlocks isAuto isFast hblocks memory position spent desk
    obtain ⟨rfl, -⟩ := Prod.mk.inj (hfails.symm.trans hwork)
    exact ⟨hblocks, rfl⟩
  right
  simp only [allotting, Frame.lengthsAt?_of_hasBlocks hblocks, Negotiation.run] at hwork
  generalize frame.lengthsAt (Dial.toFloat32 desk.search.probe.1) = lengths at hwork
  generalize mantissaBits lengths Layout.atrac1.lines = cost at hwork
  split at hwork
  · obtain ⟨rfl, rfl⟩ := Prod.mk.inj hwork
    exact .inr ⟨hclosed, lengths, cost, rfl⟩
  · cases hstands : (desk.search.probe.2.submit cost).1 with
    | true =>
      simp only [Negotiation.run, hstands, if_true] at hwork
      obtain ⟨rfl, rfl⟩ := Prod.mk.inj hwork
      exact .inr ⟨rfl, _, _, rfl⟩
    | false =>
      simp only [Negotiation.run, hstands] at hwork
      obtain ⟨rfl, rfl⟩ := Prod.mk.inj hwork
      exact .inl ⟨rfl, rfl, rfl, cost, hstands, rfl⟩

/-- The most turns for one number of blocks: one to set the budget, ten that close the search
further, and the last. -/
def roundTurns : Nat := 12

/-- So many turns suffice from in front of a stage. -/
def Suffices (turns : Nat) : (position : Nat) → Progress κ Frame (List Nat) → Prop
  | 0, s => (s.frame.index + 1) * roundTurns ≤ turns
  | 1, s => ∃ tries, Bisection.closesWithin tries s.desk.search.lo s.desk.search.hi = true ∧
      s.frame.index * roundTurns + tries + 1 ≤ turns
  | _ + 2, _ => True

theorem suffices_budgeting
    (hcloses : Bisection.closesWithin 10 (leastShift : κ) greatestShift = true) (idle : List Nat)
    (hclosed : s.desk.isReopened = false) {turns : Nat} (h : Suffices (turns + 1) 0 s) :
    (turn 0 ⟨budgeting, idle⟩ s).Leads (Suffices turns) Error.IsOfStage := by
  cases hcount : blockCounts[s.frame.index]? with
  | none =>
    have hwork : ((budgeting : Stage κ Frame (List Nat)).work s.frame idle).run 0
        (Slot.totalCost (s.slots.take 0)) s.desk =
          ({ frame := s.frame, memory := idle, verdict := .error (.blockIndex s.frame.index) },
            s.desk) := by
      simp only [budgeting, hcount, Negotiation.run]
    refine turn_leads_of_error hwork rfl ?_
    rintro _ ⟨⟩
  | some count =>
    refine turn_leads_of_proceed (budgeting_talk hcount idle _ _) rfl hclosed ⟨10, hcloses, ?_⟩
    simp only [Suffices, roundTurns, Progress.after] at h ⊢
    omega

theorem suffices_allotting (lengths : List Nat) (hclosed : s.desk.isReopened = false)
    {turns : Nat} (h : Suffices (turns + 1) 1 s) :
    (turn 1 ⟨allotting isAuto isFast, lengths⟩ s).Leads (Suffices turns) Error.IsOfStage := by
  obtain ⟨tries, hcloses, hturns⟩ := h
  rcases hwork : ((allotting isAuto isFast).work s.frame lengths).run 1
    (Slot.totalCost (s.slots.take 1)) s.desk with ⟨t, after⟩
  rcases allotting_cases hclosed hwork with
    ⟨-, hfails⟩ | ⟨hreopened, rfl, hanchor, cost, hstands, hsearch⟩ | ⟨hclosed, chosen, bits, rfl⟩
  · refine turn_leads_of_error hwork hfails ?_
    rintro _ ⟨⟩
  · obtain ⟨hopen, fewer, rfl, hfewer⟩ := Bisection.closesWithin_of_reopened hcloses hstands
    refine turn_leads_of_reopened hwork rfl hreopened ?_
    -- only an open search reopens, and its anchor is this stage
    rw [hanchor, if_neg (by simp [hopen])]
    refine ⟨fewer, ?_, ?_⟩
    · simpa only [Progress.after, hsearch] using hfewer
    · simp only [Progress.after]
      omega
  · rcases settleLengths_cases s.frame lengths chosen bits
      with ⟨-, lowered, hlt, hsettle⟩ | ⟨-, hsettle⟩ <;>
      rw [hsettle] at hwork
    · refine turn_leads_of_restart hwork rfl hclosed ?_
      simp only [Suffices, roundTurns, Progress.restarted, Progress.after] at hturns ⊢
      omega
    · exact turn_leads_of_proceed hwork rfl hclosed trivial

theorem isLowered_suffices
    (hcloses : Bisection.closesWithin 10 (leastShift : κ) greatestShift = true) :
    IsLowered ((stages isAuto isFast).map (·.1) : List (Stage κ Frame (List Nat))) Suffices := by
  intro turns position stage memory s hstage hclosed h
  match position, hstage with
  | 0, hstage =>
    obtain rfl := Option.some.inj hstage
    obtain ⟨turns, rfl⟩ : ∃ fewer, turns = fewer + 1 :=
      ⟨turns - 1, by simp only [Suffices, roundTurns] at h; omega⟩
    exact ⟨turns, Nat.lt_succ_self turns, suffices_budgeting hcloses memory hclosed h⟩
  | 1, hstage =>
    obtain rfl := Option.some.inj hstage
    obtain ⟨turns, rfl⟩ : ∃ fewer, turns = fewer + 1 := by
      obtain ⟨tries, -, hturns⟩ := h
      exact ⟨turns - 1, by omega⟩
    exact ⟨turns, Nat.lt_succ_self turns, suffices_allotting memory hclosed h⟩
  | _ + 2, hstage => cases hstage

/-! ### Units -/

theorem faultsIn_windowFields (windows : WindowMode) :
    (SoundUnit.windowFields windows).FaultsIn Error.IsOfStage := by
  refine Emission.faultsIn_each fun ⟨⟨limit, band⟩, count⟩ _ => ?_
  dsimp only
  split
  · exact Emission.faultsIn_fail nofun
  · exact Emission.faultsIn_of_clean rfl

/-- What a unit puts out does not break off for want of turns. -/
theorem faultsIn_emit (u : SoundUnit) (blocks : List ScaledBlock) :
    (u.emit blocks).FaultsIn Error.IsOfStage := by
  have hbody : (u.body blocks).FaultsIn Error.IsOfStage := by
    refine (faultsIn_windowFields u.windows).append (Emission.faultsIn_of_clean ?_)
    simp [SoundUnit.mantissas_eq, Emission.fault_each_eq_none]
  unfold SoundUnit.emit
  dsimp only
  split
  · exact hbody.append (Emission.faultsIn_fail nofun)
  · exact hbody

theorem endsWithin_of_index_le
    (hcloses : Bisection.closesWithin 10 (leastShift : κ) greatestShift = true)
    {p : Pipeline κ Frame (List Nat)} (hp : IsChannelPipeline isAuto isFast p)
    (hindex : start.index ≤ lastIndex) :
    p.EndsWithin ((start.index + 1) * roundTurns) start := by
  have henough : (start.index + 1) * roundTurns ≤ runLimit := by
    have hlast : lastIndex = 7 := rfl
    simp only [roundTurns, runLimit]
    omega
  refine endsWithin_of_isLowered (isLowered_suffices hcloses) ?_ hp henough (Nat.le_refl _)
  intro stage hstage frame memory
  simp only [stages, List.map_cons, List.map_nil, List.mem_cons, List.not_mem_nil, or_false]
    at hstage
  rcases hstage with rfl | rfl
  · exact Emission.faultsIn_of_clean rfl
  · exact faultsIn_emit _ _

/-- **A unit takes at most ninety-six turns, whatever its blocks and the number of them.** -/
theorem endsWithin (hcloses : Bisection.closesWithin 10 (leastShift : κ) greatestShift = true)
    {p : Pipeline κ Frame (List Nat)} (hp : IsChannelPipeline isAuto isFast p) (start : Frame) :
    p.EndsWithin ((lastIndex + 1) * roundTurns) start := by
  by_cases hindex : start.index ≤ lastIndex
  · refine (endsWithin_of_index_le hcloses hp hindex).mono ?_
    exact Nat.mul_le_mul_right roundTurns (Nat.succ_le_succ hindex)
  · -- the first stage has no number of blocks for the index
    obtain ⟨slot, s, hslot, hturn⟩ := exists_turn_failed hp (Nat.lt_of_not_le hindex)
    have hstage : (Error.blockIndex start.index).IsOfStage := by
      rintro _ ⟨⟩
    exact (endsWithin_of_turn_failed hslot hturn hstage).mono (by decide)

/-- **The stages of a unit settle.** -/
theorem exists_settle_eq_ok
    (hcloses : Bisection.closesWithin 10 (leastShift : κ) greatestShift = true)
    {p : Pipeline κ Frame (List Nat)} (hp : IsChannelPipeline isAuto isFast p)
    (hblocks : Layout.atrac1.IsFilledBy start.blocks) (hindex : start.index ≤ lastIndex) :
    ∃ last, settle runLimit 0 (p.fresh start) = (.ok (), last) :=
  Pipeline.exists_settle_eq_ok (isKept_inFront hblocks hindex) (inFront_fresh hp start)
    (endsWithin_of_index_le hcloses hp hindex)

theorem fault_encode (hcloses : Bisection.closesWithin 10 (leastShift : κ) greatestShift = true)
    {p : Pipeline κ Frame (List Nat)} (hp : IsChannelPipeline isAuto isFast p)
    (hblocks : Layout.atrac1.IsFilledBy start.blocks) (hindex : start.index ≤ lastIndex)
    (hwindows : fitsWindowFields start.windows = true) :
    (p.encode start).emission.fault = none := by
  obtain ⟨last, hrun⟩ : ∃ last, settle runLimit 0 (p.fresh start) = (.ok (), last) :=
    exists_settle_eq_ok hcloses hp hblocks hindex
  obtain ⟨past, s, hpast, hs, hput⟩ := encode_of_isOk (isKept_inFront hblocks hindex) p start
    (inFront_fresh hp start) (by rw [hrun]; rfl)
  rw [hput]
  exact (put_of_inFront hblocks (isCodable_of_fitsWindowFields hwindows) hpast hs).1

/-- A spectrum of another length than that of a frame is refused. -/
theorem encodeUnit_of_length_ne {p : ChannelPipeline} {index : Nat} {loudness : Float32}
    {ch : ChannelSpectrum} (hlength : ch.lines.length ≠ Layout.atrac1.frameLines) :
    encodeUnit index loudness p ch =
      (.error (.spectrumLength ch.lines.length Layout.atrac1.frameLines), p) := by
  simp [encodeUnit, Layout.scaleFrame, hlength]

/-- A spectrum of the length of a frame becomes a unit of full size. -/
theorem exists_encodeUnit {p : ChannelPipeline} (hp : IsChannelPipeline isAuto isFast p)
    {index : Nat} (hindex : index ≤ lastIndex) (loudness : Float32) {ch : ChannelSpectrum}
    (hwindows : fitsWindowFields ch.windows = true)
    (hlength : ch.lines.length = Layout.atrac1.frameLines) :
    ∃ bytes p', encodeUnit index loudness p ch = (.ok bytes, p') ∧ bytes.length = unitBytes := by
  obtain ⟨blocks, hscale⟩ : ∃ blocks, Layout.atrac1.scaleFrame ch.lines ch.windows = .ok blocks :=
    ⟨_, Layout.scaleFrame_of_length hlength⟩
  have hblocks := Layout.isFilledBy_of_scaleFrame Layout.isWithin_atrac1 hscale
  let frame : Frame := { blocks, windows := ch.windows, loudness, spread := spread blocks, index }
  have hkept : IsKept (InFront isAuto isFast frame : Nat → Progress Float32 Frame (List Nat) → Prop)
      fun _ => False := isKept_inFront hblocks hindex
  obtain ⟨last, hrun⟩ : ∃ last, settle runLimit 0 (p.fresh frame) = (.ok (), last) :=
    exists_settle_eq_ok Bisection.closesWithin_float32 hp hblocks hindex
  obtain ⟨past, s, hpast, hs, hput⟩ := encode_of_isOk hkept p frame (inFront_fresh hp frame)
    (by rw [hrun]; rfl)
  obtain ⟨hclean, -, -, -, -, hlength, hle⟩ :=
    put_of_inFront hblocks (isCodable_of_fitsWindowFields hwindows) hpast hs
  have hcapacity : s.put.emission.bits.length ≤ unitBytes * 8 := by
    rw [hlength]
    exact hle
  refine ⟨_, s.put.pipeline, ?_, BitWriter.length_finish_of_le hcapacity⟩
  unfold frame at hput
  simp only [encodeUnit, hscale, hput, hclean]
  rfl

end Atrac1

end SpectralCoding
