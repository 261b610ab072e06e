import SpectralCoding.Proofs.Atrac1.UnitBits
import SpectralCoding.Proofs.Pipeline.Run

/-!
# An ATRAC1 sound unit within its capacity

The budget for mantissas is what the capacity leaves beside the fixed fields of the number of blocks
in force. The number of blocks may fall while a frame is on its way, and with it the budget changes;
so the invariant ties all three together.

* `Atrac1.allotting_talk` : the two ways a turn of the second stage can end.
* `Atrac1.InFront` : what holds in front of a stage.
* `Atrac1.isKept_inFront` : every turn keeps it, and no turn fails.
* `Atrac1.encode_fits` : **a unit is as long as was foretold, and never longer than its capacity.**
-/

namespace SpectralCoding

namespace Atrac1

open Pipeline

variable {κ : Type} [Dial κ] {isAuto isFast : Bool}

/-! ### A turn of the second stage -/

/-- The word lengths of a frame at a shift. -/
def Frame.lengthsAt (frame : Frame) (shift : Float32) : List Nat :=
  wordLengths frame.blocks (blockCounts.getD frame.index 0) frame.spread shift
    frame.windows frame.loudness

/-- The frame has blocks to allot lengths to. -/
def Frame.HasBlocks (frame : Frame) : Prop := blockCounts.getD frame.index 0 ≤ frame.blocks.length

theorem Frame.lengthsAt?_of_hasBlocks {frame : Frame} (h : frame.HasBlocks) (shift : Float32) :
    frame.lengthsAt? shift = .ok (frame.lengthsAt shift) :=
  if_pos ⟨h, getD_blockCounts_le _⟩

theorem Frame.lengthsAt?_of_not_hasBlocks {frame : Frame} (h : ¬frame.HasBlocks) (shift : Float32) :
    frame.lengthsAt? shift = .error .outOfRange :=
  if_neg fun hcount => h hcount.1

/-- Word lengths for the blocks of a frame with their cost, within `target`. -/
structure IsAllotment (frame : Frame) (target : Nat) (lengths : List Nat) (bits : Nat) : Prop where
  count : lengths.length = blockCounts.getD frame.index 0
  fits : ∀ l ∈ lengths, IsWordLength l
  cost : bits = mantissaBits lengths Layout.atrac1.lines
  affordable : bits ≤ target

theorem isAllotment_lengthsAt {frame : Frame} (hframe : frame.HasBlocks) {target : Nat}
    {shift : Float32} (hle : mantissaBits (frame.lengthsAt shift) Layout.atrac1.lines ≤ target) :
    IsAllotment frame target (frame.lengthsAt shift)
      (mantissaBits (frame.lengthsAt shift) Layout.atrac1.lines) :=
  ⟨length_wordLengths hframe, fun _ h => isWordLength_of_mem_wordLengths h, rfl, hle⟩

theorem isAllotment_trim {frame : Frame} (hframe : frame.HasBlocks) (target : Nat)
    (shift : Float32) :
    IsAllotment frame target (trim target (frame.lengthsAt shift) Layout.atrac1.lines).1
      (trim target (frame.lengthsAt shift) Layout.atrac1.lines).2 :=
  ⟨length_trim.trans (length_wordLengths hframe),
    fun _ h => isWordLength_of_mem_trim (fun _ h => isWordLength_of_mem_wordLengths h) h,
    cost_trim, cost_trim_le⟩

/-- Without blocks to allot lengths to, a turn of the second stage fails. -/
theorem allotting_talk_of_not_hasBlocks (isAuto isFast : Bool) {frame : Frame}
    (hframe : ¬frame.HasBlocks) (memory : List Nat) (position spent : Nat) (desk : Desk κ) :
    ∃ after, ((allotting isAuto isFast).work frame memory).run position spent desk =
      ({ frame, memory, verdict := .error .outOfRange }, after) := by
  simp only [allotting, Negotiation.run, Frame.lengthsAt?_of_not_hasBlocks hframe]
  exact ⟨_, rfl⟩

/-- A turn of the second stage returns to the search, or settles lengths within the target. -/
theorem allotting_talk (isAuto isFast : Bool) {frame : Frame} (hframe : frame.HasBlocks)
    (memory : List Nat) (position spent : Nat) {desk : Desk κ} (hclosed : desk.isReopened = false) :
    ∃ t after, ((allotting isAuto isFast).work frame memory).run position spent desk = (t, after) ∧
      after.search.target = desk.search.target ∧
      (after.anchor = desk.anchor ∨ after.anchor = position) ∧
      (after.isReopened = true ∧ t = { frame, memory, verdict := .ok .proceed } ∨
        after.isReopened = false ∧ ∃ lengths bits,
        IsAllotment frame desk.search.target lengths bits ∧
          t = settleLengths isAuto isFast frame memory lengths bits) := by
  have hanchor : (if desk.search.isCollapsed then desk.anchor else position) = desk.anchor ∨
      (if desk.search.isCollapsed then desk.anchor else position) = position := by
    split
    · exact .inl rfl
    · exact .inr rfl
  obtain ⟨shift, search, hprobe, htarget⟩ := desk.search.exists_probe
  have hlengths := Frame.lengthsAt?_of_hasBlocks hframe (Dial.toFloat32 shift)
  simp only [allotting, Negotiation.run, hprobe, hlengths, htarget]
  split
  · rename_i hwindow
    exact ⟨_, _, rfl, htarget, hanchor,
      .inr ⟨hclosed, _, _, isAllotment_lengthsAt hframe hwindow.1, rfl⟩⟩
  · obtain ⟨stands, search', hsubmit, htarget'⟩ := search.exists_submit
      (mantissaBits (frame.lengthsAt (Dial.toFloat32 shift)) Layout.atrac1.lines)
    rw [htarget] at htarget'
    simp only [Negotiation.run, hsubmit]
    cases stands with
    | false => exact ⟨_, _, rfl, htarget', hanchor, .inl ⟨rfl, rfl⟩⟩
    | true =>
      refine ⟨_, _, rfl, htarget', hanchor, .inr ⟨rfl, ?_⟩⟩
      by_cases hover : desk.search.target < mantissaBits (frame.lengthsAt (Dial.toFloat32 shift))
        Layout.atrac1.lines
      · refine ⟨_, _, isAllotment_trim hframe _ (Dial.toFloat32 shift), ?_⟩
        simp only [hover, if_true]
      · refine ⟨_, _, isAllotment_lengthsAt hframe (Nat.not_lt.1 hover), ?_⟩
        simp only [hover, if_false]

/-! ### Lengths that settle -/

/-- Lengths that a unit of the frame has room for. -/
structure IsSettled (frame : Frame) (lengths : List Nat) : Prop where
  count : blockCounts[frame.index]? = some lengths.length
  fits : ∀ l ∈ lengths, IsWordLength l
  affordable : mantissaBits lengths Layout.atrac1.lines ≤ availableBits lengths.length

/-- The budget is that of the number of blocks in force, and the search aims at it. -/
def IsBudgeted (frame : Frame) (target : Nat) : Prop :=
  target = frame.budget ∧ ∃ count, blockCounts[frame.index]? = some count ∧
  frame.budget = availableBits count

theorem isSettled_boost {frame : Frame} {target bits : Nat} {lengths : List Nat}
    (hbudget : IsBudgeted frame target) (h : IsAllotment frame target lengths bits) :
    IsSettled frame (boost lengths bits frame.budget).lengths := by
  obtain ⟨rfl, count, hcount, hbudget⟩ := hbudget
  have hgrown := boost_isGrown lengths bits frame.budget
  have hlength : (boost lengths bits frame.budget).lengths.length = count := by
    rw [hgrown.length, h.count, List.getD_eq_getElem?_getD, hcount, Option.getD_some]
  refine ⟨by rw [hlength, hcount], hgrown.fits h.fits, ?_⟩
  have htotal := hgrown.total
  have hcost := h.cost
  have haffordable := h.affordable
  rw [hlength, ← hbudget]
  simp only at htotal
  omega

theorem loweredIndex_cases (isAuto isFast : Bool) (index used : Nat) :
    (isAuto = true ∧ ∃ lowered < index, loweredIndex isAuto isFast index used = some lowered) ∨
      ((isAuto = true → index ≤ used) ∧ loweredIndex isAuto isFast index used = none) := by
  unfold loweredIndex
  by_cases hlower : (isAuto && decide (used < index)) = true
  · obtain ⟨hauto, hused⟩ := Bool.and_eq_true_iff.1 hlower
    have hused := of_decide_eq_true hused
    refine .inl ⟨hauto, if isFast then used else index - 1, ?_, if_pos hlower⟩
    split <;> omega
  · refine .inr ⟨fun hauto => ?_, if_neg hlower⟩
    simpa [hauto] using hlower

/-- Settling lengths lowers an automatic index and calls for a restart, or goes on with the lengths
boosted, which an automatic index has in use to the last tier. -/
theorem settleLengths_cases (frame : Frame) (memory lengths : List Nat) (bits : Nat) :
    (isAuto = true ∧ ∃ lowered < frame.index,
        settleLengths isAuto isFast frame memory lengths bits =
          { frame := { frame with index := lowered }, memory, verdict := .ok .restart }) ∨
      ((isAuto = true → frame.index ≤ usedIndex lengths) ∧
        settleLengths isAuto isFast frame memory lengths bits =
          { frame, memory := (boost lengths bits frame.budget).lengths,
            verdict := .ok .proceed }) := by
  rcases loweredIndex_cases isAuto isFast frame.index (usedIndex lengths) with
    ⟨hauto, lowered, hlt, hlowered⟩ | ⟨hused, hstays⟩
  · refine .inl ⟨hauto, lowered, hlt, ?_⟩
    simp only [settleLengths, hlowered]
  · refine .inr ⟨hused, ?_⟩
    simp only [settleLengths, hstays]

/-! ### The invariant -/

/-- The frame is `start` with the index lowered, and with whatever budget. -/
def Frame.IsLowered (frame start : Frame) : Prop :=
  ∃ index budget, index ≤ start.index ∧ frame = { start with index, budget }

/-- What holds in front of a stage of a frame taken up as `start`. -/
structure InFront (isAuto isFast : Bool) (start : Frame) (position : Nat)
    (s : Progress κ Frame (List Nat)) : Prop where
  lowered : s.frame.IsLowered start
  closed : s.desk.isReopened = false
  anchor : s.desk.anchor ≤ 1
  budgeted : 1 ≤ position → IsBudgeted s.frame s.desk.search.target
  slots : ∃ idle lengths, s.slots = [⟨budgeting, idle⟩, ⟨allotting isAuto isFast, lengths⟩] ∧
    (2 ≤ position → IsSettled s.frame lengths)

variable {start : Frame} {s : Progress κ Frame (List Nat)}

theorem Frame.IsLowered.index_le {frame : Frame} (h : frame.IsLowered start) :
    frame.index ≤ start.index := by
  obtain ⟨index, budget, hindex, rfl⟩ := h
  exact hindex

theorem Frame.IsLowered.of_lt {frame : Frame} (h : frame.IsLowered start) {lowered : Nat}
    (hlt : lowered < frame.index) : ({ frame with index := lowered } : Frame).IsLowered start := by
  obtain ⟨index, budget, hindex, rfl⟩ := h
  exact ⟨lowered, budget, Nat.le_trans (Nat.le_of_lt hlt) hindex, rfl⟩

theorem exists_blockCount {index : Nat} (h : index ≤ lastIndex) :
    ∃ count, blockCounts[index]? = some count ∧ count ≤ Layout.atrac1.blocks := by
  have hlt : index < blockCounts.length := Nat.lt_succ_of_le h
  exact ⟨blockCounts[index], List.getElem?_eq_getElem hlt,
    le_blocks_of_mem_blockCounts _ (List.getElem_mem hlt)⟩

theorem blockCounts_le_of_le : ∀ index ≤ lastIndex, ∀ lower ≤ index,
    blockCounts.getD lower 0 ≤ blockCounts.getD index 0 := by
  decide

/-- Blocks that fill the layout are enough for every index. -/
theorem hasBlocks_of_isFilledBy {frame : Frame}
    (hblocks : Layout.atrac1.IsFilledBy frame.blocks) : frame.HasBlocks := by
  unfold Frame.HasBlocks
  rw [hblocks.length]
  exact getD_blockCounts_le _

theorem Frame.IsLowered.hasBlocks {frame : Frame} (h : frame.IsLowered start)
    (hblocks : start.HasBlocks) (hindex : start.index ≤ lastIndex) : frame.HasBlocks := by
  obtain ⟨index, budget, hlowered, rfl⟩ := h
  exact Nat.le_trans (blockCounts_le_of_le _ hindex _ hlowered) hblocks

theorem budgeting_talk {frame : Frame} {count : Nat}
    (hcount : blockCounts[frame.index]? = some count) (memory : List Nat) (spent : Nat)
    (desk : Desk κ) :
    ((budgeting : Stage κ Frame (List Nat)).work frame memory).run 0 spent desk =
      ({ frame := { frame with budget := availableBits count }, memory, verdict := .ok .proceed },
        { desk with search := .start (availableBits count) leastShift greatestShift }) := by
  simp only [budgeting, hcount, Negotiation.run]

theorem turn_budgeting (hindex : start.index ≤ lastIndex) (idle : List Nat)
    (hs : InFront isAuto isFast start 0 s) :
    (turn 0 ⟨budgeting, idle⟩ s).Leads (InFront isAuto isFast start) fun _ => False := by
  obtain ⟨count, hcount, -⟩ := exists_blockCount (Nat.le_trans hs.lowered.index_le hindex)
  obtain ⟨idle', lengths, hslots, -⟩ := hs.slots
  obtain ⟨index, budget, hlowered, hframe⟩ := hs.lowered
  refine turn_leads_of_proceed (budgeting_talk hcount idle _ _) rfl hs.closed
    ⟨⟨index, availableBits count, hlowered, ?_⟩, hs.closed, hs.anchor,
      fun _ => ⟨rfl, count, hcount, rfl⟩, idle, lengths, ?_, ?_⟩
  · simp [Progress.after, hframe]
  · simp [Progress.after, hslots]
  · intro h
    omega

/-- The second stage returns to the search or the first stage, or leaves lengths that settle. -/
theorem turn_allotting (hblocks : start.HasBlocks) (hindex : start.index ≤ lastIndex)
    (lengths : List Nat) (hs : InFront isAuto isFast start 1 s) :
    (turn 1 ⟨allotting isAuto isFast, lengths⟩ s).Leads
      (InFront isAuto isFast start) fun _ => False := by
  obtain ⟨idle, lengths', hslots, -⟩ := hs.slots
  have hframe := hs.lowered.hasBlocks hblocks hindex
  obtain ⟨t, after, hwork, htarget, hanchor, hend⟩ := allotting_talk isAuto isFast hframe lengths 1
    (Slot.totalCost (s.slots.take 1)) hs.closed
  have hbudgeted : IsBudgeted s.frame s.desk.search.target := hs.budgeted (Nat.le_refl 1)
  have hstill : IsBudgeted s.frame after.search.target := by rwa [htarget]
  have hle : after.anchor ≤ 1 := by
    have h := hs.anchor
    omega
  rcases hend with ⟨hreopened, rfl⟩ | ⟨hclosed, chosen, bits, hallotment, rfl⟩
  · refine turn_leads_of_reopened hwork rfl hreopened ⟨hs.lowered, rfl, hle, fun _ => hstill, idle,
      lengths, ?_, ?_⟩
    · simp [Progress.after, hslots]
    · intro h
      exact absurd (Nat.le_trans h hle) (by decide)
  · rcases settleLengths_cases s.frame lengths chosen bits
      with ⟨-, lowered, hlt, hsettle⟩ | ⟨-, hsettle⟩ <;>
      rw [hsettle] at hwork
    · refine turn_leads_of_restart hwork rfl hclosed ⟨hs.lowered.of_lt hlt, hclosed, Nat.zero_le 1,
        ?_, idle, lengths, ?_, ?_⟩
      · exact fun h => absurd h (by decide)
      · simp [Progress.restarted, Progress.after, hslots, Slot.forget, budgeting]
      · exact fun h => absurd h (by decide)
    · refine turn_leads_of_proceed hwork rfl hclosed ⟨hs.lowered, hclosed, hle,
        fun _ => hstill, idle, _, ?_, fun _ => isSettled_boost hbudgeted hallotment⟩
      simp [Progress.after, hslots]

theorem isKept_inFront_of_hasBlocks (hblocks : start.HasBlocks) (hindex : start.index ≤ lastIndex) :
    IsKept (InFront isAuto isFast start : Nat → Progress κ Frame (List Nat) → Prop)
      fun _ => False := by
  intro position slot s hslot hs
  obtain ⟨idle, lengths, hslots, -⟩ := hs.slots
  rw [hslots] at hslot
  match position, hslot with
  | 0, hslot =>
    obtain rfl := Option.some.inj hslot
    exact turn_budgeting hindex idle hs
  | 1, hslot =>
    obtain rfl := Option.some.inj hslot
    exact turn_allotting hblocks hindex lengths hs
  | _ + 2, hslot => cases hslot

theorem isKept_inFront (hblocks : Layout.atrac1.IsFilledBy start.blocks)
    (hindex : start.index ≤ lastIndex) :
    IsKept (InFront isAuto isFast start : Nat → Progress κ Frame (List Nat) → Prop)
      fun _ => False :=
  isKept_inFront_of_hasBlocks (hasBlocks_of_isFilledBy hblocks) hindex

/-! ### Units -/

/-- The stages of one channel, whatever they remember of the frame before and wherever their search
stands. -/
def IsChannelPipeline (isAuto isFast : Bool) (p : Pipeline κ Frame (List Nat)) : Prop :=
  p.slots.map (·.stage) = (stages isAuto isFast).map (·.1)

theorem inFront_fresh {p : Pipeline κ Frame (List Nat)} (hp : IsChannelPipeline isAuto isFast p)
    (start : Frame) :
    InFront isAuto isFast start 0 (p.fresh start) := by
  unfold IsChannelPipeline at hp
  match hslots : p.slots, hp with
  | [⟨_, first⟩, ⟨_, second⟩], hp =>
    simp only [stages, List.map_cons, List.map_nil, List.cons.injEq, and_true] at hp
    obtain ⟨rfl, rfl⟩ := hp
    refine ⟨⟨start.index, start.budget, Nat.le_refl _, rfl⟩, rfl, Nat.zero_le 1, ?_,
      first, [], ?_, ?_⟩
    · exact fun h => absurd h (by decide)
    · simp [fresh, hslots, Slot.forget, budgeting, allotting]
    · exact fun h => absurd h (by decide)

/-- A frame with an index past the last is refused in the first turn. -/
theorem exists_turn_failed {p : Pipeline κ Frame (List Nat)} (hp : IsChannelPipeline isAuto isFast p)
    (hindex : lastIndex < start.index) :
    ∃ slot s, (p.fresh start).slots[0]? = some slot ∧
      turn 0 slot (p.fresh start) = .failed (.blockIndex start.index) s := by
  have hcount : blockCounts[start.index]? = none := List.getElem?_eq_none_iff.2 hindex
  obtain ⟨idle, lengths, hslots, -⟩ := (inFront_fresh hp start).slots
  have hturn : ∃ s, turn 0 ⟨budgeting, idle⟩ (p.fresh start) =
      .failed (.blockIndex start.index) s := by
    have hframe : (p.fresh start).frame = start := rfl
    simp only [turn, budgeting, hframe, hcount, Negotiation.run]
    exact ⟨_, rfl⟩
  obtain ⟨s, hturn⟩ := hturn
  exact ⟨⟨budgeting, idle⟩, s, by rw [hslots]; rfl, hturn⟩

theorem cost_le_unitBits {frame : Frame} {lengths : List Nat} (h : IsSettled frame lengths) :
    SoundUnit.cost lengths ≤ unitBits := by
  have hcount : lengths.length ≤ 52 :=
    le_blocks_of_mem_blockCounts _ (List.mem_of_getElem? h.count)
  have haffordable := h.affordable
  unfold SoundUnit.cost
  simp only [availableBits, unitBits, unitBytes, indexWidth, lengthWidth, scaleWidth, headerBits,
    trailerBits] at haffordable ⊢
  omega

/-- The unit of a frame on given word lengths. -/
def Frame.unitOn (frame : Frame) (lengths : List Nat) : SoundUnit :=
  { windows := frame.windows, index := frame.index, lengths }

theorem emission_put {idle lengths : List Nat}
    (hslots : s.slots = [⟨budgeting, idle⟩, ⟨allotting isAuto isFast, lengths⟩]) :
    s.put.emission = (s.frame.unitOn lengths).emit s.frame.blocks := by
  simp [Progress.put, hslots, Emission.each, Slot.emit, budgeting, allotting, Frame.unitOn]

theorem emit_of_isSettled {frame : Frame} {lengths : List Nat}
    (hblocks : Layout.atrac1.IsFilledBy frame.blocks) (hwindows : IsCodable frame.windows)
    (h : IsSettled frame lengths) :
    ((frame.unitOn lengths).emit frame.blocks).fault = none ∧
      ((frame.unitOn lengths).emit frame.blocks).bits.length = SoundUnit.cost lengths := by
  have hcount : lengths.length ≤ frame.blocks.length := by
    rw [hblocks.length]
    exact le_blocks_of_mem_blockCounts _ (List.mem_of_getElem? h.count)
  have hlength : ((frame.unitOn lengths).body frame.blocks).bits.length = SoundUnit.cost lengths :=
    SoundUnit.length_body hwindows hblocks hcount h.fits
  rw [SoundUnit.emit_of_le (by rw [hlength]; exact cost_le_unitBits h)]
  exact ⟨SoundUnit.fault_body hwindows _, hlength⟩

theorem put_of_inFront (hblocks : Layout.atrac1.IsFilledBy start.blocks)
    (hwindows : IsCodable start.windows) {last : Nat} (hlast : s.slots.length ≤ last)
    (hs : InFront isAuto isFast start last s) :
    s.put.emission.fault = none ∧
      ∃ idle lengths,
        s.put.pipeline.slots = [⟨budgeting, idle⟩, ⟨allotting isAuto isFast, lengths⟩] ∧
        (∀ l ∈ lengths, IsWordLength l) ∧ s.put.emission.bits.length = s.put.pipeline.cost ∧
        s.put.pipeline.cost ≤ unitBits := by
  obtain ⟨idle, lengths, hslots, hsettled⟩ := hs.slots
  obtain ⟨index, budget, -, hframe⟩ := hs.lowered
  have hpast : 2 ≤ last := by simpa [hslots] using hlast
  have hsettled := hsettled hpast
  have hblocks' : Layout.atrac1.IsFilledBy s.frame.blocks := by rwa [hframe]
  have hwindows' : IsCodable s.frame.windows := by rwa [hframe]
  obtain ⟨hclean, hlength⟩ := emit_of_isSettled hblocks' hwindows' hsettled
  have hemission := emission_put hslots
  have hcost : s.put.pipeline.cost = SoundUnit.cost lengths := by
    simp [Progress.put, hslots, Pipeline.cost, Slot.totalCost, Slot.cost, budgeting, allotting]
  refine ⟨by rw [hemission, hclean], idle, lengths, hslots, hsettled.fits, ?_, ?_⟩
  · rw [hemission, hlength, hcost]
  · rw [hcost]
    exact cost_le_unitBits hsettled

/-- **A unit is as long as was foretold, and never longer than its capacity.** -/
theorem encode_fits {p : Pipeline κ Frame (List Nat)}
    (hp : IsChannelPipeline isAuto isFast p) {frame : Frame} {spectrum : List Float32}
    (hscale : Layout.atrac1.scaleFrame spectrum frame.windows = .ok frame.blocks)
    (hwindows : fitsWindowFields frame.windows = true) (hindex : frame.index ≤ lastIndex) :
    (∀ bits capacity, (p.encode frame).emission.fault ≠ some (.unitOverflow bits capacity)) ∧
      ((p.encode frame).emission.fault = none →
        ∃ idle lengths,
          (p.encode frame).pipeline.slots =
            [⟨budgeting, idle⟩, ⟨allotting isAuto isFast, lengths⟩] ∧
          (∀ l ∈ lengths, l = 0 ∨ 2 ≤ l ∧ l ≤ 16) ∧
          (p.encode frame).emission.bits.length = (p.encode frame).pipeline.cost ∧
          (p.encode frame).pipeline.cost ≤ 1696) := by
  have hblocks := Layout.isFilledBy_of_scaleFrame Layout.isWithin_atrac1 hscale
  rcases encode_of_isKept (isKept_inFront hblocks hindex) p frame (inFront_fresh hp frame) with
    ⟨cause, hfail, hcause⟩ | ⟨last, s, hlast, hs, hput⟩
  · obtain ⟨last, rfl⟩ : ∃ last, cause = .unsettled last := by simpa using hcause
    rw [hfail]
    refine ⟨fun _ _ h => ?_, fun h => ?_⟩ <;> cases h
  · obtain ⟨hclean, hunit⟩ :=
      put_of_inFront hblocks (isCodable_of_fitsWindowFields hwindows) hlast hs
    rw [hput]
    refine ⟨?_, fun _ => hunit⟩
    intro _ _ h
    rw [hclean] at h
    cases h

/-- A silent channel under short windows. -/
def silence : Frame where
  blocks := (List.range Layout.atrac1.blocks).map fun block =>
    Layout.atrac1.scale
      (Layout.atrac1.blockLines (.ofShortBands true true true) (List.replicate 512 0) block)
  windows := .ofShortBands true true true
  loudness := 1
  spread := 0
  index := 0

theorem scaleFrame_silence :
    Layout.atrac1.scaleFrame (List.replicate 512 0) silence.windows = .ok silence.blocks :=
  Layout.scaleFrame_of_length (List.length_replicate ..)

theorem fits_silence :
    let p : ChannelPipeline := .ofStages (stages true false)
    (p.encode silence).emission.fault = none ∧
      (p.encode silence).emission.bits.length = (p.encode silence).pipeline.cost ∧
      (p.encode silence).emission.bits.length ≤ 1696 := by
  intro p
  have hp : IsChannelPipeline true false p := rfl
  have hblocks := Layout.isFilledBy_of_scaleFrame Layout.isWithin_atrac1 scaleFrame_silence
  have hwindows : fitsWindowFields silence.windows = true := by decide
  have hindex : silence.index ≤ lastIndex := by decide
  have hclean : (p.encode silence).emission.fault = none := by
    obtain ⟨last, s, hlast, hs, hput⟩ := encode_of_isOk (isKept_inFront hblocks hindex) p silence
      (inFront_fresh hp silence) (by decide +kernel)
    rw [hput]
    exact (put_of_inFront hblocks (isCodable_of_fitsWindowFields hwindows) hlast hs).1
  obtain ⟨idle, lengths, -, -, hlength, hle⟩ :=
    (encode_fits hp scaleFrame_silence hwindows hindex).2 hclean
  exact ⟨hclean, hlength, by rw [hlength]; exact hle⟩

end Atrac1

end SpectralCoding
