import SpectralCoding.Proofs.Atrac1.Boosting
import SpectralCoding.Proofs.Atrac1.Settling

/-!
# The number of blocks of an ATRAC1 unit

A frame starts with the number of blocks that the encoder was opened with. A fixed number stays. An
automatic one falls while the blocks that it has beyond the next lower one are silent, and with every
fall the search begins anew under another budget.

* `Atrac1.UsesTier` : an index has a block in use that the index before it does not have.
* `Atrac1.usesTier_of_le_usedIndex` : what the least index that serves says of the tiers.
* `Atrac1.IsReduced` : what holds of the index in front of a stage, beside `InFront`.
* `Atrac1.index_le_of_clean`, `Atrac1.hasBlocks_of_clean` : a frame that is put out has an index of
  the table and the blocks that it asks for.
* `Atrac1.encode_settles_index` : **the index only falls, a fixed one not at all; an automatic one
  ends where its last tier is in use; and the unit has its number of blocks, within its budget.**
-/

namespace SpectralCoding

namespace Atrac1

open Pipeline

variable {κ : Type} {isAuto isFast : Bool} {lengths : List Nat} {index : Nat}

/-! ### Tiers -/

/-- A block that `index` has beyond the index before it has a word length. -/
def UsesTier (lengths : List Nat) (index : Nat) : Prop :=
  ∃ block, blockCounts.getD (index - 1) 0 ≤ block ∧ block < blockCounts.getD index 0 ∧
    lengths.getD block 0 ≠ 0

theorem usesTier_of_any (h : (tier lengths index).any (· != 0) = true) :
    UsesTier lengths index := by
  obtain ⟨length, hmem, hlength⟩ := List.any_eq_true.1 h
  obtain ⟨offset, hoffset⟩ := List.mem_iff_getElem?.1 hmem
  rw [tier, List.getElem?_drop, List.getElem?_take] at hoffset
  split at hoffset
  · rename_i hlt
    refine ⟨blockCounts.getD (index - 1) 0 + offset, Nat.le_add_right .., hlt, ?_⟩
    rw [List.getD_eq_getElem?_getD, hoffset]
    simpa using hlength
  · cases hoffset

theorem usedIndexFrom_le (lengths : List Nat) (index : Nat) :
    usedIndexFrom lengths index ≤ index := by
  induction index with
  | zero => exact Nat.le_refl 0
  | succ index ih =>
    rw [usedIndexFrom]
    split
    · exact Nat.le_refl _
    · exact Nat.le_succ_of_le ih

theorem length_takeWhile_blockCounts (index : Fin blockCounts.length) :
    (blockCounts.takeWhile (· ≤ blockCounts[index])).length = index + 1 := by
  revert index
  decide

/-- The search for the least index that serves starts from the index whose number of blocks the
word lengths have. -/
theorem usedIndex_eq (h : blockCounts[index]? = some lengths.length) :
    usedIndex lengths = usedIndexFrom lengths index := by
  obtain ⟨hindex, hcount⟩ := List.getElem?_eq_some_iff.1 h
  have hstart := length_takeWhile_blockCounts ⟨index, hindex⟩
  rw [Fin.getElem_fin, hcount] at hstart
  rw [usedIndex, hstart, Nat.add_sub_cancel]

/-- An index that cannot be lowered has its last tier in use. -/
theorem usesTier_of_le_usedIndex (hcount : blockCounts[index]? = some lengths.length)
    (h : index ≤ usedIndex lengths) (hpos : index ≠ 0) : UsesTier lengths index := by
  rw [usedIndex_eq hcount] at h
  obtain ⟨lower, rfl⟩ := Nat.exists_eq_succ_of_ne_zero hpos
  rw [usedIndexFrom] at h
  split at h
  · rename_i hany
    exact usesTier_of_any hany
  · exact absurd (Nat.le_trans h (usedIndexFrom_le lengths lower)) (Nat.not_succ_le_self lower)

theorem areRaised_boost (lengths : List Nat) (spent target : Nat) :
    AreRaised lengths (boost lengths spent target).lengths := by
  obtain ⟨_, -, hrest⟩ := exists_boost_rests lengths spent target
  exact hrest.areRaised

theorem UsesTier.boost (h : UsesTier lengths index) (spent target : Nat) :
    UsesTier (boost lengths spent target).lengths index := by
  obtain ⟨block, hfirst, hlast, hblock⟩ := h
  refine ⟨block, hfirst, hlast, ?_⟩
  rw [List.getD_eq_getElem?_getD] at hblock ⊢
  cases hold : lengths[block]? with
  | none => simp [hold] at hblock
  | some old =>
    obtain ⟨new, hnew, hraised⟩ := areRaised_boost lengths spent target block old hold
    have hle := hraised.le
    simp only [hold, hnew, Option.getD_some] at hblock ⊢
    omega

/-! ### Turns -/

variable {start : Frame} {s : Progress κ Frame (List Nat)}

/-- What holds of the index in front of a stage, beside `InFront`: a fixed one is that of `start`,
and past the last stage an automatic one has its last tier in use. -/
structure IsReduced (isAuto : Bool) (start : Frame) (position : Nat)
    (s : Progress κ Frame (List Nat)) : Prop where
  fixed : isAuto = false → s.frame.index = start.index
  used : isAuto = true → 2 ≤ position → s.frame.index ≠ 0 →
    ∀ slot, s.slots[1]? = some slot → UsesTier slot.memory s.frame.index

theorem isReduced_of_lt {position : Nat} (hposition : position < 2)
    (hfixed : isAuto = false → s.frame.index = start.index) : IsReduced isAuto start position s :=
  ⟨hfixed, fun _ hpast => absurd hpast (Nat.not_le.2 hposition)⟩

variable [Dial κ]

theorem isReduced_budgeting (hindex : start.index ≤ lastIndex) (idle : List Nat)
    (hs : InFront isAuto isFast start 0 s) (hreduced : IsReduced isAuto start 0 s) :
    (turn 0 ⟨budgeting, idle⟩ s).Leads (IsReduced isAuto start) fun _ => False := by
  obtain ⟨count, hcount, -⟩ := exists_blockCount (Nat.le_trans hs.lowered.index_le hindex)
  exact turn_leads_of_proceed (budgeting_talk hcount idle _ _) rfl hs.closed
    (isReduced_of_lt (by decide) hreduced.fixed)

/-- Only an automatic index is lowered, and lengths that settle have its last tier in use. -/
theorem isReduced_allotting (hblocks : start.HasBlocks) (hindex : start.index ≤ lastIndex)
    (lengths : List Nat) (hs : InFront isAuto isFast start 1 s)
    (hreduced : IsReduced isAuto start 1 s) :
    (turn 1 ⟨allotting isAuto isFast, lengths⟩ s).Leads (IsReduced isAuto start)
      fun _ => False := by
  obtain ⟨t, after, hwork, -, hanchor, hend⟩ := allotting_talk isAuto isFast
    (hs.lowered.hasBlocks hblocks hindex) lengths 1 (Slot.totalCost (s.slots.take 1)) hs.closed
  rcases hend with ⟨hreopened, rfl⟩ | ⟨hclosed, chosen, bits, hallotment, rfl⟩
  · have hle : after.anchor < 2 := by
      have h := hs.anchor
      omega
    exact turn_leads_of_reopened hwork rfl hreopened (isReduced_of_lt hle hreduced.fixed)
  · rcases settleLengths_cases s.frame lengths chosen bits
      with ⟨hauto, lowered, -, hsettle⟩ | ⟨hused, hsettle⟩ <;>
      rw [hsettle] at hwork
    · refine turn_leads_of_restart hwork rfl hclosed (isReduced_of_lt (by decide) fun hfixed => ?_)
      rw [hauto] at hfixed
      cases hfixed
    · refine turn_leads_of_proceed hwork rfl hclosed ⟨hreduced.fixed, ?_⟩
      intro hauto _ hpos slot hslot
      obtain ⟨idle, lengths', hslots, -⟩ := hs.slots
      obtain rfl : slot = ⟨allotting isAuto isFast, (boost chosen bits s.frame.budget).lengths⟩ := by
        simpa [Progress.after, hslots] using hslot.symm
      have hcount : blockCounts[s.frame.index]? = some chosen.length := by
        obtain ⟨-, count, hcount, -⟩ := hs.budgeted (Nat.le_refl 1)
        rw [hcount, hallotment.count, List.getD_eq_getElem?_getD, hcount, Option.getD_some]
      exact (usesTier_of_le_usedIndex hcount (hused hauto) hpos).boost _ _

theorem isKept_isReduced (hblocks : start.HasBlocks) (hindex : start.index ≤ lastIndex) :
    IsKept (fun position (s : Progress κ Frame (List Nat)) =>
      InFront isAuto isFast start position s ∧ IsReduced isAuto start position s)
      fun _ => False := by
  refine (isKept_inFront_of_hasBlocks hblocks hindex).and ?_
  intro position slot s hslot hs hreduced
  obtain ⟨idle, lengths, hslots, -⟩ := hs.slots
  rw [hslots] at hslot
  match position, hslot with
  | 0, hslot =>
    obtain rfl := Option.some.inj hslot
    exact isReduced_budgeting hindex idle hs hreduced
  | 1, hslot =>
    obtain rfl := Option.some.inj hslot
    exact isReduced_allotting hblocks hindex lengths hs hreduced
  | _ + 2, hslot => cases hslot

/-! ### Units -/

theorem index_le_of_clean {p : Pipeline κ Frame (List Nat)} (hp : IsChannelPipeline isAuto isFast p)
    {frame : Frame} (hclean : (p.encode frame).emission.fault = none) :
    frame.index ≤ lastIndex := by
  refine Nat.le_of_not_lt fun hindex => ?_
  obtain ⟨slot, s, hslot, hturn⟩ := exists_turn_failed hp hindex
  rw [emission_of_turn_failed hslot hturn] at hclean
  cases hclean

/-- What holds in front of a stage of a frame with too few blocks. The second stage is the last that
is reached. -/
structure LacksBlocks (isAuto isFast : Bool) (start : Frame) (position : Nat)
    (s : Progress κ Frame (List Nat)) : Prop where
  position_le : position ≤ 1
  frame : ∃ budget, s.frame = { start with budget }
  closed : s.desk.isReopened = false
  slots : ∃ idle lengths, s.slots = [⟨budgeting, idle⟩, ⟨allotting isAuto isFast, lengths⟩]

/-- With too few blocks the second stage fails in its first turn. -/
theorem isKept_lacksBlocks (hblocks : ¬start.HasBlocks) (hindex : start.index ≤ lastIndex) :
    IsKept (LacksBlocks isAuto isFast start : Nat → Progress κ Frame (List Nat) → Prop)
      fun _ => True := by
  intro position slot s hslot hs
  obtain ⟨idle, lengths, hslots⟩ := hs.slots
  obtain ⟨budget, hframe⟩ := hs.frame
  rw [hslots] at hslot
  match position, hslot with
  | 0, hslot =>
    obtain rfl := Option.some.inj hslot
    obtain ⟨count, hcount, -⟩ := exists_blockCount hindex
    have hcount : blockCounts[s.frame.index]? = some count := by rwa [hframe]
    refine turn_leads_of_proceed (budgeting_talk hcount idle _ _) rfl hs.closed
      ⟨Nat.le_refl 1, ⟨availableBits count, ?_⟩, hs.closed, idle, lengths, ?_⟩
    · simp [Progress.after, hframe]
    · simp [Progress.after, hslots]
  | 1, hslot =>
    obtain rfl := Option.some.inj hslot
    have hlacks : ¬s.frame.HasBlocks := by rwa [hframe]
    obtain ⟨_, hwork⟩ := allotting_talk_of_not_hasBlocks isAuto isFast hlacks lengths 1
      (Slot.totalCost (s.slots.take 1)) s.desk
    exact turn_leads_of_error hwork rfl trivial
  | _ + 2, hslot => cases hslot

theorem hasBlocks_of_clean {p : Pipeline κ Frame (List Nat)}
    (hp : IsChannelPipeline isAuto isFast p) {frame : Frame}
    (hclean : (p.encode frame).emission.fault = none) : frame.HasBlocks := by
  by_contra hblocks
  have hfresh := inFront_fresh hp frame
  obtain ⟨idle, lengths, hslots, -⟩ := hfresh.slots
  have hlacks : LacksBlocks isAuto isFast frame 0 (p.fresh frame) :=
    ⟨Nat.zero_le 1, ⟨frame.budget, rfl⟩, hfresh.closed, idle, lengths, hslots⟩
  rcases encode_of_isKept (isKept_lacksBlocks hblocks (index_le_of_clean hp hclean)) p frame hlacks
    with ⟨cause, hfail, -⟩ | ⟨last, s, hlast, hs, -⟩
  · rw [hfail] at hclean
    cases hclean
  · obtain ⟨idle, lengths, hslots⟩ := hs.slots
    have hpast : 2 ≤ last := by simpa [hslots] using hlast
    exact absurd (Nat.le_trans hpast hs.position_le) (by decide)

/-- A frame that is put out differs from the one taken up in the index and its budget only. The
index has not risen, and a fixed one is the same; an automatic one is the least, or has a block in
use that the index before it does not have. The unit has as many word lengths as blocks belong to
that index, and they are within the budget that belongs to it. -/
theorem encode_settles_index {p : Pipeline κ Frame (List Nat)}
    (hp : IsChannelPipeline isAuto isFast p) {frame : Frame}
    (hclean : (p.encode frame).emission.fault = none) :
    ∃ index idle lengths,
      (p.encode frame).frame = { frame with index, budget := availableBits lengths.length } ∧
      (p.encode frame).pipeline.slots =
        [⟨budgeting, idle⟩, ⟨allotting isAuto isFast, lengths⟩] ∧
      index ≤ frame.index ∧ (isAuto = false → index = frame.index) ∧
      (isAuto = true → index = 0 ∨ ∃ block,
        blockCounts.getD (index - 1) 0 ≤ block ∧ block < blockCounts.getD index 0 ∧
          lengths.getD block 0 ≠ 0) ∧
      (p.encode frame).emission =
        ({ windows := frame.windows, index, lengths } : SoundUnit).emit frame.blocks ∧
      blockCounts[index]? = some lengths.length ∧
      mantissaBits lengths Layout.atrac1.lines ≤ availableBits lengths.length := by
  have hindex := index_le_of_clean hp hclean
  have hblocks := hasBlocks_of_clean hp hclean
  have hfresh : InFront isAuto isFast frame 0 (p.fresh frame) ∧
      IsReduced isAuto frame 0 (p.fresh frame) :=
    ⟨inFront_fresh hp frame, isReduced_of_lt (by decide) fun _ => rfl⟩
  rcases encode_of_isKept (isKept_isReduced hblocks hindex) p frame hfresh with
    ⟨cause, hfail, -⟩ | ⟨last, s, hlast, ⟨hs, hreduced⟩, hput⟩
  · rw [hfail] at hclean
    cases hclean
  · obtain ⟨idle, lengths, hslots, hsettled⟩ := hs.slots
    have hpast : 2 ≤ last := by simpa [hslots] using hlast
    have hsettled := hsettled hpast
    obtain ⟨index, budget, hlowered, hframe⟩ := hs.lowered
    have hbudget : budget = availableBits lengths.length := by
      obtain ⟨-, count, hcount, hbudget⟩ := hs.budgeted (Nat.le_of_succ_le hpast)
      obtain rfl := Option.some.inj (hcount.symm.trans hsettled.count)
      rwa [hframe] at hbudget
    have hemission := emission_put hslots
    have hfixed := hreduced.fixed
    have hused := hreduced.used
    have hcount := hsettled.count
    rw [hframe] at hemission hfixed hused hcount
    refine ⟨index, idle, lengths, ?_, by rw [hput]; exact hslots, hlowered, hfixed, ?_, ?_, hcount,
      hsettled.affordable⟩
    · rw [hput, ← hbudget]
      exact hframe
    · intro hauto
      by_cases hpos : index = 0
      · exact .inl hpos
      · exact .inr (hused hauto hpast hpos ⟨allotting isAuto isFast, lengths⟩ (by rw [hslots]; rfl))
    · rw [hput]
      exact hemission

/-- A silent channel that is begun with forty-four blocks. -/
def silentStart : Frame := { silence with index := 5 }

theorem settles_index_silentStart :
    let p : ChannelPipeline := .ofStages (stages true false)
    (p.encode silentStart).emission.fault = none ∧
      ∃ index lengths, (p.encode silentStart).frame.index = index ∧ index ≤ 5 ∧
        (index = 0 ∨ ∃ block, blockCounts.getD (index - 1) 0 ≤ block ∧
          block < blockCounts.getD index 0 ∧ lengths.getD block 0 ≠ 0) ∧
        blockCounts[index]? = some lengths.length ∧
        mantissaBits lengths Layout.atrac1.lines ≤ availableBits lengths.length := by
  intro p
  have hp : IsChannelPipeline true false p := rfl
  have hfilled : Layout.atrac1.IsFilledBy silentStart.blocks :=
    Layout.isFilledBy_of_scaleFrame Layout.isWithin_atrac1 scaleFrame_silence
  have hindex : silentStart.index ≤ lastIndex := by decide
  have hclean : (p.encode silentStart).emission.fault = none :=
    fault_encode Bisection.closesWithin_float32 hp hfilled hindex (by decide)
  obtain ⟨index, idle, lengths, hframe, -, hle, -, hused, -, hcount, haffordable⟩ :=
    encode_settles_index hp hclean
  exact ⟨hclean, index, lengths, by rw [hframe], hle, hused rfl, hcount, haffordable⟩

end Atrac1

end SpectralCoding
