import Mathlib.Order.Monotone.Defs
import SpectralCoding.Proofs.Allocation.Probing
import SpectralCoding.Proofs.Search.Protocol

/-!
# What a search for a shift is worth

A search ends with the last answer within the target, and only if every shift it tried was over the
target does it end with silence. How good that answer is can be said where the answers are a
function of the shift and cost no more as the shift rises: what lies below the interval is then
always over the target, by the width of one step at most.

* `ShiftSearch.lastAffordable` : the last member of a row whose cost is within a target.
* `ShiftSearch.EndsWith.found_eq` : a search ends with the last answer within the target.
* `ShiftSearch.EndsWith.lastAffordable_spec` : what is known of the shift it belongs to.
* `ShiftSearch.run_go_check` : a search with a test that can fail.
* `ShiftSearch.searchInWords_eq` : in words with room for all sums a search ends as in numbers.
* `ShiftSearch.search_spec` : **within ten probes a search finds a shift that is close to the
  target, or no more than a tenth too great.**
-/

namespace SpectralCoding

namespace ShiftSearch

/-! ### The last answer within the target -/

section LastAffordable

variable {α β : Type} {target : Nat}

/-- The last member of a row whose cost is within the target. -/
def lastAffordable (target : Nat) (cost : α → Nat) (row : List α) : Option α :=
  (row.filter (cost · ≤ target)).getLast?

theorem lastAffordable_cons_of_over (cost : α → Nat) {a : α} (row : List α) (h : target < cost a) :
    lastAffordable target cost (a :: row) = lastAffordable target cost row := by
  rw [lastAffordable, List.filter_cons_of_neg (by simpa using h), lastAffordable]

theorem lastAffordable_cons_of_le (cost : α → Nat) {a : α} (row : List α)
    (h : cost a ≤ target) :
    lastAffordable target cost (a :: row) = some ((lastAffordable target cost row).getD a) := by
  rw [lastAffordable, List.filter_cons_of_pos (by simpa using h), List.getLast?_cons,
    lastAffordable]

theorem lastAffordable_map (cost : α → Nat) (f : β → α) (row : List β) :
    lastAffordable target cost (row.map f) = (lastAffordable target (cost ∘ f) row).map f := by
  rw [lastAffordable, List.filter_map, List.getLast?_map]
  rfl

end LastAffordable

section Loop

variable {κ : Type} [Dial κ] {target blocks : Nat} {close : Nat → Bool} {eval : κ → Allocation}
  {lo hi : κ} {best : Option Allocation} {probes : List κ} {found : Allocation}

/-- A search ends with the last answer within the target, or what was kept before, or silence. -/
theorem EndsWith.found_eq (h : EndsWith target close blocks eval lo hi best probes found) :
    found = ((lastAffordable target Allocation.bits (probes.map eval)).or best).getD
      (.silence blocks) := by
  induction h with
  | exhausted hover hcross =>
    rw [List.map_singleton, lastAffordable_cons_of_over Allocation.bits _ hover]
    rfl
  | raise hover hopen rest ih =>
    rw [List.map_cons, lastAffordable_cons_of_over Allocation.bits _ hover, ih]
  | accept hfits hclose =>
    rw [List.map_singleton, lastAffordable_cons_of_le Allocation.bits _ (Nat.le_of_not_lt hfits)]
    rfl
  | settle hfits hspare hcross =>
    rw [List.map_singleton, lastAffordable_cons_of_le Allocation.bits _ (Nat.le_of_not_lt hfits)]
    rfl
  | @lower lo hi best probes found hfits hspare hopen rest ih =>
    rw [List.map_cons, lastAffordable_cons_of_le Allocation.bits _ (Nat.le_of_not_lt hfits), ih]
    cases lastAffordable target Allocation.bits (probes.map eval) <;> rfl

end Loop

/-! ### Costs that fall -/

section Falling

variable {target slack blocks : Nat} {close : Nat → Bool} {eval : ℚ → Allocation}

/-- The shifts that can be tried. -/
def range : Set ℚ := Set.Icc (-3) 15

/-- Every shift of the range up to `bound` is over the target. -/
def IsOverUpTo (target : Nat) (eval : ℚ → Allocation) (bound : ℚ) : Prop :=
  ∀ shift ∈ range, shift ≤ bound → target < (eval shift).bits

theorem IsOverUpTo.mono {bound lower : ℚ} (h : IsOverUpTo target eval bound) (hle : lower ≤ bound) :
    IsOverUpTo target eval lower := fun shift hshift hbound => h shift hshift (hbound.trans hle)

/-- What a shift costs. -/
def costAt (eval : ℚ → Allocation) (shift : ℚ) : Nat := (eval shift).bits

/-- Costs that fall are over the target below a shift that is. -/
theorem isOverUpTo_of_over (hfalls : AntitoneOn (costAt eval) range) {shift : ℚ}
    (hshift : shift ∈ range) (hover : target < (eval shift).bits) :
    IsOverUpTo target eval shift := fun _ hother hle => hover.trans_le (hfalls hother hshift hle)

/-- A shift with a cost close to the target, or one below which by more than a tenth there is
nothing within the target. -/
def IsTight (target : Nat) (close : Nat → Bool) (eval : ℚ → Allocation) (shift : ℚ) : Prop :=
  close (costAt eval shift) = true ∨ ∀ other ∈ range, other < shift - 1 / 10 →
    target < (eval other).bits

/-- What a search on an interval tells, where everything below the interval is over the target: the
last shift within the target is tight, and without one nothing up to the upper end is within it. -/
theorem EndsWith.lastAffordable_spec [ShiftRounding] {lo hi : ℚ} {best : Option Allocation}
    {probes : List ℚ} {found : Allocation}
    (h : EndsWith target close blocks eval lo hi best probes found)
    (hfalls : AntitoneOn (costAt eval) range)
    (hlo : -3 ≤ lo) (hopen : lo ≤ hi) (hhi : hi ≤ 15)
    (hbelow : IsOverUpTo target eval (lo - shiftStep)) :
    (∀ shift, lastAffordable target (costAt eval) probes = some shift →
        IsTight target close eval shift) ∧
      (lastAffordable target (costAt eval) probes = none →
        IsOverUpTo target eval (hi - shiftStep)) := by
  have hmid {lo hi : ℚ} (hlo : -3 ≤ lo) (hopen : lo ≤ hi) (hhi : hi ≤ 15) :
      (Dial.mid hi lo : ℚ) ∈ range := by
    constructor <;> simp only [Dial.mid] <;> linarith
  have hstep : shiftStep = 1 / 100 := rfl
  induction h with
  | @exhausted lo hi best hover hcross =>
    rw [lastAffordable_cons_of_over (costAt eval) _ hover]
    refine ⟨nofun, fun _ => (isOverUpTo_of_over hfalls (hmid hlo hopen hhi) hover).mono ?_⟩
    have hcross : hi < Dial.up (Dial.mid hi lo) := of_decide_eq_true hcross
    simp only [Dial.up] at hcross
    linarith
  | @raise lo hi best probes found hover hcross rest ih =>
    rw [lastAffordable_cons_of_over (costAt eval) _ hover]
    have hover := isOverUpTo_of_over hfalls (hmid hlo hopen hhi) hover
    refine ih ?_ (not_lt.1 (of_decide_eq_false hcross)) hhi (hover.mono ?_)
    · simp only [Dial.up, Dial.mid]
      linarith
    · simp only [Dial.up]
      linarith
  | @accept lo hi best hfits hclose =>
    rw [lastAffordable_cons_of_le (costAt eval) _ (Nat.le_of_not_lt hfits)]
    refine ⟨?_, nofun⟩
    rintro _ ⟨⟩
    refine hclose.imp_right fun hnarrow other hother hlt => hbelow other hother ?_
    have hnarrow : hi - lo < 1 / 10 := of_decide_eq_true hnarrow
    simp only [Dial.mid, lastAffordable, List.filter_nil, List.getLast?_nil,
      Option.getD_none] at hlt
    linarith
  | @settle lo hi best hfits hspare hcross =>
    rw [lastAffordable_cons_of_le (costAt eval) _ (Nat.le_of_not_lt hfits)]
    refine ⟨?_, nofun⟩
    rintro _ ⟨⟩
    refine .inr fun other hother hlt => hbelow other hother ?_
    have hcross : Dial.down (Dial.mid hi lo) < lo := of_decide_eq_true hcross
    simp only [Dial.down] at hcross
    simp only [lastAffordable, List.filter_nil, List.getLast?_nil, Option.getD_none] at hlt
    linarith
  | @lower lo hi best probes found hfits hspare hcross rest ih =>
    rw [lastAffordable_cons_of_le (costAt eval) _ (Nat.le_of_not_lt hfits)]
    obtain ⟨hlast, hnone⟩ := ih hlo (not_lt.1 (of_decide_eq_false hcross)) (by
      simp only [Dial.down, Dial.mid]
      linarith) hbelow
    refine ⟨?_, nofun⟩
    rintro _ ⟨⟩
    cases hrest : lastAffordable target (costAt eval) probes with
    | some shift => exact hlast shift hrest
    | none =>
      -- nothing below the middle is within the target, up to two steps
      refine .inr fun other hother hlt => hnone hrest other hother ?_
      rw [Option.getD_none] at hlt
      simp only [Dial.down]
      linarith

/-! ### Sums in words -/

section Words

variable {κ : Type} [Dial κ] {m : Type → Type} [Monad m] [LawfulMonad m]
  {check : Nat → Except Error Bool}

/-- A cost is where a search ends: it is close to the target, or that cannot be told. -/
def endsAt (check : Nat → Except Error Bool) (bits : Nat) : Bool :=
  match check bits with
  | .ok close => close
  | .error _ => true

/-- A search whose test for closeness can fail goes on as one whose test cannot, and fails if that
test fails of the allocation found. -/
theorem run_go_check (eval : κ → m Allocation) {fuel : Nat} {lo hi : κ} {best : Option Allocation}
    (hbest : ∃ close, check (best.getD (.silence blocks)).bits = .ok close) :
    (go target blocks (fun bits => ExceptT.mk (pure (check bits)))
        (fun shift => ExceptT.lift (eval shift)) fuel lo hi best).run =
      go target blocks (fun bits => pure (endsAt check bits)) eval fuel lo hi best >>= fun found =>
        pure ((check found.bits).map fun _ => found) := by
  obtain ⟨close, hclose⟩ := hbest
  induction fuel generalizing lo hi best close with
  | zero => simp [go, hclose, Except.map]
  | succ fuel ih =>
    rw [go, go, bind_assoc, ExceptT.run_bind, ExceptT.run_lift, map_eq_pure_bind, bind_assoc]
    refine congrArg (eval (Dial.mid hi lo) >>= ·) (funext fun alloc => ?_)
    rw [pure_bind]
    by_cases hover : target < alloc.bits
    · simp only [if_pos hover]
      split
      · simp [hclose, Except.map]
      · exact ih close hclose
    · simp only [if_neg hover, pure_bind]
      cases hcheck : check alloc.bits with
      | error cause =>
        simp [endsAt, hcheck, ExceptT.run_bind, Except.map]
      | ok here =>
        have hends : endsAt check alloc.bits = here := by rw [endsAt, hcheck]
        have hkept : (check alloc.bits).map (fun _ => alloc) = .ok alloc := by
          rw [hcheck]
          rfl
        rw [hends, ExceptT.run_bind, ExceptT.run_mk, pure_bind]
        show (if here || Dial.isNarrow hi lo then _ else _ : ExceptT Error m Allocation).run = _
        split
        · rw [pure_bind, hkept]
          rfl
        · split
          · rw [pure_bind, hkept]
            rfl
          · exact ih here hcheck

omit [LawfulMonad m] in
/-- Only costs within the target are tested. -/
theorem go_congr {close : Nat → m Bool} (eval : κ → m Allocation)
    {other : Nat → m Bool} (h : ∀ bits ≤ target, close bits = other bits) {fuel : Nat} {lo hi : κ}
    {best : Option Allocation} :
    go target blocks close eval fuel lo hi best = go target blocks other eval fuel lo hi best := by
  induction fuel generalizing lo hi best with
  | zero => rfl
  | succ fuel ih =>
    rw [go, go]
    refine congrArg (eval (Dial.mid hi lo) >>= ·) (funext fun alloc => ?_)
    by_cases hover : target < alloc.bits
    · simp only [if_pos hover, ih]
    · simp only [if_neg hover, h _ (Nat.le_of_not_lt hover), ih]

variable {o : Overflow} {most : Nat}

theorem isCloseInWords_of_le {bits : Nat} (h : bits + slack ≤ most) :
    isCloseInWords o most target slack bits = .ok (isClose target slack bits) := by
  rw [isCloseInWords, Overflow.word_of_room o h, Nat.mod_eq_of_lt (Nat.lt_succ_of_le h)]
  rfl

theorem searchInWords_eq (h : target + slack ≤ most) (eval : κ → m Allocation) :
    (searchInWords o most target slack blocks eval).run =
      search target slack blocks eval >>= fun found => pure (.ok found) := by
  have htest : ∀ bits ≤ target, (ExceptT.mk (pure (isCloseInWords o most target slack bits)) :
      ExceptT Error m Bool) = ExceptT.mk (pure (.ok (isClose target slack bits))) :=
    fun bits hbits => by rw [isCloseInWords_of_le (Nat.le_trans (Nat.add_le_add_right hbits _) h)]
  rw [searchInWords, go_congr _ htest, run_go_check eval ⟨_, rfl⟩]
  rfl

/-- What a search in words ends with: the allocation found, unless the sum for it has no room and
the program stops. -/
theorem isCloseInWords_map (alloc : Allocation) :
    ((isCloseInWords o most target slack alloc.bits).map fun _ => alloc) =
      o.word (alloc.bits + slack ≤ most) alloc := by
  unfold isCloseInWords Overflow.word
  split <;> rfl

/-- A sum that has lost its high bits is not close to the target unless all of it is. -/
theorem isClose_of_endsAt {bits : Nat}
    (h : endsAt (isCloseInWords o most target slack) bits = true) :
    isClose target slack bits = true ∨ o = .stops ∧ most < bits + slack := by
  unfold endsAt isCloseInWords Overflow.word at h
  by_cases hstops : o = .stops ∧ ¬bits + slack ≤ most
  · exact .inr ⟨hstops.1, Nat.lt_of_not_le hstops.2⟩
  · rw [if_neg hstops] at h
    exact .inl (decide_eq_true ((of_decide_eq_true h).trans (Nat.mod_le _ _)))

end Words

/-! ### The search -/

/-- The answer a search ends with: the last one within the target, or silence. -/
def answerOf (target blocks : Nat) (answers : List Allocation) : Allocation :=
  (lastAffordable target Allocation.bits answers).getD (.silence blocks)

theorem answerOf_map (target blocks : Nat) (f : ℚ → Allocation) (probes : List ℚ) :
    answerOf target blocks (probes.map f) =
      ((lastAffordable target (costAt f) probes).map f).getD (.silence blocks) := by
  rw [answerOf, lastAffordable_map]
  rfl

/-- **Within ten probes a search finds a shift that is close to the target, or no more than a tenth
too great.** Shifts are exact, and the evaluation may remember what it was asked. The search is
nothing but the calls at some shifts of the range, with the last answer within the target, or
silence if none is. Where the answers are a function of the shift and cost no more as it rises, the
shift of that answer is tight, and without one every shift up to 14.99 is over the target. The
exception is an answer whose cost and `slack` have no room in a word, where the program may stop. -/
theorem search_spec [ShiftRounding] {σ : Type} (o : Overflow) {most slack : Nat}
    (hslack : slack ≤ most) (target blocks : Nat) (eval : ℚ → StateM σ Allocation) (s : σ) :
    ∃ probes : List ℚ, probes.length ≤ 10 ∧ (∀ shift ∈ probes, -3 ≤ shift ∧ shift ≤ 15) ∧
      (searchInWords o most target slack blocks eval).run.run s =
        (do
          let answers ← probes.mapM eval
          let found := answerOf target blocks answers
          pure (o.word (found.bits + slack ≤ most) found) : StateM σ _).run s ∧
      ∀ f : ℚ → Allocation, (∀ shift s, ((eval shift).run s).1 = f shift) →
        AntitoneOn (costAt f) range →
        (∀ shift, lastAffordable target (costAt f) probes = some shift →
          ((searchInWords o most target slack blocks eval).run.run s).1 =
              o.word (costAt f shift + slack ≤ most) (f shift) ∧
            (IsTight target (isClose target slack) f shift ∨
              o = .stops ∧ most < costAt f shift + slack)) ∧
        (lastAffordable target (costAt f) probes = none →
          ((searchInWords o most target slack blocks eval).run.run s).1 = .ok (.silence blocks) ∧
            IsOverUpTo target f (15 - 1 / 100)) := by
  have hleast : (leastShift : ℚ) = -3 := Rat.intCast_neg 3
  have hgreatest : (greatestShift : ℚ) = 15 := rfl
  have hsilent : (Allocation.silence blocks).bits + slack ≤ most := by
    rwa [Allocation.silence, Nat.zero_add]
  obtain ⟨g, probes, found, after, hends, hprobes, hanswers, hrun⟩ :=
    exists_endsWith_run target (endsAt (isCloseInWords o most target slack)) blocks eval none s
      leastShift_le greatestShift_sub_leastShift (fuel - mostProbes)
  have hrun : (searchInWords o most target slack blocks eval).run.run s =
      (o.word (found.bits + slack ≤ most) found, after) := by
    rw [searchInWords, run_go_check eval ⟨_, isCloseInWords_of_le hsilent⟩, StateT.run_bind]
    rw [show fuel = mostProbes + (fuel - mostProbes) from rfl, hrun, ← isCloseInWords_map]
    rfl
  have hfound : found = answerOf target blocks (probes.map g) := by
    rw [hends.found_eq, Option.or_none, answerOf]
  refine ⟨probes, hprobes, ?_, ?_, ?_⟩
  · have hmem := hends.mem_Icc leastShift_le
    rwa [hleast, hgreatest] at hmem
  · rw [StateT.run_bind, hanswers, hrun, hfound]
    rfl
  · intro f hconst hfalls
    obtain ⟨_, hown⟩ := answers_of_const hconst probes s
    have hsame := hown.unique hanswers
    have hspec := (hends.congr hsame).lastAffordable_spec hfalls
    rw [hleast, hgreatest] at hspec
    obtain ⟨hlast, hnone⟩ := hspec (le_refl _) (by norm_num) (le_refl _) fun shift hshift hle =>
      -- no shift is that far down
      absurd (hle.trans_lt (sub_lt_self _ shiftStep_pos)) (not_lt.2 hshift.1)
    have hanswer : found = ((lastAffordable target (costAt f) probes).map f).getD
        (.silence blocks) := by
      rw [hfound, ← List.map_inj_left.2 hsame, answerOf_map]
    rw [hrun]
    refine ⟨fun shift hshift => ⟨?_, ?_⟩, fun hempty => ⟨?_, hnone hempty⟩⟩
    · rw [hanswer, hshift]
      rfl
    · rcases hlast shift hshift with hclose | hfew
      · exact (isClose_of_endsAt hclose).imp_left .inl
      · exact .inl (.inr hfew)
    · rw [hanswer, hempty]
      exact Overflow.word_of_room o hsilent _

/-- An evaluation that counts its calls, on costs that fall at six from over the target to far
below it. A slack of 200 leaves room for every sum, and the greatest slack for none. -/
theorem search_spec_stairs :
    letI := Bisection.quotientRounding
    let most := 2 ^ 64 - 1
    let f : ℚ → Allocation := fun shift => if shift < 6 then ⟨[8], 640⟩ else ⟨[2], 160⟩
    let eval : ℚ → StateM Nat Allocation := fun shift calls => (f shift, calls + 1)
    let result := fun slack => ((searchInWords .stops most 500 slack 1 eval).run.run 0).1
    AntitoneOn (costAt f) range ∧ (∀ shift calls, ((eval shift).run calls).1 = f shift) ∧
      200 ≤ most ∧
      (∃ shift, result 200 = .ok (f shift) ∧ IsTight 500 (isClose 500 200) f shift) ∧
      result most = .error .outOfRange := by
  intro most f eval result
  let _ := Bisection.quotientRounding
  have hfalls : AntitoneOn (costAt f) range := by
    intro x _ y _ hle
    unfold costAt f
    by_cases hx : x < 6
    · rw [if_pos hx]
      split <;> simp
    · rw [if_neg hx, if_neg (not_lt.2 ((not_lt.1 hx).trans hle))]
  have hconst : ∀ shift calls, ((eval shift).run calls).1 = f shift := fun _ _ => rfl
  have hfinds (slack : Nat) (hslack : slack ≤ most) : ∃ shift,
      result slack = Overflow.stops.word (costAt f shift + slack ≤ most) (f shift) ∧
      (IsTight 500 (isClose 500 slack) f shift ∨
        Overflow.stops = .stops ∧ most < costAt f shift + slack) := by
    obtain ⟨probes, -, -, -, hspec⟩ := search_spec .stops hslack 500 1 eval 0
    obtain ⟨hlast, hnone⟩ := hspec f hconst hfalls
    cases hshift : lastAffordable 500 (costAt f) probes with
    | some shift => exact ⟨shift, hlast shift hshift⟩
    | none =>
      have hover := (hnone hshift).2 7 (by constructor <;> norm_num) (by norm_num)
      have hseven : f 7 = ⟨[2], 160⟩ := if_neg (by norm_num)
      rw [hseven] at hover
      exact absurd hover (by decide)
  have hslack : 200 ≤ most := by decide
  refine ⟨hfalls, hconst, hslack, ?_, ?_⟩
  · obtain ⟨shift, hresult, htight⟩ := hfinds 200 hslack
    have hroom : costAt f shift + 200 ≤ most := by
      unfold costAt f
      split <;> decide
    refine ⟨shift, hresult.trans (Overflow.word_of_room _ hroom _), ?_⟩
    exact htight.resolve_right fun h => absurd hroom (Nat.not_le.2 h.2)
  · obtain ⟨shift, hresult, -⟩ := hfinds most (Nat.le_refl _)
    have hfull : ¬costAt f shift + most ≤ most := by
      unfold costAt f
      split <;> decide
    exact hresult.trans (if_pos ⟨rfl, hfull⟩)

end Falling

end ShiftSearch

end SpectralCoding
