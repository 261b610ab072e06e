import Mathlib.Algebra.Order.Floor.Ring
import Mathlib.Data.Rat.Floor
import Mathlib.Order.Bounds.Basic
import Mathlib.Order.Interval.Set.Basic
import SpectralCoding.Proofs.Search.Exact

/-!
# What a search promises

A search is driven from outside, so what it promises has to hold of every course of questions and
answers, also of one in which costs are submitted for a shift that was tried long ago. Of the course
in which each shift named is answered with its cost more can be said: the shifts that cost too much
lie below those that do not, and the search settles on the least of these.

* `Bisection.Call`, `Bisection.after` : questions and answers in any order.
* `Bisection.IsBetween` : what holds of a search on an interval, and is kept by every call.
* `Bisection.answered`, `Bisection.named` : the course in which each shift is answered with its
  cost, and the shifts that it names.
* `Bisection.Tracks` : what the search remembers of the shifts named.
* `Bisection.settles_on_least` : **a search closes in on the least shift within the target, and
  stays with it.**
-/

namespace SpectralCoding

namespace Bisection

variable {b : Bisection ℚ} {least greatest : ℚ} {cost : ℚ → Nat}

/-! ### What holds of a search -/

/-- A search on an interval from `least` to `greatest`. The shift being tried may be stale, but the
ends never pass it by more than a step. -/
structure IsBetween (least greatest : ℚ) (b : Bisection ℚ) : Prop where
  lo : least ≤ b.lo
  hi : b.hi ≤ greatest
  current : b.current ∈ Set.Icc least greatest
  fallback : b.fallback ∈ Set.Icc least greatest
  lo_le : b.lo ≤ b.current + shiftStep
  le_hi : b.current ≤ b.hi + shiftStep

theorem isBetween_start (h : least < greatest) (target : Nat) :
    IsBetween least greatest (.start target least greatest) where
  lo := le_refl least
  hi := le_refl greatest
  current := ⟨h.le, le_refl greatest⟩
  fallback := ⟨h.le, le_refl greatest⟩
  lo_le := by
    have hstep := shiftStep_pos
    simp only [start]
    linarith
  le_hi := by
    have hstep := shiftStep_pos
    simp only [start]
    linarith

/-- What a search that began at `greatest` remembers of `shifts` that it has named: the
least one within the target, and with its lower end the greatest one beyond. An exact hit stands
still in the middle of its interval. -/
structure Tracks (cost : ℚ → Nat) (least greatest : ℚ) (shifts : Set ℚ) (b : Bisection ℚ) :
    Prop where
  beyond : ∀ x ∈ shifts, b.target < cost x →
    x + shiftStep ≤ b.lo ∨ b.hi ≤ b.lo ∧ x = b.fallback
  within : ∀ x ∈ shifts, cost x ≤ b.target → b.fallback ≤ x
  fallback : b.fallback ∈ shifts ∧ cost b.fallback ≤ b.target ∨
    b.fallback = greatest ∧ ∀ x ∈ shifts, b.target < cost x
  lo_lt : b.lo < b.fallback + shiftStep
  lo_eq : b.lo = least ∨ ∃ x ∈ shifts, b.target < cost x ∧ x + shiftStep = b.lo
  fallback_le : b.fallback ≤ b.hi + shiftStep
  hi_le : b.hi ≤ b.fallback ∨ b.lo < b.hi ∧ (b.hi + b.lo) / 2 = b.fallback ∧
    cost b.fallback = b.target

theorem tracks_start (h : least < greatest) (target : Nat) :
    Tracks cost least greatest ∅ (.start target least greatest) where
  beyond := nofun
  within := nofun
  fallback := .inr ⟨rfl, nofun⟩
  lo_lt := by
    have hstep := shiftStep_pos
    simp only [start]
    linarith
  lo_eq := .inl rfl
  fallback_le := by
    have hstep := shiftStep_pos
    simp only [start]
    linarith
  hi_le := .inl (le_refl greatest)

variable {shifts : Set ℚ}

/-- On an open interval the shifts named that cost too much lie below it. -/
theorem Tracks.beyond_of_lt (h : Tracks cost least greatest shifts b) (hopen : b.lo < b.hi) {x : ℚ}
    (hx : x ∈ shifts) (hcost : b.target < cost x) : x + shiftStep ≤ b.lo := by
  rcases h.beyond x hx hcost with hle | ⟨hclosed, -⟩
  · exact hle
  · exact absurd hopen hclosed.not_gt

/-- The midpoint of an open interval is at most the shift to fall back on, and is that shift only
where the target has been hit. -/
theorem Tracks.mid_le_fallback (h : Tracks cost least greatest shifts b) (hopen : b.lo < b.hi) :
    (b.hi + b.lo) / 2 < b.fallback ∨
      (b.hi + b.lo) / 2 = b.fallback ∧ cost b.fallback = b.target := by
  rcases h.hi_le with hle | ⟨-, hmid, hhit⟩
  · left
    linarith
  · exact .inr ⟨hmid, hhit⟩

/-- A shift within the target becomes the one to fall back on. The upper end moves past it unless
the target has been hit. -/
theorem Tracks.lower (h : Tracks cost least greatest shifts b) (hopen : b.lo < b.hi) {hi : ℚ}
    (hcost : cost ((b.hi + b.lo) / 2) ≤ b.target)
    (hhi : hi = (b.hi + b.lo) / 2 - shiftStep ∨
      hi = b.hi ∧ cost ((b.hi + b.lo) / 2) = b.target) (current : ℚ) :
    Tracks cost least greatest (insert ((b.hi + b.lo) / 2) shifts)
      { b with fallback := (b.hi + b.lo) / 2, hi, current } := by
  have hstep := shiftStep_pos
  have hlower : (b.hi + b.lo) / 2 ≤ b.fallback := by
    rcases h.mid_le_fallback hopen with hlt | ⟨heq, -⟩
    · exact hlt.le
    · exact heq.le
  refine ⟨?_, ?_, .inl ⟨Set.mem_insert _ _, hcost⟩, ?_, ?_, ?_, ?_⟩
  · rintro x (rfl | hx) hbeyond
    · exact absurd hbeyond (Nat.not_lt_of_le hcost)
    · exact .inl (h.beyond_of_lt hopen hx hbeyond)
  · rintro x (rfl | hx) hwithin
    · exact le_refl _
    · exact hlower.trans (h.within x hx hwithin)
  · dsimp only
    linarith
  · rcases h.lo_eq with heq | ⟨x, hx, hbeyond, heq⟩
    · exact .inl heq
    · exact .inr ⟨x, Set.mem_insert_of_mem _ hx, hbeyond, heq⟩
  · rcases hhi with rfl | ⟨rfl, -⟩
    · dsimp only
      linarith
    · dsimp only
      linarith
  · rcases hhi with rfl | ⟨rfl, hhit⟩
    · left
      dsimp only
      linarith
    · exact .inr ⟨hopen, rfl, hhit⟩

/-- A shift beyond the target moves the lower end past itself. -/
theorem Tracks.raise (h : Tracks cost least greatest shifts b) (hopen : b.lo < b.hi)
    (hcost : b.target < cost ((b.hi + b.lo) / 2)) (current : ℚ) :
    Tracks cost least greatest (insert ((b.hi + b.lo) / 2) shifts)
      { b with lo := (b.hi + b.lo) / 2 + shiftStep, current } := by
  have hmid : (b.hi + b.lo) / 2 < b.fallback := by
    rcases h.mid_le_fallback hopen with hlt | ⟨heq, hhit⟩
    · exact hlt
    · rw [heq, hhit] at hcost
      exact absurd hcost (Nat.lt_irrefl _)
  refine ⟨?_, ?_, ?_, ?_, .inr ⟨_, Set.mem_insert _ _, hcost, rfl⟩, h.fallback_le, ?_⟩
  · rintro x (rfl | hx) hbeyond
    · exact .inl (le_refl _)
    · left
      have hle := h.beyond_of_lt hopen hx hbeyond
      have hstep := shiftStep_pos
      dsimp only
      linarith
  · rintro x (rfl | hx) hwithin
    · exact absurd hcost (Nat.not_lt_of_le hwithin)
    · exact h.within x hx hwithin
  · rcases h.fallback with ⟨hmem, hwithin⟩ | ⟨hgreatest, hall⟩
    · exact .inl ⟨Set.mem_insert_of_mem _ hmem, hwithin⟩
    · exact .inr ⟨hgreatest, Set.forall_mem_insert.2 ⟨hcost, hall⟩⟩
  · dsimp only
    linarith
  · rcases h.hi_le with hle | ⟨-, heq, -⟩
    · exact .inl hle
    · exact absurd heq hmid.ne

theorem Tracks.stay (h : Tracks cost least greatest shifts b) (hclosed : b.hi ≤ b.lo) :
    Tracks cost least greatest (insert b.fallback shifts) b := by
  refine ⟨?_, ?_, ?_, h.lo_lt, ?_, h.fallback_le, h.hi_le⟩
  · rintro x (rfl | hx) hbeyond
    · exact .inr ⟨hclosed, rfl⟩
    · exact h.beyond x hx hbeyond
  · rintro x (rfl | hx) hwithin
    · exact le_refl _
    · exact h.within x hx hwithin
  · rcases Nat.lt_or_ge b.target (cost b.fallback) with hbeyond | hwithin
    · rcases h.fallback with ⟨-, hwithin⟩ | ⟨hgreatest, hall⟩
      · exact absurd hbeyond (Nat.not_lt_of_le hwithin)
      · exact .inr ⟨hgreatest, Set.forall_mem_insert.2 ⟨hbeyond, hall⟩⟩
    · exact .inl ⟨Set.mem_insert _ _, hwithin⟩
  · rcases h.lo_eq with heq | ⟨x, hx, hbeyond, heq⟩
    · exact .inl heq
    · exact .inr ⟨x, Set.mem_insert_of_mem _ hx, hbeyond, heq⟩

/-- Of the shifts named, those beyond the target lie below those within it. -/
theorem Tracks.lt (h : Tracks cost least greatest shifts b) {x y : ℚ} (hx : x ∈ shifts)
    (hy : y ∈ shifts) (hbeyond : b.target < cost x) (hwithin : cost y ≤ b.target) : x < y := by
  have hle := h.within y hy hwithin
  rcases h.beyond x hx hbeyond with hlo | ⟨-, rfl⟩
  · have hlt := h.lo_lt
    linarith
  · rcases h.fallback with ⟨-, hfallback⟩ | ⟨-, hall⟩
    · exact absurd hbeyond (Nat.not_lt_of_le hfallback)
    · exact absurd (hall y hy) (Nat.not_lt_of_le hwithin)

/-- The shift to fall back on is the least one named that is within the target, or the end of the
interval if there is none. -/
theorem Tracks.isLeast_or (h : Tracks cost least greatest shifts b) :
    IsLeast {x ∈ shifts | cost x ≤ b.target} b.fallback ∨
      (∀ x ∈ shifts, b.target < cost x) ∧ b.fallback = greatest := by
  rcases h.fallback with hfallback | ⟨hgreatest, hall⟩
  · exact .inl ⟨hfallback, fun x hx => h.within x hx.1 hx.2⟩
  · exact .inr ⟨hall, hgreatest⟩

/-- Once the interval has collapsed, shifts more than two steps below the one to fall back on are
beyond the target, whether named or not, if costs fall with the shift. -/
theorem Tracks.beyond_of_antitone (h : Tracks cost least greatest shifts b)
    (hshifts : shifts ⊆ Set.Icc least greatest) (hanti : AntitoneOn cost (Set.Icc least greatest))
    (hclosed : b.hi ≤ b.lo) {x : ℚ} (hx : x ∈ Set.Icc least greatest)
    (hfar : x < b.fallback - 2 * shiftStep) : b.target < cost x := by
  have hnear := h.fallback_le
  rcases h.lo_eq with hlo | ⟨q, hq, hbeyond, hlo⟩
  · have hstep := shiftStep_pos
    have hle := hx.1
    linarith
  · have hle : x ≤ q := by linarith
    exact Nat.lt_of_lt_of_le hbeyond (hanti hx (hshifts hq) hle)

section

variable [ShiftRounding]

/-! ### Questions and answers in any order -/

/-- A question for a shift, or an answer. -/
inductive Call where
  /-- Ask for the next shift to try. -/
  | probe
  /-- Submit a cost. -/
  | submit (cost : Nat)

/-- The search after a call. -/
def call (b : Bisection ℚ) : Call → Bisection ℚ
  | .probe => b.probe.2
  | .submit cost => (b.submit cost).2

/-- The search after calls, one after the other. -/
def after (b : Bisection ℚ) (calls : List Call) : Bisection ℚ := calls.foldl call b

theorem call_of_isCollapsed (h : b.isCollapsed = true) (c : Call) : b.call c = b := by
  cases c with
  | probe => rw [call, probe_of_isCollapsed h]
  | submit cost => rw [call, submit_of_isCollapsed h]

theorem after_of_isCollapsed (h : b.isCollapsed = true) (calls : List Call) :
    b.after calls = b := by
  induction calls with
  | nil => rfl
  | cons c calls ih => rwa [after, List.foldl_cons, call_of_isCollapsed h]

theorem IsBetween.probe_mem (h : IsBetween least greatest b) :
    b.probe.1 ∈ Set.Icc least greatest := by
  rcases lt_or_ge b.lo b.hi with hopen | hclosed
  · rw [probe_of_lt hopen]
    have hlo := h.lo
    have hhi := h.hi
    constructor
    · dsimp only
      linarith
    · dsimp only
      linarith
  · rw [probe_of_isCollapsed (isCollapsed_iff.2 hclosed)]
    exact h.fallback

theorem IsBetween.call (h : IsBetween least greatest b) (c : Call) :
    IsBetween least greatest (b.call c) ∧ b.lo ≤ (b.call c).lo ∧ (b.call c).hi ≤ b.hi := by
  have hstep := shiftStep_pos
  rcases lt_or_ge b.lo b.hi with hopen | hclosed
  · cases c with
    | probe =>
      have hmem := h.probe_mem
      rw [Bisection.call]
      rw [probe_of_lt hopen] at hmem ⊢
      refine ⟨⟨h.lo, h.hi, hmem, h.fallback, ?_, ?_⟩, le_refl b.lo, le_refl b.hi⟩
      · dsimp only
        linarith
      · dsimp only
        linarith
    | submit cost =>
      have hlo := h.lo
      have hhi := h.hi
      have hlo_le := h.lo_le
      have hle_hi := h.le_hi
      rw [Bisection.call]
      rcases lt_trichotomy cost b.target with hbelow | rfl | habove
      · rw [submit_of_below hopen hbelow]
        refine ⟨⟨hlo, ?_, h.current, h.current, hlo_le, ?_⟩, le_refl b.lo, ?_⟩
        all_goals dsimp only; linarith
      · rw [submit_of_eq hopen]
        exact ⟨⟨hlo, hhi, h.current, h.current, hlo_le, hle_hi⟩, le_refl b.lo, le_refl b.hi⟩
      · rw [submit_of_above hopen habove]
        refine ⟨⟨?_, hhi, h.current, h.fallback, le_refl _, hle_hi⟩, ?_, le_refl b.hi⟩
        all_goals dsimp only; linarith
  · rw [call_of_isCollapsed (isCollapsed_iff.2 hclosed)]
    exact ⟨h, le_refl b.lo, le_refl b.hi⟩

theorem IsBetween.after (h : IsBetween least greatest b) (calls : List Call) :
    IsBetween least greatest (b.after calls) ∧ b.lo ≤ (b.after calls).lo ∧
      (b.after calls).hi ≤ b.hi := by
  induction calls generalizing b with
  | nil => exact ⟨h, le_refl b.lo, le_refl b.hi⟩
  | cons c calls ih =>
    obtain ⟨hcall, hlo, hhi⟩ := h.call c
    obtain ⟨hafter, hlo', hhi'⟩ := ih hcall
    exact ⟨hafter, hlo.trans hlo', hhi'.trans hhi⟩

/-! ### Each shift answered with its cost -/

/-- The search after one more shift, answered with its cost. -/
def answer (cost : ℚ → Nat) (b : Bisection ℚ) : Bisection ℚ :=
  (b.probe.2.submit (cost b.probe.1)).2

/-- The search after `n` shifts, each answered with its cost. -/
def answered (cost : ℚ → Nat) (b : Bisection ℚ) (n : Nat) : Bisection ℚ := (answer cost)^[n] b

/-- The shift named after `n` others, each answered with its cost. -/
def named (cost : ℚ → Nat) (b : Bisection ℚ) (n : Nat) : ℚ := (b.answered cost n).probe.1

theorem answered_succ (b : Bisection ℚ) (n : Nat) :
    b.answered cost (n + 1) = answer cost (b.answered cost n) :=
  Function.iterate_succ_apply' ..

theorem answered_succ' (b : Bisection ℚ) (n : Nat) :
    b.answered cost (n + 1) = (answer cost b).answered cost n :=
  Function.iterate_succ_apply ..

@[simp] theorem target_answer (b : Bisection ℚ) : (answer cost b).target = b.target := by
  rw [answer, target_submit, target_probe]

theorem answer_of_isCollapsed (h : b.isCollapsed = true) : answer cost b = b := by
  rw [answer, probe_of_isCollapsed h, submit_of_isCollapsed h]

theorem answered_of_isCollapsed (h : b.isCollapsed = true) (n : Nat) : b.answered cost n = b :=
  Function.iterate_fixed (answer_of_isCollapsed h) n

theorem answer_eq_after (b : Bisection ℚ) :
    answer cost b = b.after [.probe, .submit (cost b.probe.1)] := rfl

theorem IsBetween.answered (h : IsBetween least greatest b) (n : Nat) :
    IsBetween least greatest (b.answered cost n) := by
  induction n with
  | zero => exact h
  | succ n ih =>
    rw [answered_succ, answer_eq_after]
    exact (ih.after _).1

theorem Tracks.answer (h : Tracks cost least greatest shifts b) :
    Tracks cost least greatest (insert b.probe.1 shifts) (answer cost b) := by
  rcases lt_or_ge b.lo b.hi with hopen | hclosed
  · rw [Bisection.answer, probe_of_lt hopen]
    rcases lt_trichotomy (cost ((b.hi + b.lo) / 2)) b.target with hbelow | hhit | habove
    · rw [submit_of_below (b := { b with current := (b.hi + b.lo) / 2 }) hopen hbelow]
      exact h.lower hopen hbelow.le (.inl rfl) _
    · rw [hhit, submit_of_eq (b := { b with current := (b.hi + b.lo) / 2 }) hopen]
      exact h.lower hopen hhit.le (.inr ⟨rfl, hhit⟩) _
    · rw [submit_of_above (b := { b with current := (b.hi + b.lo) / 2 }) hopen habove]
      exact h.raise hopen habove _
  · have hcollapsed := isCollapsed_iff.2 hclosed
    rw [answer_of_isCollapsed hcollapsed, probe_of_isCollapsed hcollapsed]
    exact h.stay hclosed

/-- The shifts named first. -/
def seen (cost : ℚ → Nat) (b : Bisection ℚ) (n : Nat) : Set ℚ := {x | ∃ i < n, b.named cost i = x}

theorem seen_succ (b : Bisection ℚ) (n : Nat) :
    b.seen cost (n + 1) = insert (b.named cost n) (b.seen cost n) := by
  ext x
  simp only [seen, Set.mem_ofPred_eq, Set.mem_insert_iff, Nat.lt_succ_iff_lt_or_eq]
  constructor
  · rintro ⟨i, hlt | rfl, rfl⟩
    · exact .inr ⟨i, hlt, rfl⟩
    · exact .inl rfl
  · rintro (rfl | ⟨i, hlt, rfl⟩)
    · exact ⟨n, .inr rfl, rfl⟩
    · exact ⟨i, .inl hlt, rfl⟩

theorem tracks_answered (h : least < greatest) (target n : Nat) :
    Tracks cost least greatest ((start target least greatest).seen cost n)
      ((start target least greatest).answered cost n) := by
  induction n with
  | zero =>
    have hnone : (start target least greatest).seen cost 0 = ∅ := by simp [seen]
    rw [hnone]
    exact tracks_start h target
  | succ n ih =>
    rw [answered_succ, seen_succ]
    exact ih.answer

theorem target_answered (b : Bisection ℚ) (n : Nat) : (b.answered cost n).target = b.target := by
  induction n with
  | zero => rfl
  | succ n ih => rw [answered_succ, target_answer, ih]

/-- A search whose interval closes within so many costs is closed by them, unless one of them hits
the target. -/
theorem isCollapsed_answered {tries : Nat} (h : closesWithin tries b.lo b.hi = true) :
    (b.answered cost tries).isCollapsed = true ∨ ∃ i < tries, cost (b.named cost i) = b.target := by
  induction tries generalizing b with
  | zero => exact .inl h
  | succ tries ih =>
    cases hstands : (b.probe.2.submit (cost b.probe.1)).1 with
    | false =>
      obtain ⟨-, fewer, hfewer, hcloses⟩ := closesWithin_of_reopened h hstands
      obtain rfl := Nat.succ.inj hfewer
      have htarget : (answer cost b).target = b.target := target_answer b
      rw [answered_succ', ← htarget]
      rcases ih hcloses with hcollapsed | ⟨i, hi, hhit⟩
      · exact .inl hcollapsed
      · refine .inr ⟨i + 1, Nat.succ_lt_succ hi, ?_⟩
        rw [named, answered_succ']
        exact hhit
    | true =>
      rcases lt_or_ge b.lo b.hi with hopen | hclosed
      · refine .inr ⟨0, Nat.succ_pos tries, ?_⟩
        rw [probe_of_lt hopen] at hstands
        rw [named, show b.answered cost 0 = b from rfl, probe_of_lt hopen]
        exact eq_target_of_stands (b := { b with current := (b.hi + b.lo) / 2 }) hopen hstands
      · have hcollapsed := isCollapsed_iff.2 hclosed
        exact .inl (by rwa [answered_of_isCollapsed hcollapsed])

/-- **A search closes in on the least shift within the target, and stays with it.** -/
theorem settles_on_least (target : Nat) (h : least < greatest) :
    let b : Bisection ℚ := .start target least greatest
    (∀ calls more, let s := b.after calls
      s.lo ≤ (s.after more).lo ∧ (s.after more).hi ≤ s.hi ∧ s.probe.1 ∈ Set.Icc least greatest ∧
        (s.isCollapsed = true →
          (s.after more).isCollapsed = true ∧ (s.after more).probe.1 = s.probe.1 ∧
            ∀ bits, ((s.after more).submit bits).1 = true)) ∧
      (∀ cost : ℚ → Nat,
        (∀ i j, target < cost (b.named cost i) → cost (b.named cost j) ≤ target →
          b.named cost i < b.named cost j) ∧
        (∀ n, (b.answered cost n).isCollapsed = true →
          (IsLeast {x ∈ b.seen cost n | cost x ≤ target} (b.named cost n) ∨
            (∀ x ∈ b.seen cost n, target < cost x) ∧ b.named cost n = greatest) ∧
          (AntitoneOn cost (Set.Icc least greatest) → ∀ x ∈ Set.Icc least greatest,
            x < b.named cost n - 2 * shiftStep → target < cost x)) ∧
        (least = -3 → greatest = 15 →
          (b.answered cost 10).isCollapsed = true ∨ ∃ i < 10, cost (b.named cost i) = target)) := by
  intro b
  have hstart : IsBetween least greatest b := isBetween_start h target
  refine ⟨fun calls more => ?_, fun cost => ⟨fun i j hbeyond hwithin => ?_, fun n hcollapsed => ?_,
    ?_⟩⟩
  · have hs := (hstart.after calls).1
    obtain ⟨-, hlo, hhi⟩ := hs.after more
    refine ⟨hlo, hhi, hs.probe_mem, fun hcollapsed => ?_⟩
    rw [after_of_isCollapsed hcollapsed]
    refine ⟨hcollapsed, rfl, fun bits => ?_⟩
    rw [submit_of_isCollapsed hcollapsed]
  · -- both shifts are among the first `max i j + 1`
    have htracks : Tracks cost least greatest (b.seen cost (max i j + 1))
        (b.answered cost (max i j + 1)) := tracks_answered h target _
    have htarget : (b.answered cost (max i j + 1)).target = target := target_answered ..
    rw [← htarget] at hbeyond hwithin
    exact htracks.lt ⟨i, by omega, rfl⟩ ⟨j, by omega, rfl⟩ hbeyond hwithin
  · have htracks : Tracks cost least greatest (b.seen cost n) (b.answered cost n) :=
      tracks_answered h target n
    have htarget : (b.answered cost n).target = target := target_answered ..
    have hnamed : b.named cost n = (b.answered cost n).fallback := by
      rw [named, probe_of_isCollapsed hcollapsed]
    have hseen : b.seen cost n ⊆ Set.Icc least greatest := by
      rintro x ⟨i, -, rfl⟩
      exact (hstart.answered i).probe_mem
    rw [hnamed, ← htarget]
    exact ⟨htracks.isLeast_or, fun hanti x hx hfar =>
      htracks.beyond_of_antitone hseen hanti (isCollapsed_iff.1 hcollapsed) hx hfar⟩
  · rintro rfl rfl
    exact isCollapsed_answered closesWithin_rat

end

/-- Shifts handed on as quotients of single precision. -/
@[reducible] def quotientRounding : ShiftRounding :=
  ⟨fun x => Float32.ofInt x.num / Float32.ofNat x.den⟩

/-- A cost that is always odd, and falls by two with every whole shift. -/
def stairs (x : ℚ) : Nat := 2 * ⌊15 - x⌋.toNat + 1

theorem antitone_stairs : Antitone stairs := by
  intro x y h
  have hfloor : ⌊15 - y⌋ ≤ ⌊15 - x⌋ := Int.floor_le_floor (by linarith)
  unfold stairs
  omega

theorem settles_on_least_stairs :
    letI := quotientRounding
    let b : Bisection ℚ := .start 20 (-3) 15
    (-3 : ℚ) < 15 ∧ (b.answered stairs 10).isCollapsed = true ∧
      ∀ x ∈ Set.Icc (-3 : ℚ) 15, x < b.named stairs 10 - 2 * shiftStep → 20 < stairs x := by
  intro b
  let _ := quotientRounding
  have h : (-3 : ℚ) < 15 := by norm_num
  obtain ⟨-, hcourse⟩ := settles_on_least 20 h
  obtain ⟨-, hleast, hcloses⟩ := hcourse stairs
  have hcollapsed : (b.answered stairs 10).isCollapsed = true := by
    rcases hcloses rfl rfl with hcollapsed | ⟨i, -, hhit⟩
    · exact hcollapsed
    · unfold stairs at hhit
      omega
  exact ⟨h, hcollapsed, (hleast 10 hcollapsed).2 (antitone_stairs.antitoneOn _)⟩

end Bisection

end SpectralCoding
