import SpectralCoding.Allocation.ShiftSearch
import SpectralCoding.Proofs.Search.Exact

/-!
# The shifts a search tries

A search is a loop that goes on until it has an answer. Written with a bound on the number of its
probes it is the same loop as long as the bound is not reached, and in exact arithmetic ten probes
are enough: every probe that is no answer more than halves the interval.

* `ShiftSearch.EndsWith` : the loop without a bound, with the shifts it tries.
* `ShiftSearch.EndsWith.go_eq` : the bounded search does what the loop does, whatever else an
  evaluation has for an effect.
* `ShiftSearch.EndsWith.congr`, `ShiftSearch.EndsWith.mem_Icc` : only the shifts tried matter, and
  they lie in the interval.
* `ShiftSearch.exists_endsWith_run` : an evaluation that remembers what it was asked is, for a
  search, the function of the answers it gives, since no shift is tried twice.
* `ShiftSearch.exists_endsWith` : **a search ends within ten probes.**
-/

namespace SpectralCoding

namespace ShiftSearch

section Loop

variable {κ : Type} [Dial κ] (target : Nat) (close : Nat → Bool) (blocks : Nat)
  (eval : κ → Allocation)

/-- A search on `[lo, hi]` with `best` the last allocation kept tries the shifts `probes`, in this
order, and ends with an allocation. -/
inductive EndsWith :
    (lo hi : κ) → (best : Option Allocation) → (probes : List κ) → (found : Allocation) → Prop where
  /-- Too much at the last shift: the one kept is the answer, or silence. -/
  | exhausted {lo hi : κ} {best : Option Allocation}
      (hover : target < (eval (Dial.mid hi lo)).bits)
      (hcross : Dial.lt hi (Dial.up (Dial.mid hi lo)) = true) :
      EndsWith lo hi best [Dial.mid hi lo] (best.getD (.silence blocks))
  /-- Too much: on with greater shifts. -/
  | raise {lo hi : κ} {best : Option Allocation} {probes : List κ} {found : Allocation}
      (hover : target < (eval (Dial.mid hi lo)).bits)
      (hopen : Dial.lt hi (Dial.up (Dial.mid hi lo)) = false)
      (rest : EndsWith (Dial.up (Dial.mid hi lo)) hi best probes found) :
      EndsWith lo hi best (Dial.mid hi lo :: probes) found
  /-- Within the window, or affordable on a nearly closed interval: this is the answer. -/
  | accept {lo hi : κ} {best : Option Allocation}
      (hfits : ¬ target < (eval (Dial.mid hi lo)).bits)
      (hclose : close (eval (Dial.mid hi lo)).bits = true ∨ Dial.isNarrow hi lo = true) :
      EndsWith lo hi best [Dial.mid hi lo] (eval (Dial.mid hi lo))
  /-- Affordable at the last shift: this is the answer. -/
  | settle {lo hi : κ} {best : Option Allocation}
      (hfits : ¬ target < (eval (Dial.mid hi lo)).bits)
      (hspare : ¬ (close (eval (Dial.mid hi lo)).bits = true ∨ Dial.isNarrow hi lo = true))
      (hcross : Dial.lt (Dial.down (Dial.mid hi lo)) lo = true) :
      EndsWith lo hi best [Dial.mid hi lo] (eval (Dial.mid hi lo))
  /-- Affordable: it is kept, and on with smaller shifts. -/
  | lower {lo hi : κ} {best : Option Allocation} {probes : List κ} {found : Allocation}
      (hfits : ¬ target < (eval (Dial.mid hi lo)).bits)
      (hspare : ¬ (close (eval (Dial.mid hi lo)).bits = true ∨ Dial.isNarrow hi lo = true))
      (hopen : Dial.lt (Dial.down (Dial.mid hi lo)) lo = false)
      (rest : EndsWith lo (Dial.down (Dial.mid hi lo)) (some (eval (Dial.mid hi lo))) probes found) :
      EndsWith lo hi best (Dial.mid hi lo :: probes) found

variable {target blocks : Nat} {close : Nat → Bool} {eval : κ → Allocation} {lo hi : κ}
  {best : Option Allocation} {probes : List κ} {found : Allocation}

theorem EndsWith.congr {other : κ → Allocation}
    (h : EndsWith target close blocks eval lo hi best probes found)
    (hsame : ∀ shift ∈ probes, other shift = eval shift) :
    EndsWith target close blocks other lo hi best probes found := by
  induction h with
  | @exhausted lo hi best hover hcross =>
    have hmid := List.forall_mem_singleton.1 hsame
    exact .exhausted (by rwa [hmid]) hcross
  | raise hover hopen rest ih =>
    obtain ⟨hmid, hrest⟩ := List.forall_mem_cons.1 hsame
    exact .raise (by rwa [hmid]) hopen (ih hrest)
  | @accept lo hi best hfits hclose =>
    have hmid := List.forall_mem_singleton.1 hsame
    rw [← hmid] at hfits hclose ⊢
    exact .accept hfits hclose
  | @settle lo hi best hfits hspare hcross =>
    have hmid := List.forall_mem_singleton.1 hsame
    rw [← hmid] at hfits hspare ⊢
    exact .settle hfits hspare hcross
  | lower hfits hspare hopen rest ih =>
    obtain ⟨hmid, hrest⟩ := List.forall_mem_cons.1 hsame
    rw [← hmid] at hfits hspare ih
    exact .lower hfits hspare hopen (ih hrest)

section Effects

variable {m : Type → Type} [Monad m] [LawfulMonad m] (act : κ → m PUnit)

/-- An evaluation with an effect of its own. -/
def evaluate (act : κ → m PUnit) (eval : κ → Allocation) (shift : κ) : m Allocation := do
  act shift
  return eval shift

theorem go_evaluate (fuel : Nat) (lo hi : κ) (best : Option Allocation) :
    go target blocks (fun bits => pure (close bits)) (evaluate act eval) (fuel + 1) lo hi best =
      act (Dial.mid hi lo) >>= fun _ =>
        if target < (eval (Dial.mid hi lo)).bits then
          if Dial.lt hi (Dial.up (Dial.mid hi lo)) then pure (best.getD (.silence blocks))
          else go target blocks (fun bits => pure (close bits)) (evaluate act eval) fuel
            (Dial.up (Dial.mid hi lo)) hi best
        else if close (eval (Dial.mid hi lo)).bits || Dial.isNarrow hi lo then
          pure (eval (Dial.mid hi lo))
        else if Dial.lt (Dial.down (Dial.mid hi lo)) lo then pure (eval (Dial.mid hi lo))
        else go target blocks (fun bits => pure (close bits)) (evaluate act eval) fuel lo
          (Dial.down (Dial.mid hi lo)) (some (eval (Dial.mid hi lo))) := by
  simp only [go, evaluate, bind_assoc, pure_bind]

/-- A bound that is not exceeded makes no difference: each shift tried is evaluated once, in order,
and the search ends with the same allocation. -/
theorem EndsWith.go_eq (h : EndsWith target close blocks eval lo hi best probes found)
    (spare : Nat) :
    go target blocks (fun bits => pure (close bits)) (evaluate act eval) (probes.length + spare) lo
        hi best =
      forM probes act >>= fun _ => pure found := by
  induction h with
  | exhausted hover hcross =>
    rw [List.length_singleton, Nat.add_comm, go_evaluate, List.forM_cons, List.forM_nil,
      bind_pure_unit]
    simp only [if_pos hover, if_pos hcross]
  | raise hover hopen rest ih =>
    rw [List.length_cons, Nat.add_right_comm, go_evaluate, List.forM_cons, bind_assoc, ← ih]
    simp only [if_pos hover, hopen, Bool.false_eq_true, if_false]
  | accept hfits hclose =>
    have hanswer := Bool.or_eq_true_iff.2 hclose
    rw [List.length_singleton, Nat.add_comm, go_evaluate, List.forM_cons, List.forM_nil,
      bind_pure_unit]
    simp only [if_neg hfits, if_pos hanswer]
  | settle hfits hspare hcross =>
    rw [List.length_singleton, Nat.add_comm, go_evaluate, List.forM_cons, List.forM_nil,
      bind_pure_unit]
    simp only [if_neg hfits, if_pos hcross, ite_self]
  | @lower lo hi best probes found hfits hspare hopen rest ih =>
    rw [List.length_cons, Nat.add_right_comm, go_evaluate, List.forM_cons, bind_assoc, ← ih]
    have hanswer := mt Bool.or_eq_true_iff.1 hspare
    simp only [if_neg hfits, if_neg hanswer, hopen, Bool.false_eq_true, if_false]

theorem EndsWith.search_eq {slack : Nat}
    (h : EndsWith target (isClose target slack) blocks eval leastShift greatestShift none probes
      found)
    (hprobes : probes.length ≤ fuel) :
    search target slack blocks (evaluate act eval) = forM probes act >>= fun _ => pure found := by
  rw [search, ← Nat.add_sub_cancel' hprobes]
  exact h.go_eq act _

end Effects

theorem EndsWith.run_search {slack : Nat}
    (h : EndsWith target (isClose target slack) blocks eval leastShift greatestShift none probes
      found)
    (hprobes : probes.length ≤ fuel) :
    (search (m := Id) target slack blocks fun shift => pure (eval shift)).run = found := by
  have heval : (fun shift => pure (eval shift) : κ → Id Allocation) =
      evaluate (fun _ => pure ⟨⟩) eval := rfl
  rw [heval, h.search_eq _ hprobes]
  rfl

end Loop

/-! ### An evaluation that remembers -/

section Remembering

variable {κ σ : Type} {eval : κ → StateM σ Allocation}

theorem run_go_succ [Dial κ] {target blocks : Nat} {close : Nat → Bool} {s after : σ} {fuel : Nat}
    {lo hi : κ} {best : Option Allocation} {answer : Allocation}
    (h : (eval (Dial.mid hi lo)).run s = (answer, after)) :
    (go target blocks (fun bits => pure (close bits)) eval (fuel + 1) lo hi best).run s =
      (if target < answer.bits then
          if Dial.lt hi (Dial.up (Dial.mid hi lo)) then pure (best.getD (.silence blocks))
          else go target blocks (fun bits => pure (close bits)) eval fuel
            (Dial.up (Dial.mid hi lo)) hi best
        else if close answer.bits || Dial.isNarrow hi lo then pure answer
        else if Dial.lt (Dial.down (Dial.mid hi lo)) lo then pure answer
        else go target blocks (fun bits => pure (close bits)) eval fuel lo
          (Dial.down (Dial.mid hi lo)) (some answer)).run after := by
  rw [go, StateT.run_bind, h]
  rfl

/-- The calls made at `probes` give the answers `f`, and leave the state `after`. -/
def Answers (eval : κ → StateM σ Allocation) (f : κ → Allocation) (probes : List κ)
    (s after : σ) : Prop :=
  (probes.mapM eval).run s = (probes.map f, after)

theorem answers_cons {f : κ → Allocation} {shift : κ} {probes : List κ} {s between after : σ}
    (h : (eval shift).run s = (f shift, between)) (hrest : Answers eval f probes between after) :
    Answers eval f (shift :: probes) s after := by
  unfold Answers at *
  rw [List.mapM_cons, StateT.run_bind, h]
  change (do let answers ← probes.mapM eval; pure (f shift :: answers) : StateM σ _).run between = _
  rw [StateT.run_bind, hrest]
  rfl

theorem answers_singleton {f : κ → Allocation} {shift : κ} {s after : σ}
    (h : (eval shift).run s = (f shift, after)) : Answers eval f [shift] s after :=
  answers_cons h rfl

/-- Answers that do not depend on what was asked before. -/
theorem answers_of_const {f : κ → Allocation} (h : ∀ shift s, ((eval shift).run s).1 = f shift)
    (probes : List κ) (s : σ) : ∃ after, Answers eval f probes s after := by
  induction probes generalizing s with
  | nil => exact ⟨s, rfl⟩
  | cons shift probes ih =>
    obtain ⟨after, hafter⟩ := ih ((eval shift).run s).2
    exact ⟨after, answers_cons (Prod.ext (h shift s) rfl) hafter⟩

/-- The same calls give the same answers. -/
theorem Answers.unique {f g : κ → Allocation} {probes : List κ} {s after after' : σ}
    (hf : Answers eval f probes s after) (hg : Answers eval g probes s after') :
    ∀ shift ∈ probes, f shift = g shift :=
  List.map_inj_left.1 (congrArg Prod.fst (hf.symm.trans hg))

theorem Answers.update [DecidableEq κ] {f : κ → Allocation} {shift : κ} {answer : Allocation}
    {probes : List κ} {s between after : σ} (h : (eval shift).run s = (answer, between))
    (hrest : Answers eval f probes between after) (hapart : ∀ other ∈ probes, other ≠ shift) :
    Answers eval (Function.update f shift answer) (shift :: probes) s after := by
  refine answers_cons (by rwa [Function.update_self]) ?_
  rw [Answers, hrest, List.map_congr_left fun other hother =>
    (Function.update_of_ne (hapart other hother) answer f).symm]

end Remembering

/-! ### Exact arithmetic -/

section Exact

variable [ShiftRounding] {target blocks : Nat} {close : Nat → Bool} {eval : ℚ → Allocation}

theorem EndsWith.mem_Icc {lo hi : ℚ} {best : Option Allocation} {probes : List ℚ}
    {found : Allocation} (h : EndsWith target close blocks eval lo hi best probes found)
    (hopen : lo ≤ hi) : ∀ shift ∈ probes, shift ∈ Set.Icc lo hi := by
  have hmid {lo hi : ℚ} (hle : lo ≤ hi) : (Dial.mid hi lo : ℚ) ∈ Set.Icc lo hi := by
    constructor <;> simp only [Dial.mid] <;> linarith
  have hstep := shiftStep_pos
  induction h with
  | exhausted hover hcross => exact List.forall_mem_singleton.2 (hmid hopen)
  | @raise lo hi best probes found hover hcross rest ih =>
    have hle : Dial.up (Dial.mid hi lo) ≤ hi := not_lt.1 (of_decide_eq_false hcross)
    refine List.forall_mem_cons.2 ⟨hmid hopen, fun shift hshift => ?_⟩
    obtain ⟨hlower, hupper⟩ := ih hle shift hshift
    refine ⟨le_trans ?_ hlower, hupper⟩
    simp only [Dial.up, Dial.mid]
    linarith
  | accept hfits hclose => exact List.forall_mem_singleton.2 (hmid hopen)
  | settle hfits hspare hcross => exact List.forall_mem_singleton.2 (hmid hopen)
  | @lower lo hi best probes found hfits hspare hcross rest ih =>
    have hle : lo ≤ Dial.down (Dial.mid hi lo) := not_lt.1 (of_decide_eq_false hcross)
    refine List.forall_mem_cons.2 ⟨hmid hopen, fun shift hshift => ?_⟩
    obtain ⟨hlower, hupper⟩ := ih hle shift hshift
    refine ⟨hlower, le_trans hupper ?_⟩
    simp only [Dial.down, Dial.mid]
    linarith

section Apart

variable {lo hi : ℚ} {best : Option Allocation} {probes : List ℚ} {found : Allocation}

/-- On with greater shifts, the shift tried before is not tried again. -/
theorem EndsWith.ne_mid_of_raised
    (h : EndsWith target close blocks eval (Dial.up (Dial.mid hi lo)) hi best probes found)
    (hopen : Dial.up (Dial.mid hi lo) ≤ hi) : ∀ shift ∈ probes, shift ≠ Dial.mid hi lo := by
  intro shift hshift
  have hlower := (h.mem_Icc hopen shift hshift).1
  exact (lt_of_lt_of_le (lt_add_of_pos_right _ shiftStep_pos) hlower).ne'

theorem EndsWith.ne_mid_of_lowered
    (h : EndsWith target close blocks eval lo (Dial.down (Dial.mid hi lo)) best probes found)
    (hopen : lo ≤ Dial.down (Dial.mid hi lo)) : ∀ shift ∈ probes, shift ≠ Dial.mid hi lo := by
  intro shift hshift
  have hupper := (h.mem_Icc hopen shift hshift).2
  exact (lt_of_le_of_lt hupper (sub_lt_self _ shiftStep_pos)).ne

end Apart

/-- Every probe that is no answer more than halves the interval. No shift is tried twice, so what
the evaluation answers can be taken for a function of the shift. -/
theorem exists_endsWith_run {σ : Type} (target : Nat) (close : Nat → Bool) (blocks : Nat)
    (eval : ℚ → StateM σ Allocation) {tries : Nat} {lo hi : ℚ} (best : Option Allocation) (s : σ)
    (hopen : lo ≤ hi) (h : hi - lo < 2 * shiftStep * (2 ^ tries - 1)) (spare : Nat) :
    ∃ f probes found after, EndsWith target close blocks f lo hi best probes found ∧
      probes.length ≤ tries ∧ Answers eval f probes s after ∧
        (go target blocks (fun bits => pure (close bits)) eval (tries + spare) lo hi best).run s =
          (found, after) := by
  induction tries generalizing lo hi best s with
  | zero =>
    exfalso
    norm_num at h
    linarith
  | succ tries ih =>
    have hstep := shiftStep_pos
    have hhalf : (hi - lo) / 2 - shiftStep < 2 * shiftStep * (2 ^ tries - 1) := by
      rw [pow_succ] at h
      linarith
    rcases hanswer : (eval (Dial.mid hi lo)).run s with ⟨answer, between⟩
    rw [Nat.add_right_comm, run_go_succ hanswer]
    -- one case for each way the loop goes on or ends
    by_cases hover : target < answer.bits
    · rw [if_pos hover]
      cases hcross : Dial.lt hi (Dial.up (Dial.mid hi lo)) with
      | true =>
        exact ⟨fun _ => answer, _, _, between, .exhausted hover hcross,
          Nat.succ_le_succ (Nat.zero_le _), answers_singleton hanswer, rfl⟩
      | false =>
        have hle : Dial.up (Dial.mid hi lo) ≤ hi := not_lt.1 (of_decide_eq_false hcross)
        have hwidth : hi - Dial.up (Dial.mid hi lo) < 2 * shiftStep * (2 ^ tries - 1) := by
          simp only [Dial.up, Dial.mid]
          linarith
        obtain ⟨f, probes, found, after, hends, hprobes, hanswers, hrun⟩ :=
          ih best between hle hwidth
        have hapart := hends.ne_mid_of_raised hle
        refine ⟨_, _, found, after, .raise ?_ hcross (hends.congr fun other hother =>
          Function.update_of_ne (hapart other hother) answer f), Nat.succ_le_succ hprobes,
          hanswers.update hanswer hapart, hrun⟩
        rwa [Function.update_self]
    · rw [if_neg hover]
      by_cases hclose : close answer.bits = true ∨ Dial.isNarrow hi lo = true
      · refine ⟨fun _ => answer, _, _, between, .accept hover hclose,
          Nat.succ_le_succ (Nat.zero_le _), answers_singleton hanswer, ?_⟩
        rw [if_pos (Bool.or_eq_true_iff.2 hclose)]
        rfl
      · rw [if_neg (mt Bool.or_eq_true_iff.1 hclose)]
        cases hcross : Dial.lt (Dial.down (Dial.mid hi lo)) lo with
        | true =>
          exact ⟨fun _ => answer, _, _, between, .settle hover hclose hcross,
            Nat.succ_le_succ (Nat.zero_le _), answers_singleton hanswer, rfl⟩
        | false =>
          have hle : lo ≤ Dial.down (Dial.mid hi lo) := not_lt.1 (of_decide_eq_false hcross)
          have hwidth : Dial.down (Dial.mid hi lo) - lo < 2 * shiftStep * (2 ^ tries - 1) := by
            simp only [Dial.down, Dial.mid]
            linarith
          obtain ⟨f, probes, found, after, hends, hprobes, hanswers, hrun⟩ :=
            ih (some answer) between hle hwidth
          have hapart := hends.ne_mid_of_lowered hle
          have hends' := hends.congr fun other hother =>
            Function.update_of_ne (hapart other hother) answer f
          have hkept : Function.update f (Dial.mid hi lo) answer (Dial.mid hi lo) = answer :=
            Function.update_self ..
          refine ⟨_, _, found, after, .lower ?_ ?_ hcross ?_, Nat.succ_le_succ hprobes,
            hanswers.update hanswer hapart, hrun⟩
          · rwa [hkept]
          · rwa [hkept]
          · rwa [hkept]

/-- The most shifts that a search tries. -/
def mostProbes : Nat := 10

theorem leastShift_le : (leastShift : ℚ) ≤ greatestShift := by
  simp only [leastShift, greatestShift, Dial.ofInt]
  norm_num

theorem greatestShift_sub_leastShift :
    (greatestShift : ℚ) - leastShift < 2 * shiftStep * (2 ^ mostProbes - 1) := by
  simp only [leastShift, greatestShift, Dial.ofInt, shiftStep, mostProbes]
  norm_num

/-- **A search ends within ten probes**, whatever is evaluated. -/
theorem exists_endsWith (target : Nat) (close : Nat → Bool) (blocks : Nat)
    (eval : ℚ → Allocation) :
    ∃ probes found,
      EndsWith target close blocks eval leastShift greatestShift none probes found ∧
        probes.length ≤ mostProbes := by
  have hconst : ∀ shift s, ((pure (eval shift) : StateM Unit Allocation).run s).1 = eval shift :=
    fun _ _ => rfl
  obtain ⟨f, probes, found, after, hends, hprobes, hanswers, -⟩ :=
    exists_endsWith_run target close blocks (fun shift => (pure (eval shift) : StateM Unit Allocation))
      none () leastShift_le greatestShift_sub_leastShift 0
  obtain ⟨_, hown⟩ := answers_of_const hconst probes ()
  exact ⟨probes, found, hends.congr (hown.unique hanswers), hprobes⟩

end Exact

end ShiftSearch

end SpectralCoding
