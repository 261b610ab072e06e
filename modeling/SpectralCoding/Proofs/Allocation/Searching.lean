import SpectralCoding.Allocation.ShiftSearch

/-!
# What a search for a shift ends with

* `ShiftSearch.isOutcome_search` : an allocation within the target that some shift gives, or
  silence.
-/

namespace SpectralCoding

namespace ShiftSearch

variable {κ : Type} {target blocks : Nat} {close : Nat → Bool} {eval : κ → Allocation}

/-- Silence, or an allocation within the target that some shift gives. -/
def IsOutcome (target blocks : Nat) (eval : κ → Allocation) (alloc : Allocation) : Prop :=
  alloc = .silence blocks ∨ ∃ shift, alloc = eval shift ∧ alloc.bits ≤ target

theorem isOutcome_getD {best : Option Allocation}
    (h : ∀ alloc, best = some alloc → IsOutcome target blocks eval alloc) :
    IsOutcome target blocks eval (best.getD (.silence blocks)) := by
  cases best with
  | none => exact .inl rfl
  | some alloc => exact h alloc rfl

variable [Dial κ]

theorem isOutcome_go {fuel : Nat} {lo hi : κ} {best : Option Allocation}
    (hbest : ∀ alloc, best = some alloc → IsOutcome target blocks eval alloc) :
    IsOutcome target blocks eval
      (go (m := Id) target blocks (fun bits => pure (close bits)) eval fuel lo hi best).run := by
  induction fuel generalizing lo hi best with
  | zero => exact isOutcome_getD hbest
  | succ fuel ih =>
    have hgo : (go (m := Id) target blocks (fun bits => pure (close bits)) eval (fuel + 1) lo hi
          best).run =
        let shift := Dial.mid hi lo
        if target < (eval shift).bits then
          if Dial.lt hi (Dial.up shift) then best.getD (.silence blocks)
          else (go (m := Id) target blocks (fun bits => pure (close bits)) eval fuel (Dial.up shift)
            hi best).run
        else if close (eval shift).bits || Dial.isNarrow hi lo then eval shift
        else if Dial.lt (Dial.down shift) lo then eval shift
        else (go (m := Id) target blocks (fun bits => pure (close bits)) eval fuel lo
          (Dial.down shift) (some (eval shift))).run := by
      rfl
    rw [hgo]
    by_cases hover : target < (eval (Dial.mid hi lo)).bits
    · simp only [if_pos hover]
      split
      · exact isOutcome_getD hbest
      · exact ih hbest
    · have hprobe : IsOutcome target blocks eval (eval (Dial.mid hi lo)) :=
        .inr ⟨_, rfl, Nat.le_of_not_lt hover⟩
      simp only [if_neg hover]
      split
      · exact hprobe
      · split
        · exact hprobe
        · exact ih fun alloc h => Option.some.inj h ▸ hprobe

/-- **A search ends with an allocation within the target, or with silence.** -/
theorem isOutcome_search (target slack blocks : Nat) (eval : κ → Allocation) :
    IsOutcome target blocks eval (search (m := Id) target slack blocks eval).run :=
  isOutcome_go nofun

end ShiftSearch

end SpectralCoding
