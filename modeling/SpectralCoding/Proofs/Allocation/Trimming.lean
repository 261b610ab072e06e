import SpectralCoding.Allocation

/-!
# Trimming to a budget

* `cost_trim` : the cost that `trim` reports is what the lengths it leaves cost.
* `cost_trim_le` : it is within the budget.
* `length_trim`, `eq_zero_or_mem_of_mem_trim` : trimming keeps the number of blocks and silences
  some of them.
-/

namespace SpectralCoding

@[simp] theorem mantissaBits_nil_left (lines : List Nat) : mantissaBits [] lines = 0 := rfl

@[simp] theorem mantissaBits_nil_right (lengths : List Nat) : mantissaBits lengths [] = 0 := by
  simp [mantissaBits]

theorem mantissaBits_set {lengths lines : List Nat} {i l n : Nat} (hl : lengths[i]? = some l)
    (hn : lines[i]? = some n) (l' : Nat) :
    mantissaBits (lengths.set i l') lines + l * n = mantissaBits lengths lines + l' * n := by
  induction lengths generalizing i lines with
  | nil => simp at hl
  | cons w ws ih =>
    cases lines with
    | nil => simp at hn
    | cons k ks =>
      cases i with
      | zero =>
        simp only [List.getElem?_cons_zero, Option.some.injEq] at hl hn
        subst hl hn
        simp only [List.set_cons_zero, mantissaBits_cons]
        omega
      | succ i =>
        simp only [List.getElem?_cons_succ] at hl hn
        have h := ih hl hn
        simp only [List.set_cons_succ, mantissaBits_cons]
        omega

variable (target : Nat)

theorem length_trimFrom (spent : Nat) (lengths lines : List Nat) :
    (trimFrom target spent lengths lines).1.length = lengths.length := by
  induction lengths generalizing spent lines with
  | nil => cases lines <;> rfl
  | cons w ws ih =>
    cases lines with
    | nil => rfl
    | cons n ns =>
      simp only [trimFrom]
      split <;> simp [ih]

theorem eq_zero_or_mem_of_mem_trimFrom {spent : Nat} {lengths lines : List Nat} {w : Nat}
    (h : w ∈ (trimFrom target spent lengths lines).1) : w = 0 ∨ w ∈ lengths := by
  induction lengths generalizing spent lines with
  | nil => cases lines <;> exact .inr h
  | cons v vs ih =>
    cases lines with
    | nil => exact .inr h
    | cons n ns =>
      simp only [trimFrom] at h
      split at h
      · rcases List.mem_cons.1 h with rfl | h
        · exact .inr List.mem_cons_self
        · exact (ih h).imp_right (List.mem_cons_of_mem _)
      · rcases List.mem_cons.1 h with rfl | h
        · exact .inl rfl
        · exact (ih h).imp_right (List.mem_cons_of_mem _)

theorem cost_trimFrom_le (spent : Nat) (lengths lines : List Nat) :
    (trimFrom target spent lengths lines).2 ≤ max target spent := by
  induction lengths generalizing spent lines with
  | nil => cases lines <;> exact Nat.le_max_right ..
  | cons w ws ih =>
    cases lines with
    | nil => exact Nat.le_max_right ..
    | cons n ns =>
      have h := ih (spent + w * n) ns
      simp only [trimFrom]
      split <;> simp only <;> omega

theorem cost_trimFrom (spent : Nat) (lengths lines : List Nat) :
    (trimFrom target spent lengths lines).2 =
      spent + mantissaBits (trimFrom target spent lengths lines).1 lines := by
  induction lengths generalizing spent lines with
  | nil => cases lines <;> rfl
  | cons w ws ih =>
    cases lines with
    | nil => simp [trimFrom]
    | cons n ns =>
      have h := ih (spent + w * n) ns
      simp only [trimFrom]
      split <;> simp only [mantissaBits_cons] <;> omega

/-! ### Trimming from the first block -/

variable {target} {lengths lines : List Nat}

@[simp] theorem length_trim : (trim target lengths lines).1.length = lengths.length :=
  length_trimFrom ..

theorem eq_zero_or_mem_of_mem_trim {w : Nat} (h : w ∈ (trim target lengths lines).1) :
    w = 0 ∨ w ∈ lengths :=
  eq_zero_or_mem_of_mem_trimFrom target h

theorem cost_trim :
    (trim target lengths lines).2 = mantissaBits (trim target lengths lines).1 lines := by
  have h := cost_trimFrom target 0 lengths lines
  rwa [Nat.zero_add] at h

theorem cost_trim_le : (trim target lengths lines).2 ≤ target := by
  have h := cost_trimFrom_le target 0 lengths lines
  rwa [Nat.max_eq_left (Nat.zero_le _)] at h

end SpectralCoding
