import SpectralCoding.Atrac3.Mantissa
import SpectralCoding.Proofs.Bits.EmissionParts

/-!
# What mantissas cost

* `Atrac3.length_emitFixed` : words of fixed length take what was foretold, with an even number of
  mantissas where they are taken in pairs.
* `Atrac3.length_emitVariable` : words of variable length take what was foretold, and none is
  missing.
* `Atrac3.fault_emitFixed`, `Atrac3.fault_emitVariable` : words are written without a fault, each
  mantissa in a word of fixed length, or all in words that have a cost.
* `Atrac3.written_eq_foretold` : **the bits written are those foretold**, but for a last mantissa
  without a partner in words of fixed length.
-/

namespace SpectralCoding

namespace Atrac3

variable {selector : Nat} {ms : List Int}

/-! ### Words of fixed length -/

theorem length_pairs (ms : List Int) : (pairs ms).length = (ms.length + 1) / 2 := by
  fun_induction pairs ms with
  | case1 => rfl
  | case2 a => simp
  | case3 a b rest ih =>
    simp only [List.length_cons, ih]
    omega

theorem length_emitFixedPair {p : Int × Option Int} (h : (emitFixedPair selector p).fault = none) :
    (emitFixedPair selector p).bits.length = fixedWidth selector := by
  unfold emitFixedPair at h ⊢
  cases hhi : halfCode p.1 with
  | none =>
    rw [hhi] at h
    cases h
  | some hi =>
    cases hlo : halfCode (p.2.getD 0) with
    | none =>
      rw [hhi, hlo] at h
      cases h
    | some lo => exact Bits.length_ofNat ..

/-- A mantissa without a partner has a word of fixed length, whatever it is. -/
theorem fault_emitFixed (hselector : 1 < selector) (ms : List Int) :
    (emitFixed selector ms).fault = none := by
  rw [emitFixed, if_pos hselector]
  exact Emission.fault_each_eq_none.2 fun _ _ => rfl

/-- Words of fixed length take what was foretold, and two bits more where the last pair has to be
filled up. -/
theorem length_emitFixed_eq (h : (emitFixed selector ms).fault = none) :
    (emitFixed selector ms).bits.length =
      fixedCost selector ms.length + if selector = 1 ∧ ms.length % 2 = 1 then 2 else 0 := by
  unfold emitFixed at h ⊢
  unfold fixedCost
  by_cases hselector : 1 < selector
  · have hsingle : ¬ (selector = 1 ∧ ms.length % 2 = 1) := fun hodd => by omega
    rw [if_pos hselector, if_pos hselector, if_neg hsingle, Nat.mul_comm]
    exact Emission.length_each_of_width (fun _ _ => rfl) fun m _ => Bits.length_ofInt ..
  · rw [if_neg hselector] at h
    rw [if_neg hselector, if_neg hselector]
    have hclean := Emission.fault_each_eq_none.1 h
    rw [Emission.length_each_of_width hclean fun p hp => length_emitFixedPair (hclean p hp),
      length_pairs]
    obtain rfl | rfl : selector = 0 ∨ selector = 1 := by omega
    · have hnone : fixedWidth 0 = 0 := rfl
      simp [hnone]
    · have hpair : fixedWidth 1 = 4 := rfl
      rw [hpair]
      split <;> omega

/-- Words of fixed length take what was foretold, with an even number of mantissas where they are
taken in pairs. -/
theorem length_emitFixed (heven : selector ≤ 1 → ms.length % 2 = 0)
    (h : (emitFixed selector ms).fault = none) :
    (emitFixed selector ms).bits.length = fixedCost selector ms.length := by
  have hfilled : ¬ (selector = 1 ∧ ms.length % 2 = 1) := fun ⟨hone, hodd⟩ => by
    have := heven (Nat.le_of_eq hone)
    omega
  rw [length_emitFixed_eq h, if_neg hfilled, Nat.add_zero]

/-! ### Words of variable length -/

theorem totalWidth_map_some (words : List Codeword) :
    totalWidth (words.map some) = some (words.map (·.width)).sum := by
  induction words with
  | nil => rfl
  | cons w words ih =>
    rw [List.map_cons, totalWidth, ih]
    rfl

theorem totalWidth_eq_some {words : List (Option Codeword)} {v : Nat} :
    totalWidth words = some v ↔
      ∃ ws : List Codeword, words = ws.map some ∧ v = (ws.map (·.width)).sum := by
  refine ⟨fun h => ?_, ?_⟩
  · induction words generalizing v with
    | nil => exact ⟨[], rfl, (Option.some.inj h).symm⟩
    | cons word words ih =>
      cases word with
      | none => cases h
      | some w =>
        obtain ⟨rest, hrest, rfl⟩ := Option.map_eq_some_iff.1 h
        obtain ⟨ws, rfl, rfl⟩ := ih hrest
        exact ⟨w :: ws, rfl, rfl⟩
  · rintro ⟨ws, rfl, rfl⟩
    exact totalWidth_map_some ws

theorem emitWords_of_totalWidth {words : List (Option Codeword)} {v : Nat}
    (h : totalWidth words = some v) {f : Option Codeword → Emission}
    (hf : ∀ w, f (some w) = .field w.width w.code) :
    (Emission.each words f).fault = none ∧ (Emission.each words f).bits.length = v := by
  induction words generalizing v with
  | nil =>
    obtain rfl := Option.some.inj h
    exact ⟨rfl, rfl⟩
  | cons word words ih =>
    cases word with
    | none => cases h
    | some w =>
      obtain ⟨rest, hrest, rfl⟩ := Option.map_eq_some_iff.1 h
      obtain ⟨hclean, hlength⟩ := ih hrest
      have hword : (f (some w)).fault = none := by rw [hf]; rfl
      have hcons : Emission.each (some w :: words) f = f (some w) ++ Emission.each words f := rfl
      rw [hcons, Emission.fault_append_of_clean hword, Emission.bits_append_of_clean hword,
        List.length_append, hlength, hf]
      exact ⟨hclean, by simp⟩

/-- A row in which a word is missing breaks off there. -/
theorem totalWidth_ne_none_of_emitWords {words : List (Option Codeword)}
    {f : Option Codeword → Emission} (hf : (f none).fault ≠ none)
    (h : (Emission.each words f).fault = none) : totalWidth words ≠ none := by
  induction words with
  | nil => exact Option.some_ne_none _
  | cons word words ih =>
    have hcons : Emission.each (word :: words) f = f word ++ Emission.each words f := rfl
    rw [hcons] at h
    obtain ⟨hword, hwords⟩ := Emission.fault_append_eq_none.1 h
    cases word with
    | none => exact absurd hword hf
    | some w =>
      rw [totalWidth, Ne, Option.map_eq_none_iff]
      exact ih hwords

theorem fault_emitVariable {v : Nat} (h : variableCost selector ms = some v) :
    (emitVariable selector ms).fault = none :=
  (emitWords_of_totalWidth h fun _ => rfl).1

theorem length_emitVariable {v : Nat} (h : variableCost selector ms = some v) :
    (emitVariable selector ms).bits.length = v :=
  (emitWords_of_totalWidth h fun _ => rfl).2

/-- Words of variable length have a cost if and only if they are written, and it is their length. -/
theorem variableCost_eq (selector : Nat) (ms : List Int) :
    variableCost selector ms =
      if (emitVariable selector ms).fault = none then some (emitVariable selector ms).bits.length
      else none := by
  cases hcost : variableCost selector ms with
  | some v => rw [if_pos (fault_emitVariable hcost), length_emitVariable hcost]
  | none =>
    rw [if_neg]
    intro h
    exact totalWidth_ne_none_of_emitWords (Option.some_ne_none _) h hcost

/-! ### Foretold and written -/

/-- **Mantissas take the bits foretold, but for an odd number of them in pairs of fixed length.**
A last mantissa without a partner is written as a pair all the same; of the word of four bits that
it takes only half is foretold. Words of variable length are foretold if and only if all can be
written, and exactly. -/
theorem written_eq_foretold (selector : Nat) (ms : List Int) :
    ((emitFixed selector ms).fault = none →
        (emitFixed selector ms).bits.length =
          fixedCost selector ms.length + if selector = 1 ∧ ms.length % 2 = 1 then 2 else 0) ∧
      variableCost selector ms =
        if (emitVariable selector ms).fault = none then some (emitVariable selector ms).bits.length
        else none :=
  ⟨length_emitFixed_eq, variableCost_eq selector ms⟩

/-- Three mantissas under selector one take eight bits in words of fixed length, six foretold. -/
theorem written_eq_foretold_three :
    (emitFixed 1 [1, 0, -1]).fault = none ∧ (emitFixed 1 [1, 0, -1]).bits.length = 6 + 2 ∧
      variableCost 1 [1, 0, -1] = some (emitVariable 1 [1, 0, -1]).bits.length := by
  have hclean : (emitFixed 1 [1, 0, -1]).fault = none := rfl
  obtain ⟨hfixed, hvariable⟩ := written_eq_foretold 1 [1, 0, -1]
  exact ⟨hclean, hfixed hclean, hvariable⟩

/-- A single mantissa under selector one takes four bits in a word of fixed length, two foretold. -/
theorem fixedCost_lone_mantissa :
    (emitFixed 1 [1]).fault = none ∧ (emitFixed 1 [1]).bits.length = 4 ∧ fixedCost 1 1 = 2 := by
  decide

end Atrac3

end SpectralCoding
