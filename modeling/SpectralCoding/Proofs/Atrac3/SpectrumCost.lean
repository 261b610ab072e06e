import SpectralCoding.Atrac3.SpectrumCoding
import SpectralCoding.Proofs.Atrac3.MantissaCost

/-!
# What a coded spectrum costs

* `Atrac3.chooseWords_cases` : the kind of words chosen, and its cost.
* `SpectrumCoding.length_emit_make` : a spectrum takes the bits that its coding was chosen for.
-/

namespace SpectralCoding

namespace Atrac3

theorem chooseWords_cases (fixed : Nat) (other : Option Nat) :
    chooseWords fixed other = (true, fixed) ∨
      ∃ v, other = some v ∧ chooseWords fixed other = (false, v) := by
  unfold chooseWords
  cases other with
  | none => exact .inl rfl
  | some v =>
    simp only
    split
    · exact .inr ⟨v, rfl, rfl⟩
    · exact .inl rfl

theorem addCosts_eq_some {a b : Option Nat} {v : Nat} (h : addCosts a b = some v) :
    ∃ x y, a = some x ∧ b = some y ∧ v = x + y := by
  obtain ⟨x, rfl, h⟩ := Option.bind_eq_some_iff.1 h
  obtain ⟨y, rfl, rfl⟩ := Option.map_eq_some_iff.1 h
  exact ⟨x, y, rfl, rfl, rfl⟩

namespace SpectrumCoding

/-- The field of a scale factor index. -/
def scaleField (block : ScaledBlock) (selector : Nat) : Emission :=
  if selector = 0 then .empty else .field 6 block.index

/-- The fields of the mantissas of a block. -/
def mantissaFields (isFixed : Bool) (ms : List Int) (selector : Nat) : Emission :=
  if selector = 0 then .empty else emitMantissas isFixed selector ms

theorem fault_scaleField (block : ScaledBlock) (selector : Nat) :
    (scaleField block selector).fault = none := by
  unfold scaleField
  split <;> rfl

theorem length_quantise (values : List Float32) (selector : Nat) :
    (quantise values selector).length = values.length := by
  simp [quantise]

theorem fixedTotal_cons (selector : Nat) (ms : List Int) (coded : List (Nat × List Int)) :
    fixedTotal ((selector, ms) :: coded) =
      (if selector = 0 then 0 else 6 + fixedCost selector ms.length) + fixedTotal coded := by
  simp [fixedTotal]

theorem length_fixedBlock {block : ScaledBlock} {selector : Nat}
    (heven : block.values.length % 2 = 0)
    (h : (mantissaFields true (blockMantissas block selector) selector).fault = none) :
    (scaleField block selector).bits.length +
      (mantissaFields true (blockMantissas block selector) selector).bits.length =
      if selector = 0 then 0
      else 6 + fixedCost selector (blockMantissas block selector).length := by
  unfold scaleField mantissaFields at *
  by_cases hsilent : selector = 0
  · rw [if_pos hsilent, if_pos hsilent, if_pos hsilent]
    rfl
  · rw [if_neg hsilent] at h
    rw [if_neg hsilent, if_neg hsilent, if_neg hsilent]
    have hms : (blockMantissas block selector).length % 2 = 0 := by
      rw [blockMantissas, if_neg hsilent, length_quantise, heven]
    exact congrArg (6 + ·) (length_emitFixed (fun _ => hms) h)

theorem length_variableBlock (block : ScaledBlock) {selector v : Nat}
    (hselector : selector ≠ 0) {ms : List Int} (h : variableCost selector ms = some v) :
    (scaleField block selector).bits.length +
      (mantissaFields false ms selector).bits.length = 6 + v := by
  unfold scaleField mantissaFields
  rw [if_neg hselector, if_neg hselector]
  exact congrArg (6 + ·) (length_emitVariable h)

/-- Blocks as their cost is foretold: with their selectors and mantissas. -/
def codedBlocks (blocks : List ScaledBlock) (selectors : List Nat) : List (Nat × List Int) :=
  selectors.zip (List.zipWith blockMantissas blocks selectors)

theorem codedBlocks_cons (b : ScaledBlock) (blocks : List ScaledBlock) (selector : Nat)
    (selectors : List Nat) :
    codedBlocks (b :: blocks) (selector :: selectors) =
      (selector, blockMantissas b selector) :: codedBlocks blocks selectors := rfl

/-- The fields of the scale factors of all blocks. -/
def scaleFields (blocks : List ScaledBlock) (selectors : List Nat) : Emission :=
  .each (blocks.zip selectors) fun (b, selector) => scaleField b selector

/-- The fields of the mantissas of all blocks. -/
def blockFields (isFixed : Bool) (blocks : List ScaledBlock) (selectors : List Nat) : Emission :=
  .each ((List.zipWith blockMantissas blocks selectors).zip selectors) fun (ms, selector) =>
    mantissaFields isFixed ms selector

theorem scaleFields_cons (b : ScaledBlock) (blocks : List ScaledBlock) (selector : Nat)
    (selectors : List Nat) :
    scaleFields (b :: blocks) (selector :: selectors) =
      scaleField b selector ++ scaleFields blocks selectors := rfl

theorem blockFields_cons (isFixed : Bool) (b : ScaledBlock) (blocks : List ScaledBlock)
    (selector : Nat) (selectors : List Nat) :
    blockFields isFixed (b :: blocks) (selector :: selectors) =
      mantissaFields isFixed (blockMantissas b selector) selector ++
        blockFields isFixed blocks selectors := rfl

variable {blocks : List ScaledBlock} {selectors : List Nat}

theorem length_fixedBlocks (heven : ∀ b ∈ blocks, b.values.length % 2 = 0)
    (hcount : selectors.length ≤ blocks.length)
    (h : (blockFields true blocks selectors).fault = none) :
    (scaleFields blocks selectors).bits.length + (blockFields true blocks selectors).bits.length =
      fixedTotal (codedBlocks blocks selectors) := by
  induction blocks generalizing selectors with
  | nil =>
    obtain rfl : selectors = [] := List.eq_nil_of_length_eq_zero (Nat.le_zero.1 hcount)
    rfl
  | cons b blocks ih =>
    cases selectors with
    | nil => rfl
    | cons selector selectors =>
      obtain ⟨hb, hblocks⟩ := List.forall_mem_cons.1 heven
      rw [blockFields_cons] at h
      obtain ⟨hhead, htail⟩ := Emission.fault_append_eq_none.1 h
      have hrest := ih hblocks (Nat.le_of_succ_le_succ hcount) htail
      have hblock := length_fixedBlock hb hhead
      rw [scaleFields_cons, blockFields_cons,
        Emission.bits_append_of_clean (fault_scaleField b selector),
        Emission.bits_append_of_clean hhead, List.length_append, List.length_append,
        codedBlocks_cons, fixedTotal_cons, ← hblock, ← hrest]
      omega

theorem length_variableBlocks {v : Nat} (hcount : selectors.length ≤ blocks.length)
    (hcost : variableTotal (codedBlocks blocks selectors) = some v)
    (h : (blockFields false blocks selectors).fault = none) :
    (scaleFields blocks selectors).bits.length +
      (blockFields false blocks selectors).bits.length = v := by
  induction blocks generalizing selectors v with
  | nil =>
    obtain rfl : selectors = [] := List.eq_nil_of_length_eq_zero (Nat.le_zero.1 hcount)
    obtain rfl := Option.some.inj hcost
    rfl
  | cons b blocks ih =>
    cases selectors with
    | nil =>
      obtain rfl := Option.some.inj hcost
      rfl
    | cons selector selectors =>
      rw [blockFields_cons] at h
      rw [codedBlocks_cons, variableTotal] at hcost
      obtain ⟨hhead, htail⟩ := Emission.fault_append_eq_none.1 h
      rw [scaleFields_cons, blockFields_cons,
        Emission.bits_append_of_clean (fault_scaleField b selector),
        Emission.bits_append_of_clean hhead, List.length_append, List.length_append]
      by_cases hsilent : selector = 0
      · rw [if_pos hsilent] at hcost
        rw [scaleField, mantissaFields, if_pos hsilent, if_pos hsilent,
          ← ih (Nat.le_of_succ_le_succ hcount) hcost htail]
        simp
      · rw [if_neg hsilent] at hcost
        obtain ⟨x, y, hx, hy, rfl⟩ := addCosts_eq_some hcost
        obtain ⟨w, hw, rfl⟩ := Option.map_eq_some_iff.1 hx
        have hrest := ih (Nat.le_of_succ_le_succ hcount) hy htail
        have hblock := length_variableBlock b hsilent hw
        rw [← hrest, ← hblock]
        omega

theorem make_cases (blocks : List ScaledBlock) (selectors : List Nat) :
    (make blocks selectors).isFixed = true ∧
        (make blocks selectors).bits =
          6 + 3 * selectors.length + fixedTotal (codedBlocks blocks selectors) ∨
      ∃ v, variableTotal (codedBlocks blocks selectors) = some v ∧
      (make blocks selectors).isFixed = false ∧
        (make blocks selectors).bits = 6 + 3 * selectors.length + v := by
  have hbits : (make blocks selectors).bits = 6 + 3 * selectors.length + (chooseWords
      (fixedTotal (codedBlocks blocks selectors))
        (variableTotal (codedBlocks blocks selectors))).2 := rfl
  have hkind : (make blocks selectors).isFixed =
      (chooseWords (fixedTotal (codedBlocks blocks selectors))
        (variableTotal (codedBlocks blocks selectors))).1 := rfl
  rcases chooseWords_cases (fixedTotal (codedBlocks blocks selectors))
    (variableTotal (codedBlocks blocks selectors))
    with hchoice | ⟨v, hv, hchoice⟩
  · rw [hchoice] at hbits hkind
    exact .inl ⟨hkind, hbits⟩
  · rw [hchoice] at hbits hkind
    exact .inr ⟨v, hv, hkind, hbits⟩

/-- **A spectrum takes the bits that its coding was chosen for.** -/
theorem length_emit_make (heven : ∀ b ∈ blocks, b.values.length % 2 = 0)
    (hcount : selectors.length ≤ blocks.length)
    (h : ((make blocks selectors).emit blocks).fault = none) :
    ((make blocks selectors).emit blocks).bits.length = (make blocks selectors).bits := by
  have hemit : (make blocks selectors).emit blocks =
      if selectors.length = 0 ∨ Layout.atrac3.blocks < selectors.length then
        .fail (.blockCount selectors.length)
      else .concat
        [.field 5 (selectors.length - 1), .flag (make blocks selectors).isFixed,
          .each selectors (.field 3), scaleFields blocks selectors,
          blockFields (make blocks selectors).isFixed blocks selectors] := rfl
  rw [hemit] at h ⊢
  by_cases hcounted : selectors.length = 0 ∨ Layout.atrac3.blocks < selectors.length
  · rw [if_pos hcounted] at h
    cases h
  · rw [if_neg hcounted] at h
    have hclean := Emission.fault_concat_eq_none.1 h
    have hblocks : (blockFields (make blocks selectors).isFixed blocks selectors).fault = none :=
      hclean _ (by simp)
    have hselectors : (Emission.each selectors (.field 3)).bits.length = selectors.length * 3 :=
      Emission.length_each_of_width (fun _ _ => rfl) fun _ _ => Bits.length_ofNat ..
    rw [if_neg hcounted, Emission.length_concat_of_clean hclean]
    simp only [List.map_cons, List.map_nil, List.sum_cons, List.sum_nil, Emission.bits_field,
      Bits.length_ofNat, Emission.bits_flag, List.length_singleton, hselectors]
    rcases make_cases blocks selectors with ⟨hkind, hbits⟩ | ⟨v, hv, hkind, hbits⟩
    · rw [hkind] at hblocks ⊢
      have hlength := length_fixedBlocks heven hcount hblocks
      omega
    · rw [hkind] at hblocks ⊢
      have hlength := length_variableBlocks hcount hv hblocks
      omega

end SpectrumCoding

end Atrac3

end SpectralCoding
