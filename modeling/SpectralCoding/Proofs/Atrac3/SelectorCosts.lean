import Mathlib.Data.List.Forall2
import SpectralCoding.Proofs.Atrac3.Quantised
import SpectralCoding.Proofs.Atrac3.SpectrumCost

/-!
# What a greater selector costs

A search for a shift takes it that blocks cost more bits under greater selectors. Words of fixed
length are no narrower under a greater selector. Words of variable length are no narrower either for
two mantissas of one value, with one exception: the greatest mantissas of selectors five to seven
have words of four bits, and under selector four the same values may have words of five.

* `Atrac3.widensWords` : the words of two mantissas of one value.
* `Atrac3.exists_variableCost`, `Atrac3.variableCost_of_one_lt` : what the mantissas of a block
  cost.
* `Atrac3.wordWidths_quantise_le`, `Atrac3.fixedCost_le` : a block under two selectors.
* `Atrac3.peaksRaised` : the number of mantissas that the exception is about.
* `SpectrumCoding.bits_make_le` : **a spectrum under greater selectors.**
-/

namespace SpectralCoding

namespace Atrac3

variable {selector first second : Nat}

/-- The width of the word of variable length of a mantissa, by its magnitude. -/
def wordWidth (selector magnitude : Nat) : Nat :=
  ((codebook selector).getD (2 * magnitude) .none).width

theorem width_symbols : ∀ selector ≤ greatestSelector, 1 ≤ selector →
    ∀ a ≤ greatestMantissa selector,
      (codebook selector)[2 * a]?.map (·.width) = some (wordWidth selector a) ∧
        (codebook selector)[2 * a - 1]?.map (·.width) = some (wordWidth selector a) := by
  decide +kernel

/-- Of mantissas near each other the second has no narrower word, but that from selector four the
word of the greatest mantissa may be narrower by a bit. -/
def WidensWords (first second : Nat) : Prop :=
  ∀ a ≤ greatestMantissa first, ∀ b ≤ greatestMantissa second, AreNear first second a b →
    wordWidth first a ≤
      wordWidth second b + if first = 4 ∧ b = greatestMantissa second then 1 else 0

instance (first second : Nat) : Decidable (WidensWords first second) :=
  inferInstanceAs (Decidable (∀ a ≤ _, ∀ b ≤ _, _ → _))

theorem widensWords : ∀ second ≤ greatestSelector, ∀ first < second, 1 ≤ first →
    WidensWords first second := by
  decide +kernel

/-! ### Words of a block -/

/-- The widths of the words of mantissas taken one by one. -/
def wordWidths (selector : Nat) (ms : List Int) : Nat :=
  (ms.map fun m => wordWidth selector m.natAbs).sum

theorem wordWidths_cons (selector : Nat) (m : Int) (ms : List Int) :
    wordWidths selector (m :: ms) = wordWidth selector m.natAbs + wordWidths selector ms :=
  List.sum_cons

theorem exists_word (hpos : 1 ≤ selector) (hle : selector ≤ greatestSelector) {m : Int}
    (hm : m.natAbs ≤ greatestMantissa selector) :
    ∃ w, (codebook selector)[symbol m]? = some w ∧ w.width = wordWidth selector m.natAbs := by
  obtain ⟨hnegative, hpositive⟩ := width_symbols selector hle hpos _ hm
  unfold symbol
  split
  · exact Option.map_eq_some_iff.1 hnegative
  · exact Option.map_eq_some_iff.1 hpositive

/-- Mantissas taken one by one cost the widths of their words. -/
theorem variableCost_of_one_lt (hlt : 1 < selector) (hle : selector ≤ greatestSelector)
    {ms : List Int} (hms : IsBounded selector ms) :
    variableCost selector ms = some (wordWidths selector ms) := by
  rw [variableCost, variableWords, if_pos hlt, wordsIn]
  induction ms with
  | nil => rfl
  | cons m ms ih =>
    obtain ⟨hm, hms⟩ := List.forall_mem_cons.1 hms
    obtain ⟨w, hw, hwidth⟩ := exists_word (Nat.le_of_lt hlt) hle hm
    rw [List.map_cons, hw, totalWidth, ih hms, wordWidths_cons, hwidth]
    rfl

/-- The word of a pair is no wider than those of its members. -/
theorem exists_pairWord {a b : Int} (ha : a.natAbs ≤ 1) (hb : b.natAbs ≤ 1) :
    ∃ w, (pairSymbol a b).bind ((codebook 1)[·]?) = some w ∧
      w.width ≤ wordWidth 1 a.natAbs + wordWidth 1 b.natAbs := by
  obtain rfl | rfl | rfl : a = -1 ∨ a = 0 ∨ a = 1 := by omega
  all_goals
    obtain rfl | rfl | rfl : b = -1 ∨ b = 0 ∨ b = 1 := by omega
    all_goals exact ⟨_, rfl, by decide⟩

/-- Mantissas taken in pairs cost no more than if they were taken one by one. -/
theorem exists_variableCost_one {ms : List Int} (heven : ms.length % 2 = 0)
    (hms : ∀ m ∈ ms, m.natAbs ≤ 1) :
    ∃ v, variableCost 1 ms = some v ∧ v ≤ wordWidths 1 ms := by
  fun_induction pairs ms with
  | case1 => exact ⟨0, rfl, Nat.le_refl _⟩
  | case2 a => cases heven
  | case3 a b rest ih =>
    obtain ⟨ha, hms⟩ := List.forall_mem_cons.1 hms
    obtain ⟨hb, hms⟩ := List.forall_mem_cons.1 hms
    obtain ⟨w, hw, hwidth⟩ := exists_pairWord ha hb
    rw [List.length_cons, List.length_cons] at heven
    obtain ⟨v, hv, hle⟩ := ih (by omega) hms
    have hcost : variableCost 1 (a :: b :: rest) = some (w.width + v) := by
      have hwords : variableWords 1 (a :: b :: rest) =
          (pairSymbol a b).bind ((codebook 1)[·]?) :: variableWords 1 rest := rfl
      rw [variableCost, hwords, hw, totalWidth, ← variableCost, hv]
      rfl
    rw [wordWidths_cons, wordWidths_cons]
    exact ⟨_, hcost, by omega⟩

theorem exists_variableCost (hpos : 1 ≤ selector) (hle : selector ≤ greatestSelector)
    {ms : List Int} (heven : ms.length % 2 = 0) (hms : IsBounded selector ms) :
    ∃ v, variableCost selector ms = some v ∧ v ≤ wordWidths selector ms := by
  rcases Nat.lt_or_eq_of_le hpos with hlt | rfl
  · exact ⟨_, variableCost_of_one_lt hlt hle hms, Nat.le_refl _⟩
  · have hone : greatestMantissa 1 = 1 := by decide +kernel
    exact exists_variableCost_one heven fun m hm => hone ▸ hms m hm

theorem exists_variableCost_quantise {values : List Float32} (heven : values.length % 2 = 0)
    (hvalues : ∀ v ∈ values, v.abs < 1) (hpos : 1 ≤ selector) (hle : selector ≤ greatestSelector) :
    ∃ v, variableCost selector (quantise values selector) = some v ∧
      v ≤ wordWidths selector (quantise values selector) :=
  exists_variableCost hpos hle (by rwa [SpectrumCoding.length_quantise])
    (isBounded_quantise (fun v hv => .inl (hvalues v hv)) hpos hle)

/-! ### Two selectors -/

/-- How many of the mantissas under the second selector are the greatest there, where it is greater
than a first one of four. -/
def peaksFromFour (values : List Float32) (first second : Nat) : Nat :=
  if first = 4 ∧ 4 < second then
    (quantise values second).countP (·.natAbs = greatestMantissa second)
  else 0

/-- Taken one by one, the mantissas of a block under a greater selector have wider words, but for
the greatest ones where the selector was four. -/
theorem wordWidths_quantise_le {values : List Float32} (hvalues : ∀ v ∈ values, v.abs < 1)
    (hpos : 1 ≤ first) (hlt : first < second) (hle : second ≤ greatestSelector) :
    wordWidths first (quantise values first) ≤
      wordWidths second (quantise values second) + peaksFromFour values first second := by
  have hfirst : first ≤ greatestSelector := Nat.le_trans (Nat.le_of_lt hlt) hle
  have hsecond : 1 ≤ second := Nat.le_trans hpos (Nat.le_of_lt hlt)
  unfold peaksFromFour
  rw [quantise_eq values hfirst, quantise_eq values hle]
  induction values with
  | nil => exact Nat.zero_le _
  | cons v values ih =>
    obtain ⟨hv, hvalues⟩ := List.forall_mem_cons.1 hvalues
    have hrest := ih hvalues
    have hword := widensWords second hle first hlt hpos _ (mantissa_spec hv hpos hfirst).1 _
      (mantissa_spec hv hsecond hle).1 (areNear_mantissas hv hpos hfirst hsecond hle)
    rw [List.map_cons, List.map_cons, wordWidths_cons, wordWidths_cons, List.countP_cons]
    simp only [decide_eq_true_eq]
    by_cases hfour : first = 4 ∧ 4 < second
    · rw [if_pos hfour] at hrest ⊢
      simp only [hfour.1, true_and] at hword hrest ⊢
      omega
    · have hnotFour : first ≠ 4 := by omega
      rw [if_neg hfour] at hrest ⊢
      rw [if_neg fun h => hnotFour h.1] at hword
      omega

/-- Words of variable length for a block cost more under a greater selector. -/
theorem exists_variableCost_le {values : List Float32} (heven : values.length % 2 = 0)
    (hvalues : ∀ v ∈ values, v.abs < 1) (hpos : 1 ≤ first) (hle : first ≤ second)
    (hmost : second ≤ greatestSelector) :
    ∃ v w, variableCost first (quantise values first) = some v ∧
      variableCost second (quantise values second) = some w ∧
        v ≤ w + peaksFromFour values first second := by
  have hfirst : first ≤ greatestSelector := Nat.le_trans hle hmost
  obtain ⟨v, hv, hvle⟩ := exists_variableCost_quantise heven hvalues hpos hfirst
  rcases Nat.lt_or_eq_of_le hle with hlt | rfl
  -- only the first selector can take mantissas in pairs, and pairs cost no more than their members
  · have hsecond : 1 < second := Nat.lt_of_le_of_lt hpos hlt
    have hw := variableCost_of_one_lt hsecond hmost
      (isBounded_quantise (fun v hv => .inl (hvalues v hv)) (Nat.le_of_lt hsecond) hmost)
    exact ⟨v, _, hv, hw, Nat.le_trans hvle (wordWidths_quantise_le hvalues hpos hlt hmost)⟩
  · exact ⟨v, v, hv, hv, Nat.le_add_right ..⟩

/-- The bits of a mantissa in words of fixed length. -/
def fixedShare (selector : Nat) : Nat :=
  if 1 < selector then fixedWidth selector else fixedWidth selector / 2

theorem fixedCost_eq (selector count : Nat) :
    fixedCost selector count = fixedShare selector * count := by
  unfold fixedCost fixedShare
  split
  · rfl
  · obtain rfl | rfl : selector = 0 ∨ selector = 1 := by omega
    · exact (Nat.zero_mul count).symm ▸ Nat.zero_div 2
    · have hpair : fixedWidth 1 = 4 := rfl
      rw [hpair]
      omega

/-- So do words of fixed length. -/
theorem fixedCost_le (hle : first ≤ second) (hmost : second ≤ greatestSelector) (count : Nat) :
    fixedCost first count ≤ fixedCost second count := by
  have hshare : ∀ second ≤ greatestSelector, ∀ first ≤ second,
      fixedShare first ≤ fixedShare second := by
    decide
  rw [fixedCost_eq, fixedCost_eq]
  exact Nat.mul_le_mul_right count (hshare second hmost first hle)

/-! ### A whole spectrum -/

/-- How many mantissas are the greatest of their selector in blocks raised to it from four. -/
def peaksRaised : (blocks : List ScaledBlock) → (first second : List Nat) → Nat
  | b :: blocks, s :: first, t :: second =>
    peaksFromFour b.values s t + peaksRaised blocks first second
  | _, _, _ => 0

variable {blocks : List ScaledBlock} {first second : List Nat}

/-- There are none where selector four stays. -/
theorem peaksRaised_eq_zero (hfour : ∀ i : Nat, first[i]? = some 4 → second[i]? = some 4) :
    peaksRaised blocks first second = 0 := by
  fun_induction peaksRaised blocks first second with
  | case1 b blocks s first t second ih =>
    have hrest := ih fun i hi => hfour (i + 1) hi
    have hstays : ¬ (s = 4 ∧ 4 < t) := by
      rintro ⟨rfl, hlt⟩
      have ht : t = 4 := Option.some.inj (hfour 0 rfl)
      omega
    rw [hrest, peaksFromFour, if_neg hstays]
  | case2 => rfl

namespace SpectrumCoding

theorem fixedTotal_le (blocks : List ScaledBlock) (hle : List.Forall₂ (· ≤ ·) first second)
    (hmost : ∀ n ∈ second, n ≤ greatestSelector) :
    fixedTotal (codedBlocks blocks first) ≤ fixedTotal (codedBlocks blocks second) := by
  induction hle generalizing blocks with
  | nil => exact Nat.le_refl _
  | @cons s t first second hst hrest ih =>
    obtain ⟨ht, hmost⟩ := List.forall_mem_cons.1 hmost
    cases blocks with
    | nil => exact Nat.le_refl _
    | cons b blocks =>
      rw [codedBlocks_cons, codedBlocks_cons, fixedTotal_cons, fixedTotal_cons]
      refine Nat.add_le_add ?_ (ih blocks hmost)
      by_cases hsilent : s = 0
      · rw [if_pos hsilent]
        exact Nat.zero_le _
      · have hsound : t ≠ 0 := fun h => hsilent (Nat.le_zero.1 (h ▸ hst))
        rw [if_neg hsilent, if_neg hsound, blockMantissas, blockMantissas, if_neg hsilent,
          if_neg hsound, length_quantise, length_quantise]
        exact Nat.add_le_add_left (fixedCost_le hst ht _) 6

/-- What a block costs in words of variable length, its scale factor included. -/
def blockCost (selector : Nat) (ms : List Int) : Option Nat :=
  if selector = 0 then some 0 else (variableCost selector ms).map (6 + ·)

theorem variableTotal_cons (selector : Nat) (ms : List Int) (coded : List (Nat × List Int)) :
    variableTotal ((selector, ms) :: coded) =
      addCosts (blockCost selector ms) (variableTotal coded) := by
  rw [variableTotal, blockCost]
  split
  · cases variableTotal coded with
    | none => rfl
    | some v => exact congrArg some (Nat.zero_add v).symm
  · rfl

theorem exists_blockCost_le {b : ScaledBlock} {s t : Nat} (heven : b.values.length % 2 = 0)
    (hvalues : ∀ v ∈ b.values, v.abs < 1) (hst : s ≤ t) (ht : t ≤ greatestSelector) :
    ∃ x y, blockCost s (blockMantissas b s) = some x ∧ blockCost t (blockMantissas b t) = some y ∧
      x ≤ y + peaksFromFour b.values s t := by
  by_cases hsilent : t = 0
  · obtain rfl : s = 0 := Nat.le_zero.1 (hsilent ▸ hst)
    rw [hsilent]
    exact ⟨0, 0, rfl, rfl, Nat.zero_le _⟩
  · rw [blockCost, blockCost, if_neg hsilent, blockMantissas, blockMantissas, if_neg hsilent]
    by_cases hraised : s = 0
    · obtain ⟨y, hy, -⟩ :=
        exists_variableCost_quantise heven hvalues (Nat.pos_of_ne_zero hsilent) ht
      rw [if_pos hraised, hy]
      exact ⟨0, 6 + y, rfl, rfl, Nat.zero_le _⟩
    · obtain ⟨x, y, hx, hy, hxy⟩ :=
        exists_variableCost_le heven hvalues (Nat.pos_of_ne_zero hraised) hst ht
      rw [if_neg hraised, if_neg hraised, hx, hy]
      exact ⟨6 + x, 6 + y, rfl, rfl, by omega⟩

/-- Coded in words of variable length, blocks cost more under greater selectors. -/
theorem exists_variableTotal_le (heven : ∀ b ∈ blocks, b.values.length % 2 = 0)
    (hvalues : ∀ b ∈ blocks, ∀ v ∈ b.values, v.abs < 1)
    (hle : List.Forall₂ (· ≤ ·) first second) (hmost : ∀ n ∈ second, n ≤ greatestSelector) :
    ∃ v w, variableTotal (codedBlocks blocks first) = some v ∧
      variableTotal (codedBlocks blocks second) = some w ∧
        v ≤ w + peaksRaised blocks first second := by
  induction hle generalizing blocks with
  | nil => exact ⟨0, 0, rfl, rfl, Nat.zero_le _⟩
  | @cons s t first second hst hrest ih =>
    obtain ⟨ht, hmost⟩ := List.forall_mem_cons.1 hmost
    cases blocks with
    | nil => exact ⟨0, 0, rfl, rfl, Nat.zero_le _⟩
    | cons b blocks =>
      obtain ⟨hb, heven⟩ := List.forall_mem_cons.1 heven
      obtain ⟨hv, hvalues⟩ := List.forall_mem_cons.1 hvalues
      obtain ⟨v, w, hfirst, hsecond, hvw⟩ := ih heven hvalues hmost
      obtain ⟨x, y, hx, hy, hxy⟩ := exists_blockCost_le hb hv hst ht
      rw [codedBlocks_cons, codedBlocks_cons, variableTotal_cons, variableTotal_cons, hfirst,
        hsecond, hx, hy, peaksRaised]
      exact ⟨x + v, y + w, rfl, rfl, by omega⟩

theorem bits_make_of_variableTotal {v : Nat}
    (h : variableTotal (codedBlocks blocks first) = some v) :
    (make blocks first).bits =
      6 + 3 * first.length + min (fixedTotal (codedBlocks blocks first)) v := by
  have hbits : (make blocks first).bits = 6 + 3 * first.length +
      (chooseWords (fixedTotal (codedBlocks blocks first))
        (variableTotal (codedBlocks blocks first))).2 := rfl
  rw [hbits, h, chooseWords]
  split <;> simp only <;> omega

/-- **Greater selectors cost more,** less a bit for each of the greatest mantissas in blocks that
are raised from selector four. Under five, six and seven the greatest mantissas have words of four
bits, under four they have words of five. Where selector four stays there is no exception. -/
theorem bits_make_le (heven : ∀ b ∈ blocks, b.values.length % 2 = 0)
    (hvalues : ∀ b ∈ blocks, ∀ v ∈ b.values, v.abs < 1)
    (hle : List.Forall₂ (· ≤ ·) first second) (hmost : ∀ n ∈ second, n ≤ greatestSelector) :
    (make blocks first).bits ≤ (make blocks second).bits + peaksRaised blocks first second ∧
      ((∀ i : Nat, first[i]? = some 4 → second[i]? = some 4) →
        (make blocks first).bits ≤ (make blocks second).bits) := by
  obtain ⟨v, w, hv, hw, hvw⟩ := exists_variableTotal_le heven hvalues hle hmost
  have hfixed := fixedTotal_le blocks hle hmost
  rw [bits_make_of_variableTotal hv, bits_make_of_variableTotal hw, hle.length_eq]
  refine ⟨by omega, fun hfour => ?_⟩
  rw [peaksRaised_eq_zero hfour] at hvw
  omega

/-- A block of eight lines, five of them near its scale factor. -/
def peakedBlock : ScaledBlock := ⟨0, [0, 0, 0, 0.9375, 0.9375, 0.9375, 0.9375, 0.9375], 1⟩

/-- Raised from selector four to five it has five greatest mantissas. -/
theorem bits_make_le_peaked :
    (∀ b ∈ [peakedBlock], b.values.length % 2 = 0) ∧
      (∀ b ∈ [peakedBlock], ∀ v ∈ b.values, v.abs < 1) ∧ List.Forall₂ (· ≤ ·) [4] [5] ∧
        (∀ n ∈ [5], n ≤ greatestSelector) ∧
          (make [peakedBlock] [4]).bits ≤ (make [peakedBlock] [5]).bits + 5 := by
  have heven : ∀ b ∈ [peakedBlock], b.values.length % 2 = 0 := by decide
  have hvalues : ∀ b ∈ [peakedBlock], ∀ v ∈ b.values, v.abs < 1 := by decide +kernel
  have hle : List.Forall₂ (· ≤ ·) [4] [5] := .cons (by decide) .nil
  have hmost : ∀ n ∈ [5], n ≤ greatestSelector := by decide
  have hpeaks : peaksRaised [peakedBlock] [4] [5] = 5 := by decide +kernel
  exact ⟨heven, hvalues, hle, hmost, hpeaks ▸ (bits_make_le heven hvalues hle hmost).1⟩

/-- Raised from selector four to five it costs two bits less. -/
theorem bits_make_peaked_lt :
    Layout.atrac3.lines[0]? = some peakedBlock.values.length ∧
      (∀ v ∈ peakedBlock.values, v.abs < 1) ∧ List.Forall₂ (· ≤ ·) [4] [5] ∧
        (∀ n ∈ [5], n ≤ greatestSelector) ∧
          (make [peakedBlock] [4]).bits = 43 ∧ (make [peakedBlock] [5]).bits = 41 := by
  refine ⟨rfl, ?_, .cons (by decide) .nil, by decide, ?_, ?_⟩ <;> decide +kernel

end SpectrumCoding

end Atrac3

end SpectralCoding
