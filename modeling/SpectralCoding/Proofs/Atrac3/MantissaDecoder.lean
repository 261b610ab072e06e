import SpectralCoding.Proofs.Atrac3.MantissaCost
import SpectralCoding.Proofs.Bits.Decoder

/-!
# Reading mantissas back

Under a selector no mantissa is greater than the integer part of what scaled values are multiplied
by. Up to there the words of either kind tell the mantissas apart, so that a reader who knows the
kind of words, the selector and the number of mantissas gets them back.

* `Atrac3.greatestMantissa`, `Atrac3.IsBounded` : the greatest mantissa of a selector.
* `Atrac3.mantissaAt`, `Atrac3.pairAt` : what stands at a place of a code book.
* `Atrac3.readMantissas` : the decoder.
* `Atrac3.isPrefixFree_codebook` : no word of a code book begins another.
* `Atrac3.decodes_mantissas` : the decoder undoes mantissas in words of either kind.
-/

namespace SpectralCoding

namespace Atrac3

/-- The greatest mantissa of a selector: the integer part of what scaled values are multiplied
by. -/
def greatestMantissa (selector : Nat) : Nat := Binary32.floorMagnitude (steps.getD selector 0)

/-- No mantissa is greater than its selector allows. -/
def IsBounded (selector : Nat) (ms : List Int) : Prop :=
  ∀ m ∈ ms, m.natAbs ≤ greatestMantissa selector

instance (selector : Nat) (ms : List Int) : Decidable (IsBounded selector ms) :=
  inferInstanceAs (Decidable (∀ m ∈ ms, _))

/-! ### The decoder -/

/-- The mantissa at a place of a code book. -/
def mantissaAt (place : Nat) : Int :=
  if place % 2 = 0 then -(place / 2 : Nat) else (place / 2 + 1 : Nat)

/-- The pair at a place of the code book of selector one. -/
def pairAt (place : Nat) : Int × Int :=
  [(0, 0), (0, 1), (0, -1), (1, 0), (-1, 0), (1, 1), (1, -1), (-1, 1), (-1, -1)].getD place (0, 0)

/-- Read a mantissa under a selector that takes them one by one. -/
def readMantissa (isFixed : Bool) (selector : Nat) : Decoder Int :=
  if isFixed then .signed (fixedWidth selector) else mantissaAt <$> .word (codebook selector)

/-- Read a pair of mantissas under selector one. A word of fixed length has two bits for each. -/
def readPair (isFixed : Bool) : Decoder (Int × Int) :=
  if isFixed then do
    let a ← .signed 2
    let b ← .signed 2
    return (a, b)
  else pairAt <$> .word (codebook 1)

/-- Read `count` mantissas under a selector. -/
def readMantissas (isFixed : Bool) (selector count : Nat) : Decoder (List Int) :=
  if 1 < selector then .times count (readMantissa isFixed selector)
  else do
    let ps ← .times ((count + 1) / 2) (readPair isFixed)
    return (ps.flatMap fun (a, b) => [a, b]).take count

/-! ### Code books -/

theorem isPrefixFree_codebook (selector : Nat) : Codeword.IsPrefixFree (codebook selector) := by
  unfold codebook
  split <;> decide +kernel

theorem width_ne_zero_of_mem_codebook {selector : Nat} :
    ∀ w ∈ codebook selector, w.width ≠ 0 := by
  unfold codebook
  split <;> decide +kernel

theorem code_lt_of_mem_codebook {selector : Nat} :
    ∀ w ∈ codebook selector, w.code < 2 ^ w.width := by
  unfold codebook
  split <;> decide +kernel

theorem mantissaAt_symbol (m : Int) : mantissaAt (symbol m) = m := by
  unfold mantissaAt symbol
  split <;> omega

theorem symbol_le (m : Int) : symbol m ≤ 2 * m.natAbs := by
  unfold symbol
  split <;> omega

theorem greatestMantissa_lt : ∀ selector ≤ greatestSelector, 1 < selector →
    2 * greatestMantissa selector < (codebook selector).length ∧
      greatestMantissa selector < 2 ^ (fixedWidth selector - 1) ∧
        0 < fixedWidth selector ∧ fixedWidth selector ≤ 32 := by
  decide +kernel

theorem decodes_codebook {selector place : Nat} (hplace : place < (codebook selector).length) :
    ∃ w, (codebook selector)[place]? = some w ∧
      Decodes (.word (codebook selector)) (.field w.width w.code) place :=
  ⟨_, List.getElem?_eq_getElem hplace, decodes_word (isPrefixFree_codebook selector)
    (List.getElem?_eq_getElem hplace) (width_ne_zero_of_mem_codebook _ (List.getElem_mem hplace))⟩

/-- The fields of a word that may be missing. -/
def wordFields (selector : Nat) : Option Codeword → Emission
  | some w => .field w.width w.code
  | none => .fail (.variableLengthRange selector)

theorem emitVariable_eq (selector : Nat) (ms : List Int) :
    emitVariable selector ms = .each (variableWords selector ms) (wordFields selector) := rfl

/-! ### One by one -/

section Single

variable {selector : Nat} {m : Int}

theorem decodes_signedMantissa (hselector : 1 < selector) (hle : selector ≤ greatestSelector)
    (hm : m.natAbs ≤ greatestMantissa selector) :
    Decodes (.signed (fixedWidth selector)) (.signed (fixedWidth selector) m) m := by
  obtain ⟨-, hroom, hpos, hwidth⟩ := greatestMantissa_lt selector hle hselector
  have hlt : (m.natAbs : Int) < 2 ^ (fixedWidth selector - 1) := by
    exact_mod_cast Nat.lt_of_le_of_lt hm hroom
  exact decodes_signed hpos hwidth (by omega) (by omega)

theorem decodes_codedMantissa (hselector : 1 < selector) (hle : selector ≤ greatestSelector)
    (hm : m.natAbs ≤ greatestMantissa selector) :
    Decodes (mantissaAt <$> .word (codebook selector))
      (wordFields selector (codebook selector)[symbol m]?) m := by
  have hroom := (greatestMantissa_lt selector hle hselector).1
  have hplace : symbol m < (codebook selector).length :=
    Nat.lt_of_le_of_lt (Nat.le_trans (symbol_le m) (Nat.mul_le_mul_left 2 hm)) hroom
  obtain ⟨w, hw, hread⟩ := decodes_codebook hplace
  have hmap := hread.map mantissaAt
  rwa [mantissaAt_symbol, ← wordFields.eq_1 selector w, ← hw] at hmap

end Single

/-! ### In pairs -/

/-- The two mantissas that a pair is written as: a missing partner counts as zero. -/
def filledPair (p : Int × Option Int) : Int × Int := (p.1, p.2.getD 0)

/-- What mantissas of a pair have in common with all of them. -/
theorem forall_mem_pairs {P : Int → Prop} (hzero : P 0) {ms : List Int} (h : ∀ m ∈ ms, P m) :
    ∀ p ∈ pairs ms, P (filledPair p).1 ∧ P (filledPair p).2 := by
  fun_induction pairs ms with
  | case1 => exact List.forall_mem_nil _
  | case2 a => exact List.forall_mem_singleton.2 ⟨List.forall_mem_singleton.1 h, hzero⟩
  | case3 a b rest ih =>
    obtain ⟨ha, h⟩ := List.forall_mem_cons.1 h
    obtain ⟨hb, h⟩ := List.forall_mem_cons.1 h
    exact List.forall_mem_cons.2 ⟨⟨ha, hb⟩, ih h⟩

/-- Pairs put one after the other are the mantissas, followed by the partner of a last one. -/
theorem take_flatMap_filledPair (ms : List Int) :
    (((pairs ms).map filledPair).flatMap fun (a, b) => [a, b]).take ms.length = ms := by
  fun_induction pairs ms with
  | case1 => rfl
  | case2 a => rfl
  | case3 a b rest ih => simpa [filledPair] using ih

/-- The half of a word of fixed length is the mantissa in two's complement. -/
theorem halfCode_of_bounded {m : Int} (hm : m.natAbs ≤ 1) :
    ∃ code, halfCode m = some code ∧ code < 2 ^ 2 ∧ Bits.ofNat 2 code = Bits.ofInt 2 m := by
  obtain rfl | rfl | rfl : m = -1 ∨ m = 0 ∨ m = 1 := by omega
  · exact ⟨3, rfl, by decide, rfl⟩
  · exact ⟨0, rfl, by decide, rfl⟩
  · exact ⟨1, rfl, by decide, rfl⟩

theorem emitFixedPair_of_bounded {p : Int × Option Int} (hfirst : (filledPair p).1.natAbs ≤ 1)
    (hsecond : (filledPair p).2.natAbs ≤ 1) :
    emitFixedPair 1 p = .signed 2 (filledPair p).1 ++ .signed 2 (filledPair p).2 := by
  obtain ⟨hi, hhi, -, hhibits⟩ := halfCode_of_bounded hfirst
  obtain ⟨lo, hlo, hlolt, hlobits⟩ := halfCode_of_bounded hsecond
  have hemit : emitFixedPair 1 p = .ofBits (Bits.ofNat (2 + 2) (lo + hi * 2 ^ 2)) := by
    have hvalue : 4 * hi + lo = lo + hi * 2 ^ 2 := by omega
    unfold emitFixedPair
    rw [filledPair] at hhi hlo
    simp only [hhi, hlo, hvalue]
    rfl
  have hshift : (lo + hi * 2 ^ 2) / 2 ^ 2 = hi := by omega
  rw [hemit, Bits.ofNat_add, hshift, Bits.ofNat_add_mul, hhibits, hlobits]
  rfl

theorem decodes_fixedPair {p : Int × Option Int} (hfirst : (filledPair p).1.natAbs ≤ 1)
    (hsecond : (filledPair p).2.natAbs ≤ 1) :
    Decodes (readPair true) (emitFixedPair 1 p) (filledPair p) := by
  rw [emitFixedPair_of_bounded hfirst hsecond]
  have hhalf : ∀ m : Int, m.natAbs ≤ 1 → Decodes (.signed 2) (.signed 2 m) m := fun m hm =>
    decodes_signed (by decide) (by decide) (by omega) (by omega)
  exact (hhalf _ hfirst).bind ((hhalf _ hsecond).bind_pure fun b => ((filledPair p).1, b))

theorem pairAt_pairSymbol {a b : Int} (ha : a.natAbs ≤ 1) (hb : b.natAbs ≤ 1) :
    ∃ place, pairSymbol a b = some place ∧ place < book1.length ∧ pairAt place = (a, b) := by
  obtain rfl | rfl | rfl : a = -1 ∨ a = 0 ∨ a = 1 := by omega
  all_goals
    obtain rfl | rfl | rfl : b = -1 ∨ b = 0 ∨ b = 1 := by omega
    all_goals exact ⟨_, rfl, by decide, rfl⟩

theorem decodes_codedPair {p : Int × Option Int} (hfirst : (filledPair p).1.natAbs ≤ 1)
    (hsecond : (filledPair p).2.natAbs ≤ 1) :
    Decodes (readPair false)
      (wordFields 1 ((pairSymbol p.1 (p.2.getD 0)).bind ((codebook 1)[·]?))) (filledPair p) := by
  obtain ⟨place, hsymbol, hplace, hpair⟩ := pairAt_pairSymbol hfirst hsecond
  have hplace : place < (codebook 1).length := hplace
  obtain ⟨w, hw, hread⟩ := decodes_codebook hplace
  have hmap := hread.map pairAt
  rw [hpair, ← wordFields.eq_1 1 w, ← hw] at hmap
  rw [filledPair] at hsymbol
  rw [hsymbol]
  exact hmap

theorem decodes_pairs (isFixed : Bool) {f : Int × Option Int → Emission} {ms : List Int}
    (h : ∀ p ∈ pairs ms, Decodes (readPair isFixed) (f p) (filledPair p)) :
    Decodes (readMantissas isFixed 1 ms.length) (.each (pairs ms) f) ms := by
  have hread := (Decodes.times h).bind_pure fun ps =>
    (ps.flatMap fun (a, b) => [a, b]).take ms.length
  rwa [take_flatMap_filledPair, length_pairs] at hread

/-! ### All mantissas -/

/-- **Mantissas are read back, in words of either kind.** -/
theorem decodes_mantissas (isFixed : Bool) {selector : Nat} (hpos : 1 ≤ selector)
    (hle : selector ≤ greatestSelector) {ms : List Int} (hms : IsBounded selector ms) :
    Decodes (readMantissas isFixed selector ms.length) (emitMantissas isFixed selector ms) ms := by
  unfold emitMantissas
  rcases Nat.lt_or_eq_of_le hpos with hselector | rfl
  · rw [readMantissas, if_pos hselector]
    cases isFixed with
    | true =>
      rw [if_pos rfl, emitFixed, if_pos hselector]
      exact .times_self fun m hm => decodes_signedMantissa hselector hle (hms m hm)
    | false =>
      rw [if_neg Bool.false_ne_true, emitVariable_eq, variableWords, if_pos hselector, wordsIn,
        Emission.each_map]
      exact .times_self fun m hm => decodes_codedMantissa hselector hle (hms m hm)
  · have hone : greatestMantissa 1 = 1 := by decide +kernel
    have hpairs := forall_mem_pairs (P := fun m => m.natAbs ≤ 1) (by decide) fun m hm =>
      hone ▸ hms m hm
    cases isFixed with
    | true =>
      rw [if_pos rfl, emitFixed, if_neg (by decide)]
      exact decodes_pairs true fun p hp => decodes_fixedPair (hpairs p hp).1 (hpairs p hp).2
    | false =>
      rw [if_neg Bool.false_ne_true, emitVariable_eq, variableWords, if_neg (by decide),
        Emission.each_map]
      exact decodes_pairs false fun p hp => decodes_codedPair (hpairs p hp).1 (hpairs p hp).2

end Atrac3

end SpectralCoding
