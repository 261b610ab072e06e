import SpectralCoding.Atrac1.Dequantised
import SpectralCoding.Proofs.Atrac1.UnitBits
import SpectralCoding.Proofs.Bits.Reading
import SpectralCoding.Proofs.Layout.Placement

/-!
# Reading the mantissas of a unit

* `Atrac1.Row` : a block as both sides see it.
* `Atrac1.Shows` : a spectrum with the lines of some rows drawn into it.
* `Atrac1.readBlocks_rows` : reading what was written for some rows draws their lines and no others.
-/

namespace SpectralCoding

namespace Atrac1

section Overlay

variable {α : Type} {xs values : List α} {first : Nat}

theorem length_overlay (h : first + values.length ≤ xs.length) :
    (overlay xs first values).length = xs.length := by
  simp only [overlay, List.length_append, List.length_take, List.length_drop]
  omega

theorem getElem?_overlay_of_inside (h : first + values.length ≤ xs.length) {j : Nat}
    (hj : j < values.length) :
    (overlay xs first values)[first + j]? = values[j]? := by
  have htake : (xs.take first).length = first := by
    rw [List.length_take]
    omega
  rw [overlay, List.append_assoc, List.getElem?_append_right (by omega), htake,
    Nat.add_sub_cancel_left, List.getElem?_append_left hj]

theorem getElem?_overlay_of_outside (h : first + values.length ≤ xs.length) {k : Nat}
    (hk : k < first ∨ first + values.length ≤ k) : (overlay xs first values)[k]? = xs[k]? := by
  have htake : (xs.take first).length = first := by
    rw [List.length_take]
    omega
  rcases hk with hk | hk
  · rw [overlay, List.append_assoc, List.getElem?_append_left (by omega),
      List.getElem?_take_of_lt hk]
  · rw [overlay, List.getElem?_append_right (by rw [List.length_append]; omega),
      List.length_append, htake, List.getElem?_drop]
    congr 1
    omega

end Overlay

/-- The integer that the mantissa of a scaled value is read back as. -/
def readBack (length : Nat) (v : Float32) : Int :=
  Bits.toInt (Bits.ofInt length (mantissa length v))

theorem readBack_eq {length : Nat} {v : Float32} (hlength : 2 ≤ length)
    (hle : -2 ^ (length - 1) ≤ mantissa length v) (hlt : mantissa length v < 2 ^ (length - 1)) :
    readBack length v = mantissa length v :=
  Bits.toInt_ofInt (by omega) hle hlt

/-- A block of a unit: its number, its scaled lines and its word length. -/
structure Row where
  block : Nat
  scaled : ScaledBlock
  length : Nat

namespace Row

/-- What the reader knows of a row. -/
def entry (r : Row) : Nat × Nat × Nat := (r.block, r.length, r.scaled.index)

/-- What the writer puts out for a row. -/
def bits (r : Row) : List Bool := SoundUnit.mantissaString r.scaled r.length

/-- A row that both sides can handle. -/
structure IsSound (r : Row) : Prop where
  block : r.block < Layout.atrac1.blocks
  filled : r.scaled.values.length = Layout.atrac1.lines.getD r.block 0
  fits : IsWordLength r.length

/-- The lines of a row, restored. -/
def lines (r : Row) : List Float32 :=
  restored r.length r.scaled.index (r.scaled.values.map (readBack r.length))

@[simp] theorem length_lines (r : Row) : r.lines.length = r.scaled.values.length := by
  simp [lines, restored]

theorem bits_of_ne_zero {r : Row} (hr : r.IsSound) (h : r.length ≠ 0) :
    r.bits = (r.scaled.values.map (mantissa r.length)).flatMap fun m => Bits.ofInt r.length m := by
  have hle : ¬r.length < 2 := by
    have hfits := hr.fits
    unfold IsWordLength at hfits
    omega
  rw [bits, SoundUnit.mantissaString, if_neg hle, List.flatMap_map]

end Row

/-- `after` is `before` with the lines of `rows` drawn into it. -/
structure Shows (windows : WindowMode) (rows : List Row) (before after : List Float32) : Prop where
  length : after.length = before.length
  inside : ∀ r ∈ rows, r.length ≠ 0 → ∀ j < r.scaled.values.length,
    after[Layout.atrac1.firstLine windows r.block + j]? = r.lines[j]?
  outside : ∀ line, (∀ r ∈ rows, r.length ≠ 0 → ¬Layout.atrac1.Covers windows r.block line) →
    after[line]? = before[line]?

variable {windows : WindowMode} {rows : List Row} {before after : List Float32} {r : Row}

theorem shows_nil (windows : WindowMode) (spectrum : List Float32) :
    Shows windows [] spectrum spectrum :=
  ⟨rfl, fun _ h => absurd h List.not_mem_nil, fun _ _ => rfl⟩

theorem Shows.cons_of_zero (hzero : r.length = 0) (h : Shows windows rows before after) :
    Shows windows (r :: rows) before after := by
  refine ⟨h.length, ?_,
    fun line hline => h.outside line fun r' hr' => hline r' (List.mem_cons_of_mem _ hr')⟩
  intro r' hr' hne
  rcases List.mem_cons.1 hr' with rfl | hr'
  · exact absurd hzero hne
  · exact h.inside r' hr' hne

/-- A row drawn first stays, as no later row reaches its lines. -/
theorem Shows.cons (hr : r.IsSound) (hrows : ∀ r' ∈ rows, r'.IsSound)
    (hapart : ∀ r' ∈ rows, r.block ≠ r'.block) (hlength : before.length = Layout.atrac1.frameLines)
    (hne : r.length ≠ 0)
    (h : Shows windows rows
      (overlay before (Layout.atrac1.firstLine windows r.block) r.lines) after) :
    Shows windows (r :: rows) before after := by
  have hroom : Layout.atrac1.firstLine windows r.block + r.lines.length ≤ before.length := by
    rw [Row.length_lines, hr.filled, hlength]
    exact Layout.firstLine_add_le Layout.isWithin_atrac1 hr.block windows
  refine ⟨h.length.trans (length_overlay hroom), ?_, fun line hline => ?_⟩
  · intro r' hr' hne' j hj
    rcases List.mem_cons.1 hr' with rfl | hr'
    · have hcovers : Layout.atrac1.Covers windows r'.block
          (Layout.atrac1.firstLine windows r'.block + j) :=
        Layout.covers_add (hr.filled ▸ hj)
      rw [h.outside, getElem?_overlay_of_inside hroom (by rwa [Row.length_lines])]
      intro r'' hr'' _ hcovers'
      exact hapart r'' hr'' (Layout.covers_unique hr.block (hrows r'' hr'').block hcovers hcovers')
    · exact h.inside r' hr' hne' j hj
  · have hnot := hline r List.mem_cons_self hne
    rw [h.outside line fun r' hr' => hline r' (List.mem_cons_of_mem _ hr'),
      getElem?_overlay_of_outside hroom]
    rw [Row.length_lines, hr.filled]
    unfold Layout.Covers at hnot
    omega

/-! ### The reader -/

theorem readBlocks_of_zero {tail : List (Nat × Nat × Nat)} (h : ∀ e ∈ tail, e.2.1 = 0)
    (spectrum : List Float32) (r : BitReader) :
    readBlocks windows tail spectrum r = .ok (spectrum, r) := by
  induction tail with
  | nil => rfl
  | cons e tail ih =>
    obtain ⟨he, htail⟩ := List.forall_mem_cons.1 h
    obtain ⟨block, length, scale⟩ := e
    rw [readBlocks, if_pos he, ih htail]

theorem readBlocks_cons (hr : r.IsSound) (hne : r.length ≠ 0) (entries : List (Nat × Nat × Nat))
    (spectrum : List Float32) (n : Nat) (rest : List Bool) :
    readBlocks windows (r.entry :: entries) spectrum ⟨n, r.bits ++ rest⟩ =
      readBlocks windows entries
        (overlay spectrum (Layout.atrac1.firstLine windows r.block) r.lines)
        ⟨n + r.bits.length, rest⟩ := by
  have hfits : 2 ≤ r.length ∧ r.length ≤ greatestLength := by
    rcases hr.fits with h | h
    · exact absurd h hne
    · exact h
  have hcount : (r.scaled.values.map (mantissa r.length)).length =
      Layout.atrac1.lines.getD r.block 0 := by
    rw [List.length_map, hr.filled]
  have hread := BitReader.readManySigned_fields (by omega) (Nat.le_trans hfits.2 (by decide))
    (r.scaled.values.map (mantissa r.length)) n rest
  have hlength : r.bits.length = r.length * Layout.atrac1.lines.getD r.block 0 := by
    rw [Row.bits, SoundUnit.length_mantissaString _ hr.fits, hr.filled]
  rw [← Row.bits_of_ne_zero hr hne, hcount] at hread
  rw [Row.entry, readBlocks, if_neg hne, hread, hlength, List.map_map]
  rfl

theorem readBlocks_rows (windows : WindowMode) (hrows : ∀ r ∈ rows, r.IsSound)
    (hapart : rows.Pairwise (·.block ≠ ·.block)) {tail : List (Nat × Nat × Nat)}
    (htail : ∀ e ∈ tail, e.2.1 = 0) {spectrum : List Float32}
    (hlength : spectrum.length = Layout.atrac1.frameLines) (rest : List Bool) :
    ∃ after, Shows windows rows spectrum after ∧ ∀ n, ∃ r',
      readBlocks windows (rows.map Row.entry ++ tail) spectrum ⟨n, rows.flatMap Row.bits ++ rest⟩ =
        .ok (after, r') := by
  induction rows generalizing spectrum with
  | nil => exact ⟨spectrum, shows_nil windows spectrum, fun n => ⟨_, readBlocks_of_zero htail _ _⟩⟩
  | cons r rows ih =>
    obtain ⟨hr, hrows⟩ := List.forall_mem_cons.1 hrows
    obtain ⟨hrow, hapart⟩ := List.pairwise_cons.1 hapart
    simp only [List.map_cons, List.cons_append, List.flatMap_cons, List.append_assoc]
    by_cases hzero : r.length = 0
    · obtain ⟨after, hshows, hread⟩ := ih hrows hapart hlength
      have hbits : r.bits = [] := by simp [Row.bits, SoundUnit.mantissaString, hzero]
      refine ⟨after, hshows.cons_of_zero hzero, ?_⟩
      intro n
      rw [hbits, List.nil_append, Row.entry, readBlocks, if_pos hzero]
      exact hread n
    · have hroom : Layout.atrac1.firstLine windows r.block + r.lines.length ≤ spectrum.length := by
        rw [Row.length_lines, hr.filled, hlength]
        exact Layout.firstLine_add_le Layout.isWithin_atrac1 hr.block windows
      obtain ⟨after, hshows, hread⟩ := ih hrows hapart ((length_overlay hroom).trans hlength)
      refine ⟨after, hshows.cons hr hrows hrow hlength hzero, ?_⟩
      intro n
      rw [readBlocks_cons hr hzero]
      exact hread _

end Atrac1

end SpectralCoding
