import SpectralCoding.Proofs.Layout.Blocks

/-!
# Where the lines of a block lie

* `Layout.Covers` : a line belongs to a block under a window mode.
* `Layout.covers_unique` : no line belongs to two ATRAC1 blocks, whichever bands have short windows.
* `Layout.getElem?_blockLines` : what is scaled as coefficient `j` of a block is the `j`-th of its
  lines.
-/

namespace SpectralCoding

namespace Layout

variable {L : Layout} {mode : WindowMode} {block line : Nat}

/-- Line `line` belongs to block `block` under a window mode. -/
def Covers (L : Layout) (mode : WindowMode) (block line : Nat) : Prop :=
  L.firstLine mode block ≤ line ∧ line < L.firstLine mode block + L.lines.getD block 0

theorem covers_add {j : Nat} (hj : j < L.lines.getD block 0) :
    L.Covers mode block (L.firstLine mode block + j) :=
  ⟨Nat.le_add_right .., Nat.add_lt_add_left hj _⟩

/-- The first line of a block in a band with short windows or without. -/
def startOf (L : Layout) (isShort : Bool) (block : Nat) : Nat :=
  if isShort then L.shortStarts.getD block 0 else L.longStarts.getD block 0

theorem firstLine_eq (mode : WindowMode) (block : Nat) :
    L.firstLine mode block = L.startOf (mode.isShort (L.bandOf block)) block := rfl

/-- Blocks keep apart, if blocks of one band agree on their windows. -/
theorem atrac1_apart : ∀ i < atrac1.blocks, ∀ j < atrac1.blocks, ∀ a b : Bool,
    (atrac1.bandOf i = atrac1.bandOf j → a = b) →
      i = j ∨ atrac1.startOf a i + atrac1.lines.getD i 0 ≤ atrac1.startOf b j ∨
        atrac1.startOf b j + atrac1.lines.getD j 0 ≤ atrac1.startOf a i := by
  decide +kernel

/-- No line belongs to two blocks. -/
theorem covers_unique {i j : Nat} (hi : i < atrac1.blocks) (hj : j < atrac1.blocks)
    (h : atrac1.Covers mode i line) (h' : atrac1.Covers mode j line) : i = j := by
  obtain ⟨hfirst, hlast⟩ := h
  obtain ⟨hfirst', hlast'⟩ := h'
  rw [firstLine_eq] at hfirst hlast hfirst' hlast'
  rcases atrac1_apart i hi j hj _ _ (congrArg mode.isShort) with h | h | h
  · exact h
  · omega
  · omega

theorem getElem?_blockLines {j : Nat} (spectrum : List Float32) (hj : j < L.lines.getD block 0) :
    (L.blockLines mode spectrum block)[j]? = spectrum[L.firstLine mode block + j]? := by
  rw [blockLines, List.getElem?_take_of_lt hj, List.getElem?_drop]

end Layout

end SpectralCoding
