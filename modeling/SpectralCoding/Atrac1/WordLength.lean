import SpectralCoding.Allocation
import SpectralCoding.Atrac1.SoundUnit
import SpectralCoding.Hearing.Threshold
import SpectralCoding.Parameters

/-!
# ATRAC1 word lengths

* `Atrac1.wordLengths` : the word lengths at a given shift.
* `Atrac1.usedIndex` : the least table index whose blocks include all blocks with a word length.
* `Atrac1.boost` : what is left of a budget, spent on blocks of the middle frequencies.
-/

namespace SpectralCoding

namespace Atrac1

/-- The fixed word lengths under long windows. -/
def fixedLong : List Float32 :=
  [7, 7, 7, 6, 6, 6, 6, 6, 6, 6, 6, 6, 6, 6, 6, 6, 6, 6, 6, 6,
   6, 6, 5, 5, 5, 5, 5, 5, 5, 5, 5, 5, 5, 5, 5, 4,
   4, 4, 3, 3, 3, 3, 3, 3, 2, 1, 1, 1, 1, 0, 0, 0]

/-- The fixed word lengths under short windows. -/
def fixedShort : List Float32 :=
  [6, 6, 6, 6, 6, 6, 6, 6, 6, 6, 6, 6, 6, 6, 6, 6, 6, 6, 6, 6,
   6, 6, 6, 6, 5, 5, 5, 5, 5, 5, 5, 5, 5, 5, 5, 5,
   4, 4, 4, 4, 4, 4, 4, 4, 0, 0, 0, 0, 0, 0, 0, 0]

/-- The energies below which the blocks are inaudible. -/
def audibility : List Float32 := blockThreshold .atrac1 samplingRate

/-- A blended length as a word length: none below two, sixteen at most. -/
def clampLength (t : Int) : Nat :=
  if (greatestLength : Int) < t then greatestLength else if t < 2 then 0 else t.toNat

/-- The word length of block `i` at a shift. Under long windows an inaudible block gets none. -/
def wordLength (spread shift loudness : Float32) (windows : WindowMode) (i : Nat)
    (block : ScaledBlock) : Nat :=
  let isShort := windows.isShort (Layout.atrac1.bandOf i)
  let fixed := (if isShort then fixedShort else fixedLong).getD i 0
  if !isShort && block.energy < audibility.getD i 0 * loudness then 0
  else clampLength (blend spread block.index fixed shift)

/-- The word lengths of the first `count` blocks at a shift. -/
def wordLengths (blocks : List ScaledBlock) (count : Nat) (spread shift : Float32)
    (windows : WindowMode) (loudness : Float32) : List Nat :=
  (blocks.take count).mapIdx (wordLength spread shift loudness windows)

/-- The word lengths of the first `count` blocks, if there are so many. -/
def wordLengths? (blocks : List ScaledBlock) (count : Nat) (spread shift : Float32)
    (windows : WindowMode) (loudness : Float32) : Except Error (List Nat) :=
  if count ≤ blocks.length ∧ count ≤ Layout.atrac1.blocks then
    .ok (wordLengths blocks count spread shift windows loudness)
  else .error .outOfRange

/-! ### The number of blocks -/

/-- The word lengths of the blocks that table index `index` has beyond the index before it. -/
def tier (lengths : List Nat) (index : Nat) : List Nat :=
  (lengths.take (blockCounts.getD index 0)).drop (blockCounts.getD (index - 1) 0)

/-- The greatest index up to `index` whose tier has a word length, or zero. -/
def usedIndexFrom (lengths : List Nat) : (index : Nat) → Nat
  | 0 => 0
  | index + 1 =>
    if (tier lengths (index + 1)).any (· != 0) then index + 1 else usedIndexFrom lengths index

/-- The least table index whose blocks include all blocks with a word length. The index starts from
the greatest one that does not ask for more blocks than there are, and never falls below zero. -/
def usedIndex (lengths : List Nat) : Nat :=
  usedIndexFrom lengths ((blockCounts.takeWhile (· ≤ lengths.length)).length - 1)

/-! ### Spending the rest -/

/-- The blocks that may be boosted. -/
def boostable (block : Nat) : Bool :=
  (18 ≤ block && block ≤ 22) || (32 ≤ block && block ≤ 38)

/-- The blocks that may be boosted with the price of one bit, the cheapest first. -/
def boostOrder : List (Nat × Nat) :=
  ((Layout.atrac1.lines.zipIdx.filter fun (_, block) => boostable block)).mergeSort
    fun a b => a.1 ≤ b.1

/-- Word lengths under a boost and what is left to spend. -/
structure Boost where
  lengths : List Nat
  surplus : Nat
  deriving DecidableEq, Repr, Inhabited

/-- The number of bits a word length is raised by: a silent block starts at two. -/
def boostStep (length : Nat) : Nat := if length = 0 then 2 else 1

/-- Raise one block by its step, if it has room for it and the surplus pays for it. -/
def boostBlock (b : Boost) (entry : Nat × Nat) : Boost :=
  match b.lengths[entry.2]? with
  | none => b
  | some length =>
    let price := entry.1 * boostStep length
    if length = greatestLength ∨ b.surplus < price then b
    else ⟨b.lengths.set entry.2 (length + boostStep length), b.surplus - price⟩

/-- Raise each of `entries` once, in order. -/
def boostRound (entries : List (Nat × Nat)) (b : Boost) : Boost := entries.foldl boostBlock b

/-- Rounds of boosting, until one raises nothing or the surplus falls below the lowest price. -/
def boostRounds (entries : List (Nat × Nat)) (lowest : Nat) : (rounds : Nat) → Boost → Boost
  | 0, b => b
  | rounds + 1, b =>
    if b.surplus < lowest then b
    else
      let after := boostRound entries b
      if after.surplus = b.surplus then after else boostRounds entries lowest rounds after

/-- Word lengths that cost `spent` with the rest up to `target` spent on boostable blocks. Only
blocks whose price is within the initial surplus take part. -/
def boost (lengths : List Nat) (spent target : Nat) : Boost :=
  let surplus := target - spent
  let entries := boostOrder.filter fun (price, _) => price ≤ surplus
  boostRounds entries ((boostOrder.map (·.1)).headD 0) (surplus + 1) ⟨lengths, surplus⟩

end Atrac1

end SpectralCoding
