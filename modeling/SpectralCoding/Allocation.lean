import SpectralCoding.Block
import SpectralCoding.Search.Dial

/-!
# Bit allocation

* `blend` : the word length of a block, a mixture of its scale factor and a fixed length, less the
  shift.
* `mantissaBits` : what the lines of all blocks cost at given word lengths.
* `trim` : word lengths with the highest blocks silenced until they are within a budget.
* `Allocation` : word lengths together with their cost.
-/

namespace SpectralCoding

/-- The word length of a block before it is held within the bounds of a codec: the scale factor
index counts the more, the more the frame is made of tones. -/
def blend (spread : Float32) (index : Nat) (fixed shift : Float32) : Int :=
  Binary32.trunc32 (spread * (ofCount index / 3.2) + (1 - spread) * fixed - shift)

/-- The cost of all lines at the given word lengths. -/
def mantissaBits (wordLengths lines : List Nat) : Nat :=
  (List.zipWith (· * ·) wordLengths lines).sum

/-- Word lengths and their cost, the cost of blocks before `wordLengths` being `spent`: from the
end, blocks are silenced while the cost exceeds `target`. -/
def trimFrom (target : Nat) : (spent : Nat) → (wordLengths lines : List Nat) → List Nat × Nat
  | spent, w :: ws, n :: ns =>
    -- the cost with the blocks behind this one trimmed already
    let (rest, cost) := trimFrom target (spent + w * n) ws ns
    if cost ≤ target then (w :: rest, cost) else (0 :: rest, cost - w * n)
  | spent, ws, _ => (ws, spent)

/-- Word lengths with the highest blocks silenced until the cost is at most `target`, and that
cost. -/
def trim (target : Nat) (wordLengths lines : List Nat) : List Nat × Nat :=
  trimFrom target 0 wordLengths lines

/-- Word lengths and what they cost. -/
structure Allocation where
  wordLengths : List Nat
  bits : Nat
  deriving DecidableEq, Repr, Inhabited

/-- Silence in all of `blocks` blocks. -/
def Allocation.silence (blocks : Nat) : Allocation := ⟨List.replicate blocks 0, 0⟩

theorem mantissaBits_cons (w n : Nat) (ws ns : List Nat) :
    mantissaBits (w :: ws) (n :: ns) = w * n + mantissaBits ws ns := by
  simp [mantissaBits]

end SpectralCoding
