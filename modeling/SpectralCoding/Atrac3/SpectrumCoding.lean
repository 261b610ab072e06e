import SpectralCoding.Atrac3.Mantissa
import SpectralCoding.Block

/-!
# The spectrum of an ATRAC3 sound unit

    5       number of blocks less one
    1       one for words of fixed length, zero for variable length
    3 each  selector of every block
    6 each  scale factor index of every block that is not silent
            mantissas of every block that is not silent

* `Atrac3.SpectrumCoding` : the selectors, mantissas and kind of words chosen, with their cost.
* `SpectrumCoding.make` : blocks quantised with given selectors, in the cheaper kind of words.
* `SpectrumCoding.emit` : the serialisation.
-/

namespace SpectralCoding

namespace Atrac3

/-- How the spectrum of a sound unit is coded. -/
structure SpectrumCoding where
  /-- The selector of every block. -/
  selectors : List Nat
  /-- The mantissas of every block, none for a silent one. -/
  mantissas : List (List Int)
  /-- Mantissas have words of fixed length. -/
  isFixed : Bool
  /-- The number of bits of all fields. -/
  bits : Nat
  deriving DecidableEq, Repr, Inhabited

/-- The cheaper kind of words, given their costs: fixed length unless variable length is possible
and cheaper. -/
def chooseWords (fixed : Nat) : (other : Option Nat) → Bool × Nat
  | some v => if v < fixed then (false, v) else (true, fixed)
  | none => (true, fixed)

/-- The sum of two costs, if both are possible. -/
def addCosts (a b : Option Nat) : Option Nat := a.bind fun x => b.map (x + ·)

namespace SpectrumCoding

/-- The mantissas of a block, none for a silent one. -/
def blockMantissas (block : ScaledBlock) (selector : Nat) : List Int :=
  if selector = 0 then [] else quantise block.values selector

/-- What the blocks that are not silent cost in words of fixed length, scale factors included. -/
def fixedTotal (coded : List (Nat × List Int)) : Nat :=
  (coded.map fun (selector, ms) => if selector = 0 then 0 else 6 + fixedCost selector ms.length).sum

/-- What they cost in words of variable length, if all mantissas have one. -/
def variableTotal : (coded : List (Nat × List Int)) → Option Nat
  | [] => some 0
  | (selector, ms) :: coded =>
    if selector = 0 then variableTotal coded
    else addCosts ((variableCost selector ms).map (6 + ·)) (variableTotal coded)

/-- Blocks quantised with the given selectors, in the cheaper kind of words. -/
def make (blocks : List ScaledBlock) (selectors : List Nat) : SpectrumCoding :=
  let mantissas := List.zipWith blockMantissas blocks selectors
  let coded := selectors.zip mantissas
  let (isFixed, bits) := chooseWords (fixedTotal coded) (variableTotal coded)
  { selectors, mantissas, isFixed, bits := 5 + 1 + 3 * selectors.length + bits }

/-- Blocks quantised with the given selectors, if every block that is not silent has words of fixed
length. -/
def make? (blocks : List ScaledBlock) (selectors : List Nat) : Except Error SpectrumCoding :=
  if (selectors.take blocks.length).all hasFixedWords then .ok (make blocks selectors)
  else .error .outOfRange

/-- The fields of a spectrum. -/
def emit (c : SpectrumCoding) (blocks : List ScaledBlock) : Emission :=
  let count := c.selectors.length
  if count = 0 ∨ Layout.atrac3.blocks < count then .fail (.blockCount count)
  else
    .concat
      [.field 5 (count - 1), .flag c.isFixed,
        .each c.selectors (.field 3),
        .each (blocks.zip c.selectors) fun (b, selector) =>
          if selector = 0 then .empty else .field 6 b.index,
        .each (c.mantissas.zip c.selectors) fun (ms, selector) =>
          if selector = 0 then .empty else emitMantissas c.isFixed selector ms]

end SpectrumCoding

end Atrac3

end SpectralCoding
