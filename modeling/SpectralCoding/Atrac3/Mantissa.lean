import SpectralCoding.Binary32
import SpectralCoding.Bits.Emission
import SpectralCoding.Codeword

/-!
# Coding mantissas

A block is quantised with one of the selectors one to seven, zero being silence. Its mantissas are
then written with words of fixed length or with the variable-length words of a code book. Under
selector one mantissas are taken in pairs; a last one without a partner is paired with zero.

* `Atrac3.quantise` : scaled values as mantissas under a selector.
* `Atrac3.codebook`, `Atrac3.symbol`, `Atrac3.pairSymbol` : code books, and the place of a mantissa
  or a pair.
* `Atrac3.fixedCost`, `Atrac3.emitFixed` : words of fixed length, foretold and written.
* `Atrac3.variableCost`, `Atrac3.emitVariable` : words of variable length, foretold and written.
-/

namespace SpectralCoding

namespace Atrac3

/-- The greatest selector. -/
def greatestSelector : Nat := 7

/-- What a scaled value is multiplied by under each selector. -/
def steps : List Float32 := [0, 1.5, 2.5, 3.5, 4.5, 7.5, 15.5, 31.5]

/-- The mantissas of scaled values; selectors past the greatest count as the greatest. -/
def quantise (values : List Float32) (selector : Nat) : List Int :=
  let step := steps.getD (min selector greatestSelector) 0
  values.map fun v => Binary32.round32 (v * step)

/-! ### Code books -/

/-- Words of one width each, by width and code. -/
def wordsOf (width : Nat) (codes : List Nat) : List Codeword := codes.map (⟨·, width⟩)

/-- The code book of selectors one and four. -/
def book1 : List Codeword :=
  wordsOf 1 [0x0] ++ wordsOf 3 [0x4, 0x5] ++ wordsOf 4 [0xC, 0xD] ++ wordsOf 5 [0x1C, 0x1D, 0x1E, 0x1F]

/-- The code book of selector two. -/
def book2 : List Codeword := wordsOf 1 [0x0] ++ wordsOf 3 [0x4, 0x5, 0x6, 0x7]

/-- The code book of selector three. -/
def book3 : List Codeword :=
  wordsOf 1 [0x0] ++ wordsOf 3 [0x4, 0x5] ++ wordsOf 4 [0xC, 0xD, 0xE, 0xF]

/-- The code book of selector five. -/
def book5 : List Codeword :=
  wordsOf 2 [0x0] ++ wordsOf 3 [0x2, 0x3] ++ wordsOf 4 [0x8, 0x9, 0xA, 0xB] ++ wordsOf 5 [0x1C, 0x1D]
    ++ wordsOf 6 [0x3C, 0x3D, 0x3E, 0x3F] ++ wordsOf 4 [0xC, 0xD]

/-- The code book of selector six. -/
def book6 : List Codeword :=
  wordsOf 3 [0x0] ++ wordsOf 4 [0x2, 0x3, 0x4, 0x5, 0x6, 0x7]
    ++ wordsOf 5 [0x14, 0x15, 0x16, 0x17, 0x18, 0x19]
    ++ wordsOf 6 [0x34, 0x35, 0x36, 0x37, 0x38, 0x39, 0x3A, 0x3B]
    ++ wordsOf 7 [0x78, 0x79, 0x7A, 0x7B, 0x7C, 0x7D, 0x7E, 0x7F] ++ wordsOf 4 [0x8, 0x9]

/-- The code book of selector seven. -/
def book7 : List Codeword :=
  wordsOf 3 [0x0] ++ wordsOf 5 [0x8, 0x9, 0xA, 0xB, 0xC, 0xD, 0xE, 0xF, 0x10, 0x11]
    ++ wordsOf 6
      [0x24, 0x25, 0x26, 0x27, 0x28, 0x29, 0x2A, 0x2B, 0x2C, 0x2D, 0x2E, 0x2F, 0x30, 0x31, 0x32, 0x33]
    ++ wordsOf 7
      [0x68, 0x69, 0x6A, 0x6B, 0x6C, 0x6D, 0x6E, 0x6F, 0x70, 0x71, 0x72, 0x73, 0x74, 0x75]
    ++ wordsOf 8
      [0xEC, 0xED, 0xEE, 0xEF, 0xF0, 0xF1, 0xF2, 0xF3, 0xF4, 0xF5, 0xF6, 0xF7, 0xF8, 0xF9, 0xFA, 0xFB,
        0xFC, 0xFD, 0xFE, 0xFF]
    ++ wordsOf 4 [0x2, 0x3]

/-- The code book of a selector; every selector without one of its own has that of seven. -/
def codebook : (selector : Nat) → List Codeword
  | 1 | 4 => book1
  | 2 => book2
  | 3 => book3
  | 5 => book5
  | 6 => book6
  | _ => book7

/-- The place of a mantissa in a code book: zero first, then by rising magnitude, positive before
negative. -/
def symbol (m : Int) : Nat := if m < 0 then 2 * m.natAbs else 2 * m.natAbs - 1

/-- The two bits that stand for a mantissa of a pair in a word of fixed length. -/
def halfCode (m : Int) : Option Nat :=
  if -2 ≤ m ∧ m ≤ 1 then [2, 3, 0, 1][(m + 2).toNat]? else none

/-- The place of a pair in the code book of selector one. -/
def pairSymbol (a b : Int) : Option Nat :=
  if -1 ≤ a ∧ a ≤ 1 ∧ -1 ≤ b ∧ b ≤ 1 then
    [8, 4, 7, 2, 0, 1, 6, 3, 5][(3 * (a + 1) + (b + 1)).toNat]?
  else none

/-- The mantissas in pairs, the last one perhaps alone. -/
def pairs : List Int → List (Int × Option Int)
  | [] => []
  | [a] => [(a, none)]
  | a :: b :: rest => (a, some b) :: pairs rest

/-- The mantissas of a pair as they came. -/
def pairMembers (p : Int × Option Int) : List Int := p.1 :: p.2.toList

/-! ### Words of fixed length -/

/-- The width of a word of fixed length by selector; under selector one a word holds a pair. -/
def fixedWidths : List Nat := [0, 4, 3, 3, 4, 4, 5, 6]

/-- The width of a word of fixed length. -/
def fixedWidth (selector : Nat) : Nat := fixedWidths.getD selector 0

/-- The selector has words of fixed length. -/
def hasFixedWords (selector : Nat) : Bool := selector < fixedWidths.length

/-- The bits that `count` mantissas are taken to need in words of fixed length. -/
def fixedCost (selector count : Nat) : Nat :=
  if 1 < selector then fixedWidth selector * count else fixedWidth selector * count / 2

/-- A pair as a word of fixed length. -/
def emitFixedPair (selector : Nat) (p : Int × Option Int) : Emission :=
  match halfCode p.1, halfCode (p.2.getD 0) with
  | some hi, some lo => .field (fixedWidth selector) (4 * hi + lo)
  | _, _ => .fail (.fixedLengthRange (pairMembers p))

/-- Mantissas in words of fixed length. -/
def emitFixed (selector : Nat) (ms : List Int) : Emission :=
  if 1 < selector then .each ms (.signed (fixedWidth selector))
  else .each (pairs ms) (emitFixedPair selector)

/-! ### Words of variable length -/

/-- The sum of the widths of `words`, if none is missing. -/
def totalWidth : List (Option Codeword) → Option Nat
  | [] => some 0
  | none :: _ => none
  | some w :: words => (totalWidth words).map (w.width + ·)

/-- The words of mantissas in a code book, missing where it has none. -/
def wordsIn (book : List Codeword) (ms : List Int) : List (Option Codeword) :=
  ms.map fun m => book[symbol m]?

/-- The words of mantissas under a selector. -/
def variableWords (selector : Nat) (ms : List Int) : List (Option Codeword) :=
  let book := codebook selector
  if 1 < selector then wordsIn book ms
  else (pairs ms).map fun p => (pairSymbol p.1 (p.2.getD 0)).bind (book[·]?)

/-- The bits that mantissas need in words of variable length, if all have one. -/
def variableCost (selector : Nat) (ms : List Int) : Option Nat := totalWidth (variableWords selector ms)

/-- Mantissas in words of variable length. -/
def emitVariable (selector : Nat) (ms : List Int) : Emission :=
  .each (variableWords selector ms) fun
    | some w => .field w.width w.code
    | none => .fail (.variableLengthRange selector)

/-- Mantissas in words of either kind. -/
def emitMantissas (isFixed : Bool) (selector : Nat) (ms : List Int) : Emission :=
  if isFixed then emitFixed selector ms else emitVariable selector ms

end Atrac3

end SpectralCoding
