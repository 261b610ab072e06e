import SpectralCoding.Atrac3Plus.Field

/-!
# Packing frequencies

The ascending frequency indices of a tone band, ten bits each, are written upwards or downwards;
either way an index takes no more bits than the one before it leaves possible.

* `Atrac3Plus.packUp` : from 512 on, an index is counted back from 1024 in as many bits as the
  distance of the one before it to 1023 has.
* `Atrac3Plus.packDown` : an index takes as many bits as the one before it has.
* `Atrac3Plus.packFrequencies` : the shorter of the two; downwards if both are as long, but upwards
  for a single index.
-/

namespace SpectralCoding

namespace Atrac3Plus

/-- The width of a frequency index. -/
def frequencyWidth : Nat := 10

/-- The number of binary digits of `n`, one for zero. -/
def digits (n : Nat) : Nat := Nat.log2 n + 1

/-- The field of index `f` upwards after `previous`. -/
def upField (previous : Option Nat) (f : Nat) : Field :=
  match previous with
  | none => ⟨f, frequencyWidth⟩
  | some p =>
    if p < 512 then ⟨f, frequencyWidth⟩
    else
      -- nothing below `p` follows, so `f` is one of the last `2 ^ width` indices
      let width := digits (1023 - p)
      ⟨f + 2 ^ width - 1024, width⟩

/-- The field of index `f` downwards after `previous`. -/
def downField (previous : Option Nat) (f : Nat) : Field :=
  match previous with
  | none => ⟨f, frequencyWidth⟩
  | some p => ⟨f, digits p⟩

/-- The fields of indices, each made from the index before it. -/
def packFrom (field : Option Nat → Nat → Field) : (previous : Option Nat) → List Nat → Fields
  | _, [] => []
  | previous, f :: fs => field previous f :: packFrom field (some f) fs

/-- Indices written upwards. -/
def packUp (fs : List Nat) : Fields := packFrom upField none fs

/-- Indices written downwards. -/
def packDown (fs : List Nat) : Fields := packFrom downField none fs.reverse

/-- Packed frequencies. -/
structure FrequencyPack where
  fields : Fields
  usedBits : Nat
  /-- The indices are written downwards. -/
  isDown : Bool
  deriving DecidableEq, Repr, Inhabited

/-- Ascending indices written in the shorter way. -/
def packFrequencies (fs : List Nat) : FrequencyPack :=
  let up := packUp fs
  let upBits := Fields.cost up
  let down := packDown fs
  let downBits := Fields.cost down
  if 1 < fs.length ∧ downBits ≤ upBits then ⟨down, downBits, true⟩ else ⟨up, upBits, false⟩

end Atrac3Plus

end SpectralCoding
