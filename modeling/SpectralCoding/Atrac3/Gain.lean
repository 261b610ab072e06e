import SpectralCoding.Bits.Emission
import SpectralCoding.Spectrum

/-!
# Gain curves of an ATRAC3 sound unit

Each of the four bands has up to seven points:

    3       number of points
    4 5     level and location of every point

* `Atrac3.checkGain` : the checks on gain points, in the order in which they are reported.
* `Atrac3.gainCost`, `Atrac3.emitGain` : the fields, foretold and written. Missing bands have no
  points.
-/

namespace SpectralCoding

namespace Atrac3

/-- The number of bands of a sound unit. -/
def codedBands : Nat := 4

/-- The most gain points of a band. -/
def mostGainPoints : Nat := 7

/-- A point fits its fields. -/
def fitsGainFields (p : GainPoint) : Bool := p.level ≤ 15 && p.location ≤ 31

/-- The points of one band fit their fields. -/
def checkGainBand (points : List GainPoint) : Except Error Unit :=
  if mostGainPoints < points.length then .error (.gainPoints points.length)
  else if !points.all fitsGainFields then .error .gainRange
  else .ok ()

/-- The points of every band fit their fields. -/
def checkGainBands : List (List GainPoint) → Except Error Unit
  | [] => .ok ()
  | points :: bands =>
    match checkGainBand points with
    | .error e => .error e
    | .ok () => checkGainBands bands

/-- The gain points of a channel fit their fields. -/
def checkGain (gain : List (List GainPoint)) : Except Error Unit :=
  if codedBands < gain.length then .error (.gainBands gain.length codedBands)
  else checkGainBands gain

/-- The points of each coded band. -/
def codedGain (gain : List (List GainPoint)) : List (List GainPoint) :=
  (List.range codedBands).map fun band => gain.getD band []

/-- The number of bits of the gain fields. -/
def gainCost (gain : List (List GainPoint)) : Nat :=
  ((codedGain gain).map fun points => 3 + points.length * 9).sum

/-- The gain fields. -/
def emitGain (gain : List (List GainPoint)) : Emission :=
  .each (codedGain gain) fun points =>
    .field 3 points.length ++ .each points fun p => .field 4 p.level ++ .field 5 p.location

end Atrac3

end SpectralCoding
