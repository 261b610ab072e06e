import Mathlib.Algebra.Order.BigOperators.Group.List
import Mathlib.Algebra.Order.Group.Nat
import SpectralCoding.Atrac3.Gain
import SpectralCoding.Proofs.Bits.EmissionParts

/-!
# What gain curves cost

* `Atrac3.length_emitGain` : the gain fields take what was foretold.
* `Atrac3.hasRoomFor_of_mem_codedGain` : points that pass the check fit their fields.
* `Atrac3.gainCost_le` : points that pass the check cost at most as much as seven in every band.
-/

namespace SpectralCoding

namespace Atrac3

variable {gain : List (List GainPoint)}

/-! ### The fields -/

/-- The fields of the points of a band. -/
def pointFields (points : List GainPoint) : Emission :=
  .each points fun p => .field 4 p.level ++ .field 5 p.location

theorem fault_pointFields (points : List GainPoint) : (pointFields points).fault = none :=
  Emission.fault_each_eq_none.2 fun _ _ => rfl

theorem length_pointFields (points : List GainPoint) :
    (pointFields points).bits.length = points.length * 9 :=
  Emission.length_each_of_width (fun _ _ => rfl) fun _ _ => rfl

/-- The fields of a band. -/
def bandFields (points : List GainPoint) : Emission := .field 3 points.length ++ pointFields points

theorem emitGain_eq (gain : List (List GainPoint)) :
    emitGain gain = .each (codedGain gain) bandFields := rfl

theorem fault_bandFields (points : List GainPoint) : (bandFields points).fault = none :=
  Emission.fault_append_eq_none.2 ⟨rfl, fault_pointFields points⟩

theorem length_bandFields (points : List GainPoint) :
    (bandFields points).bits.length = 3 + points.length * 9 := by
  rw [bandFields, Emission.length_append_of_clean (fault_bandFields points), length_pointFields,
    Emission.bits_field, Bits.length_ofNat]

theorem fault_emitGain (gain : List (List GainPoint)) : (emitGain gain).fault = none :=
  Emission.fault_each_eq_none.2 fun points _ => fault_bandFields points

theorem length_emitGain (gain : List (List GainPoint)) :
    (emitGain gain).bits.length = gainCost gain := by
  rw [emitGain_eq, Emission.length_each_of_clean fun points _ => fault_bandFields points, gainCost]
  exact congrArg List.sum (List.map_congr_left fun points _ => length_bandFields points)

/-! ### The check -/

/-- The points of a band fit its fields. -/
def HasRoomFor (points : List GainPoint) : Prop :=
  points.length ≤ mostGainPoints ∧ ∀ p ∈ points, p.level ≤ 15 ∧ p.location ≤ 31

theorem checkGainBand_eq_ok {points : List GainPoint} (h : checkGainBand points = .ok ()) :
    HasRoomFor points := by
  unfold checkGainBand at h
  split at h
  · cases h
  · rename_i hcount
    split at h
    · cases h
    · rename_i hfit
      exact ⟨Nat.le_of_not_lt hcount, by simpa [fitsGainFields] using hfit⟩

theorem checkGainBands_eq_ok {bands : List (List GainPoint)} (h : checkGainBands bands = .ok ()) :
    ∀ points ∈ bands, HasRoomFor points := by
  induction bands with
  | nil => nofun
  | cons points bands ih =>
    rw [checkGainBands] at h
    cases hband : checkGainBand points with
    | error e =>
      rw [hband] at h
      cases h
    | ok =>
      rw [hband] at h
      exact List.forall_mem_cons.2 ⟨checkGainBand_eq_ok hband, ih h⟩

theorem hasRoomFor_of_mem_codedGain (h : checkGain gain = .ok ()) :
    ∀ points ∈ codedGain gain, HasRoomFor points := by
  have hbands : ∀ points ∈ gain, HasRoomFor points := by
    unfold checkGain at h
    split at h
    · cases h
    · exact checkGainBands_eq_ok h
  intro points hpoints
  obtain ⟨band, -, rfl⟩ := List.mem_map.1 hpoints
  rw [List.getD_eq_getElem?_getD]
  -- a band that is missing has no points
  cases hband : gain[band]? with
  | none => exact ⟨Nat.zero_le _, nofun⟩
  | some points => exact hbands points (List.mem_of_getElem? hband)

/-- The bits of gain curves with the most points in every band. -/
def mostGainBits : Nat := codedBands * (3 + mostGainPoints * 9)

/-- Gain curves that pass the check cost at most as much as full ones. -/
theorem gainCost_le (h : checkGain gain = .ok ()) : gainCost gain ≤ mostGainBits := by
  have hcost : ∀ cost ∈ (codedGain gain).map fun points => 3 + points.length * 9,
      cost ≤ 3 + mostGainPoints * 9 := by
    intro cost hcost
    obtain ⟨points, hpoints, rfl⟩ := List.mem_map.1 hcost
    have := (hasRoomFor_of_mem_codedGain h points hpoints).1
    omega
  exact List.sum_le_card_nsmul _ _ hcost

end Atrac3

end SpectralCoding
