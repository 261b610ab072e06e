import SpectralCoding.Proofs.Atrac1.Settling
import SpectralCoding.Proofs.Atrac3Plus.Settling
import SpectralCoding.Proofs.Search.Protocol

/-!
# Frames settle

The turns that the stages of a frame can take are bounded by the costs that can fail to stand in a
search, and these are the same ten whether shifts are exact numbers or numbers of single precision.
So the limit on turns, which is fifty times as high, is not there for any frame.

* `endsWithin_two_thousand` : **no frame takes more than two thousand turns.**
-/

namespace SpectralCoding

/-- **Neither the stages of an ATRAC1 unit nor those of an ATRAC3+ frame take more than two thousand
turns, and so they never give a frame up for want of turns.** -/
theorem endsWithin_two_thousand [ShiftRounding] :
    (∀ isAuto isFast, ∀ p : Pipeline ℚ Atrac1.Frame (List Nat),
        Atrac1.IsChannelPipeline isAuto isFast p → ∀ frame, p.EndsWithin 2000 frame) ∧
      (∀ p : Pipeline ℚ Atrac3Plus.Frame Fields,
        Atrac3Plus.IsFramePipeline p → ∀ frame, p.EndsWithin 2000 frame) ∧
      (∀ isAuto isFast, ∀ p : Pipeline Float32 Atrac1.Frame (List Nat),
        Atrac1.IsChannelPipeline isAuto isFast p → ∀ frame, p.EndsWithin 2000 frame) ∧
      (∀ p : Pipeline Float32 Atrac3Plus.Frame Fields,
        Atrac3Plus.IsFramePipeline p → ∀ frame, p.EndsWithin 2000 frame) := by
  have hunit : (Atrac1.lastIndex + 1) * Atrac1.roundTurns ≤ 2000 := by decide
  have hframe : (Atrac3Plus.fixedLengths.length + 1) * Atrac3Plus.roundTurns +
      Atrac3Plus.closingTurns ≤ 2000 := by decide
  refine ⟨?_, ?_, ?_, ?_⟩
  · intro isAuto isFast p hp frame
    exact (Atrac1.endsWithin Bisection.closesWithin_rat hp frame).mono hunit
  · intro p hp frame
    exact (Atrac3Plus.endsWithin Bisection.closesWithin_rat hp frame).mono hframe
  · intro isAuto isFast p hp frame
    exact (Atrac1.endsWithin Bisection.closesWithin_float32 hp frame).mono hunit
  · intro p hp frame
    exact (Atrac3Plus.endsWithin Bisection.closesWithin_float32 hp frame).mono hframe

theorem endsWithin_silence :
    letI := Bisection.quotientRounding
    let unitStages : Pipeline ℚ Atrac1.Frame (List Nat) := .ofStages (Atrac1.stages true true)
    unitStages.EndsWithin 2000 Atrac1.silence ∧
      Atrac3Plus.freshPipeline.EndsWithin 2000 Atrac3Plus.clickFrame := by
  let _ := Bisection.quotientRounding
  intro unitStages
  obtain ⟨hunit, -, -, hframe⟩ := endsWithin_two_thousand
  have hunitStages : Atrac1.IsChannelPipeline true true unitStages := rfl
  have hfresh : Atrac3Plus.IsFramePipeline Atrac3Plus.freshPipeline := rfl
  exact ⟨hunit true true unitStages hunitStages Atrac1.silence,
    hframe Atrac3Plus.freshPipeline hfresh Atrac3Plus.clickFrame⟩

end SpectralCoding
