import SpectralCoding.Atrac3.Encoder
import SpectralCoding.Proofs.Results

/-!
# Opened ATRAC3 encoders

* `Encoder.IsOpened` : the states of an encoder that was opened.
* `Encoder.IsOpenedWith`, `Encoder.openWith_eq_ok` : the checks that it has passed.
* `Encoder.IsOpened.leastFrame_le` : its frames are no smaller than the smallest that is not joint
  stereo.
-/

namespace SpectralCoding

namespace Atrac3

/-- An encoder that was opened, perhaps with frames encoded and resets since. -/
inductive Encoder.IsOpened : Encoder → Prop
  | openWith {e opened : Encoder} {p : Parameters} (h : e.openWith p = (.ok (), opened)) :
      IsOpened opened
  | reset {e : Encoder} (h : IsOpened e) : IsOpened e.reset
  | encodeFrame {e : Encoder} (h : IsOpened e) (frame : SpectralFrame) (sink : Sink) :
      IsOpened (e.encodeFrame frame sink).2.1

theorem Encoder.setup_encodeFrame (e : Encoder) (frame : SpectralFrame) (sink : Sink) :
    (e.encodeFrame frame sink).2.1.setup = e.setup := by
  unfold Encoder.encodeFrame
  cases hsetup : e.setup with
  | none => exact hsetup
  | some setup =>
    dsimp only
    split
    · exact hsetup
    · split <;> rfl

/-- The bytes of the smallest frame that is not joint stereo. -/
def leastFrame : Nat := 304

theorem leastFrame_le_of_profileFor {bitRate : Nat} {profile : Profile}
    (h : profileFor bitRate = some profile) (hjoint : profile.isJointStereo = false) :
    leastFrame ≤ profile.frameSize := by
  have hall : ∀ profile ∈ profiles, profile.isJointStereo = false →
      leastFrame ≤ profile.frameSize := by decide
  exact hall profile (List.mem_of_find?_eq_some h) hjoint

/-- What an encoder was opened with has passed every check. -/
def Encoder.IsOpenedWith (p : Parameters) (opened : Encoder) : Prop :=
  ∃ options profile, p.check .atrac3 = .ok () ∧ p.atrac3? = some options ∧
    profileFor p.bitRate = some profile ∧ profile.isJointStereo = false ∧
    (∀ n, options.blocks = some n → 1 ≤ n ∧ n ≤ Layout.atrac3.blocks) ∧
    opened =
      { setup := some
          { channels := p.channels, frameSize := profile.frameSize, fixedCount := options.blocks,
            isTonal := !options.isPlain } }

theorem Encoder.isOpening_openWith (p : Parameters) :
    IsOpening (openWith · p) (IsOpenedWith p) := by
  simp only [openWith]
  cases hcheck : p.check .atrac3 with
  | error cause => exact .inl ⟨cause, fun _ => rfl⟩
  | ok =>
    cases hoptions : p.atrac3? with
    | none => exact .inl ⟨_, fun _ => rfl⟩
    | some options =>
      cases hprofile : profileFor p.bitRate with
      | none => exact .inl ⟨_, fun _ => rfl⟩
      | some profile =>
        dsimp only
        cases hjoint : profile.isJointStereo with
        | true => exact .inl ⟨_, fun _ => rfl⟩
        | false =>
          simp only [Bool.false_eq_true, if_false]
          cases hwrong : options.blocks.filter fun n =>
              decide (n = 0 ∨ Layout.atrac3.blocks < n) with
          | some n => exact .inl ⟨_, fun _ => rfl⟩
          | none =>
            refine .inr ⟨_, ⟨options, profile, hcheck, hoptions, hprofile, hjoint, ?_, rfl⟩,
              fun _ => rfl⟩
            intro n hn
            have hright := Option.filter_eq_none_iff.1 hwrong n hn
            simp only [decide_eq_true_eq] at hright
            omega

theorem Encoder.openWith_eq_ok {e opened : Encoder} {p : Parameters}
    (h : e.openWith p = (.ok (), opened)) : IsOpenedWith p opened :=
  (isOpening_openWith p).of_eq_ok h

theorem Encoder.IsOpened.leastFrame_le {e : Encoder} (he : e.IsOpened) {s : Setup}
    (hs : e.setup = some s) :
    leastFrame ≤ s.frameSize := by
  induction he with
  | openWith h =>
    obtain ⟨options, profile, -, -, hprofile, hjoint, -, rfl⟩ := Encoder.openWith_eq_ok h
    obtain rfl := Option.some.inj hs
    exact leastFrame_le_of_profileFor hprofile hjoint
  | reset _ ih => exact ih hs
  | encodeFrame _ frame sink ih =>
    rw [Encoder.setup_encodeFrame] at hs
    exact ih hs

end Atrac3

end SpectralCoding
