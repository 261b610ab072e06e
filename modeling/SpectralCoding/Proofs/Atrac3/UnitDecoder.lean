import SpectralCoding.Atrac3.Encoder
import SpectralCoding.Proofs.Atrac3.GainCost
import SpectralCoding.Proofs.Atrac3.SpectrumDecoder
import SpectralCoding.Proofs.Atrac3.TonalDecoder

/-!
# Reading a sound unit back

No field of a sound unit says how long the unit is. How many fields come next, and how wide they
are, follows from the fields before them: the numbers of points, groups, components and blocks, the
band flags, the selectors and the kinds of words. A decoder that goes by the layout therefore knows
at every bit what it reads, and finds the end of the unit by itself.

* `Atrac3.StoredUnit`, `Atrac3.storedUnit` : what a sound unit says.
* `Atrac3.readUnit` : the decoder.
* `Atrac3.decodes_emitGain`, `Atrac3.decodes_emitSoundUnit` : the decoder undoes gain curves, and a
  whole sound unit.
* `Atrac3.readUnit_emitSoundUnit` : **a sound unit is read back, whatever it is filled up with.**
* `Atrac3.storedUnit_unique` : sound units with the same bits say the same.
-/

namespace SpectralCoding

namespace Atrac3

/-! ### The decoder -/

/-- What a sound unit says. -/
structure StoredUnit where
  /-- The gain points of every band. -/
  gain : List (List GainPoint)
  groups : List StoredGroup
  spectrum : StoredSpectrum
  deriving DecidableEq, Repr

/-- Read a gain point. -/
def readPoint : Decoder GainPoint := do
  let level ← .field 4
  let location ← .field 5
  return { level, location }

/-- Read the gain points of a band. -/
def readBand : Decoder (List GainPoint) := do
  let count ← .field 3
  .times count readPoint

/-- Read a sound unit. -/
def readUnit : Decoder StoredUnit := do
  .expect 6 unitMark
  let bands ← .positive 2
  let gain ← .times bands readBand
  let groups ← readTonal
  let spectrum ← readSpectrum
  return { gain, groups, spectrum }

/-- What a sound unit says of its parts. A band without gain points given has none. -/
def storedUnit (gain : List (List GainPoint)) (tonal : TonalGroups) (blocks : List ScaledBlock)
    (coding : SpectrumCoding) : StoredUnit where
  gain := codedGain gain
  groups := tonal.groups.map (·.stored)
  spectrum := coding.stored blocks

/-! ### Gain curves -/

variable {gain : List (List GainPoint)}

theorem decodes_bandFields {points : List GainPoint} (h : HasRoomFor points) :
    Decodes readBand (bandFields points) points := by
  have hcount : Decodes (.field 3) (.field 3 points.length) points.length :=
    decodes_field (by decide) (Nat.lt_succ_of_le h.1)
  have hpoint : ∀ p ∈ points,
      Decodes readPoint (.field 4 p.level ++ .field 5 p.location) p := by
    intro p hp
    obtain ⟨hlevel, hlocation⟩ := h.2 p hp
    have hfirst : Decodes (.field 4) (.field 4 p.level) p.level :=
      decodes_field (by decide) (Nat.lt_succ_of_le hlevel)
    have hsecond : Decodes (.field 5) (.field 5 p.location) p.location :=
      decodes_field (by decide) (Nat.lt_succ_of_le hlocation)
    exact hfirst.bind (hsecond.bind_pure _)
  exact hcount.bind (.times_self hpoint)

theorem decodes_emitGain (h : checkGain gain = .ok ()) :
    Decodes (.times codedBands readBand) (emitGain gain) (codedGain gain) := by
  have hcount : (codedGain gain).length = codedBands := by simp [codedGain]
  rw [← hcount]
  exact .times_self fun points hpoints =>
    decodes_bandFields (hasRoomFor_of_mem_codedGain h points hpoints)

/-! ### The whole unit -/

variable {cs : List TonalComponent} {blocks : List ScaledBlock} {coding : SpectrumCoding}

/-- The decoder undoes a sound unit. -/
theorem decodes_emitSoundUnit (hgain : checkGain gain = .ok ()) (hcs : ∀ c ∈ cs, c.IsCodable)
    (hcoding : coding.IsOver blocks) :
    Decodes readUnit (emitSoundUnit gain (.build cs) blocks coding)
      (storedUnit gain (.build cs) blocks coding) := by
  have hmark : Decodes (.expect 6 unitMark) (.field 6 unitMark) () :=
    decodes_expect (by decide) (by decide)
  have hbands : Decodes (.positive 2) (.field 2 (codedBands - 1)) codedBands :=
    decodes_positive (by decide) (by decide) (by decide)
  exact hmark.bind (hbands.bind ((decodes_emitGain hgain).bind
    ((TonalGroups.decodes_emit_build hcs).bind
      ((SpectrumCoding.decodes_emit hcoding).bind (.pure _)))))

/-- **A sound unit is read back, whatever it is filled up with.** Gain points that pass the check,
up to 31 components that fit their fields and a coding over blocks of the layout make a sound unit
without a fault. The decoder takes exactly its bits and finds all that was put into it, and the
groups it finds hold all the components. -/
theorem readUnit_emitSoundUnit (hgain : checkGain gain = .ok ())
    (hcount : cs.length ≤ mostComponents) (hcs : ∀ c ∈ cs, c.IsCodable)
    (hcoding : coding.IsOver blocks) :
    (emitSoundUnit gain (.build cs) blocks coding).fault = none ∧
      (∀ rest,
        readUnit.run { unread := (emitSoundUnit gain (.build cs) blocks coding).bits ++ rest } =
          some (storedUnit gain (.build cs) blocks coding,
            { bitsRead := (emitSoundUnit gain (.build cs) blocks coding).bits.length
              unread := rest })) ∧
      (TonalGroups.build cs).components.Perm cs := by
  have hdecodes := decodes_emitSoundUnit hgain hcs hcoding
  refine ⟨hdecodes.clean, fun rest => ?_, TonalGroups.perm_components_build hcount⟩
  have hrun := hdecodes.run 0 rest
  rwa [Nat.zero_add] at hrun

/-- Three bands of gain points, three components in two groups and three blocks, one of them silent,
whose words have variable length. -/
theorem readUnit_emitSoundUnit_three_blocks :
    let gain : List (List GainPoint) := [[⟨4, 3⟩], [], [⟨15, 31⟩, ⟨0, 0⟩]]
    let component (position selector : Nat) (values : List Float32) : TonalComponent :=
      { position, block := 0, selector, scaled := ⟨20, values, 1⟩
        mantissas := quantise values selector }
    let cs := [component 700 2 [-0.9], component 65 7 [0.99, -0.5], component 64 2 [0.5]]
    let blocks : List ScaledBlock := [⟨10, [0.9, -0.9, 0, 0, 0, 0, 0, 0], 1⟩,
      ⟨0, [0, 0, 0, 0, 0, 0, 0, 0], 0⟩, ⟨63, [-0.5, 0.5, 0, 0, 0, 0, 0, -0.5], 1⟩]
    let coding := SpectrumCoding.make blocks [2, 0, 1]
    (checkGain gain = .ok () ∧ cs.length ≤ mostComponents ∧ (∀ c ∈ cs, c.IsCodable) ∧
      coding.IsOver blocks) ∧
      (emitSoundUnit gain (.build cs) blocks coding).fault = none ∧
      (∀ rest,
        readUnit.run { unread := (emitSoundUnit gain (.build cs) blocks coding).bits ++ rest } =
          some (storedUnit gain (.build cs) blocks coding,
            { bitsRead := (emitSoundUnit gain (.build cs) blocks coding).bits.length
              unread := rest })) ∧
      (TonalGroups.build cs).components.Perm cs := by
  intro gain component cs blocks coding
  have hgain : checkGain gain = .ok () := by decide
  have hcount : cs.length ≤ mostComponents := by decide
  have hcs : ∀ c ∈ cs, c.IsCodable := by
    simp only [cs, List.forall_mem_cons, List.not_mem_nil, false_imp_iff, implies_true, and_true]
    refine ⟨?_, ?_, ?_⟩
    all_goals exact ⟨by decide, by decide +kernel, by decide, by decide, by decide +kernel⟩
  have hcoding : coding.IsOver blocks :=
    SpectrumCoding.isOver_make (by decide) (by decide) (by decide) (by decide)
      (by simp [blocks, ScaleFactor.count]) (by decide +kernel)
  exact ⟨⟨hgain, hcount, hcs, hcoding⟩, readUnit_emitSoundUnit hgain hcount hcs hcoding⟩

/-- Sound units that begin the same bit string say the same, and have the same bits. -/
theorem storedUnit_unique (hgain : checkGain gain = .ok ()) (hcs : ∀ c ∈ cs, c.IsCodable)
    (hcoding : coding.IsOver blocks) {gain' : List (List GainPoint)} {cs' : List TonalComponent}
    {blocks' : List ScaledBlock} {coding' : SpectrumCoding} (hgain' : checkGain gain' = .ok ())
    (hcs' : ∀ c ∈ cs', c.IsCodable) (hcoding' : coding'.IsOver blocks') {rest rest' : List Bool}
    (hbits : (emitSoundUnit gain (.build cs) blocks coding).bits ++ rest =
      (emitSoundUnit gain' (.build cs') blocks' coding').bits ++ rest') :
    storedUnit gain (.build cs) blocks coding = storedUnit gain' (.build cs') blocks' coding' ∧
      (emitSoundUnit gain (.build cs) blocks coding).bits =
        (emitSoundUnit gain' (.build cs') blocks' coding').bits :=
  (decodes_emitSoundUnit hgain hcs hcoding).unique
    (decodes_emitSoundUnit hgain' hcs' hcoding') hbits

end Atrac3

end SpectralCoding
