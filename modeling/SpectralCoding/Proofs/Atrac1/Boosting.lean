import SpectralCoding.Proofs.Atrac1.WordLengthBounds

/-!
# What a boost spends

Rounds of boosting go on until one raises nothing, or until what is left cannot pay for a single bit
of any block. Every round that raises a block lowers what is left, so they come to an end.

* `Atrac1.IsRaised` : what may become of the word length of a block.
* `Boost.Rests` : rounds without a bound on their number, and where they come to rest.
* `Atrac1.exists_rests` : they do, after no more rounds than bits to spend and one.
* `Boost.Rests.isShut` : at rest what is left pays for no further step.
* `Atrac1.boost_spec` : **a boost spends all that it can, bit for bit, on boostable blocks.**
-/

namespace SpectralCoding

namespace Atrac1

/-! ### Word lengths that rise -/

/-- What may become of the word length of a block: it stays, or it is raised within the greatest
length, from silence by two bits at least. -/
structure IsRaised (block old new : Nat) : Prop where
  le : old ≤ new
  room : old ≤ greatestLength → new ≤ greatestLength
  boostable : new ≠ old → boostable block = true
  fromSilence : new ≠ old → old = 0 → 2 ≤ new

namespace IsRaised

variable {block old between new : Nat}

theorem refl (block old : Nat) : IsRaised block old old :=
  ⟨Nat.le_refl old, id, fun h => absurd rfl h, fun h => absurd rfl h⟩

theorem trans (h₂ : IsRaised block between new) (h₁ : IsRaised block old between) :
    IsRaised block old new where
  le := Nat.le_trans h₁.le h₂.le
  room := h₂.room ∘ h₁.room
  boostable hne := by
    by_cases hstays : between = old
    · exact h₂.boostable (hstays ▸ hne)
    · exact h₁.boostable hstays
  fromSilence hne hold := by
    by_cases hstays : between = old
    · exact h₂.fromSilence (hstays ▸ hne) (hstays.trans hold)
    · exact Nat.le_trans (h₁.fromSilence hstays hold) h₂.le

theorem step (hblock : Atrac1.boostable block = true) (hroom : old ≠ greatestLength) :
    IsRaised block old (old + boostStep old) where
  le := Nat.le_add_right ..
  room hold := by
    unfold boostStep greatestLength at *
    split <;> omega
  boostable _ := hblock
  fromSilence _ hold := by
    rw [hold]
    decide

end IsRaised

/-- Every block of `lengths` is raised to that of `after`. -/
def AreRaised (lengths after : List Nat) : Prop :=
  ∀ block old, lengths[block]? = some old →
    ∃ new, after[block]? = some new ∧ IsRaised block old new

namespace AreRaised

variable {lengths between after : List Nat}

theorem refl (lengths : List Nat) : AreRaised lengths lengths :=
  fun block old h => ⟨old, h, .refl block old⟩

theorem trans (h₂ : AreRaised between after) (h₁ : AreRaised lengths between) :
    AreRaised lengths after := by
  intro block old hold
  obtain ⟨mid, hmid, hfirst⟩ := h₁ block old hold
  obtain ⟨new, hnew, hsecond⟩ := h₂ block mid hmid
  exact ⟨new, hnew, hsecond.trans hfirst⟩

theorem mantissaBits_sub (h : AreRaised lengths after) (hlength : after.length = lengths.length)
    (lines : List Nat) :
    mantissaBits (List.zipWith (· - ·) after lengths) lines + mantissaBits lengths lines =
      mantissaBits after lines := by
  have hle : ∀ i (hi : i < lengths.length), lengths[i] ≤ after[i] := fun i hi => by
    obtain ⟨new, hnew, hraised⟩ := h i _ (List.getElem?_eq_getElem hi)
    rw [List.getElem?_eq_getElem (hlength ▸ hi)] at hnew
    exact Option.some.inj hnew ▸ hraised.le
  clear h
  induction lengths generalizing after lines with
  | nil =>
    obtain rfl := List.eq_nil_of_length_eq_zero hlength
    rfl
  | cons old lengths ih =>
    obtain ⟨new, after, rfl⟩ := List.exists_cons_of_length_eq_add_one hlength
    cases lines with
    | nil => simp
    | cons n lines =>
      have hhead : old ≤ new := hle 0 (Nat.succ_pos _)
      have htail := ih (Nat.succ.inj hlength) lines fun i hi => hle (i + 1) (Nat.succ_lt_succ hi)
      rw [List.zipWith_cons_cons, mantissaBits_cons, mantissaBits_cons, mantissaBits_cons, ← htail,
        ← Nat.sub_add_cancel hhead, Nat.add_sub_cancel, Nat.add_mul]
      omega

end AreRaised

/-! ### Blocks and rounds -/

theorem mem_boostOrder {price block : Nat} :
    (price, block) ∈ boostOrder ↔
      Layout.atrac1.lines[block]? = some price ∧ boostable block = true := by
  rw [boostOrder, List.mem_mergeSort, List.mem_filter, List.mem_zipIdx_iff_getElem?]

theorem price_pos {entry : Nat × Nat} (h : entry ∈ boostOrder) : 0 < entry.1 := by
  have hlines : ∀ n ∈ Layout.atrac1.lines, 0 < n := by decide
  exact hlines _ (List.mem_of_getElem? (lines_of_mem_boostOrder h))

theorem boostStep_pos (length : Nat) : 0 < boostStep length := by
  unfold boostStep
  split <;> decide

/-- What a single bit costs at least. -/
def lowestPrice : Nat := (boostOrder.map (·.1)).headD 0

theorem lowestPrice_le {entry : Nat × Nat} (h : entry ∈ boostOrder) : lowestPrice ≤ entry.1 := by
  have hsorted : boostOrder.Pairwise fun a b => decide (a.1 ≤ b.1) = true :=
    List.pairwise_mergeSort (fun a b c => by simpa using Nat.le_trans)
      (fun a b => by simpa using Nat.le_total a.1 b.1) _
  rw [lowestPrice]
  cases horder : boostOrder with
  | nil => exact Nat.zero_le _
  | cons first rest =>
    rw [horder] at h hsorted
    rcases List.mem_cons.1 h with rfl | h
    · exact Nat.le_refl _
    · exact of_decide_eq_true (List.rel_of_pairwise_cons hsorted h)

/-- The surplus does not pay for a further step of a block, or the block has none. -/
def Boost.IsShut (b : Boost) (entry : Nat × Nat) : Prop :=
  ∀ length, b.lengths[entry.2]? = some length → length ≠ greatestLength →
    b.surplus < entry.1 * boostStep length

/-- A block is left alone because it is shut, or it is raised and paid for. -/
theorem boostBlock_cases (b : Boost) {entry : Nat × Nat} (hentry : entry ∈ boostOrder) :
    boostBlock b entry = b ∧ b.IsShut entry ∨
      (boostBlock b entry).surplus < b.surplus ∧
        AreRaised b.lengths (boostBlock b entry).lengths := by
  unfold boostBlock Boost.IsShut
  cases hl : b.lengths[entry.2]? with
  | none => exact .inl ⟨rfl, nofun⟩
  | some l =>
    simp only
    by_cases hshut : l = greatestLength ∨ b.surplus < entry.1 * boostStep l
    · rw [if_pos hshut]
      refine .inl ⟨rfl, ?_⟩
      rintro _ ⟨⟩ hroom
      exact hshut.resolve_left hroom
    · obtain ⟨hroom, hpaid⟩ := not_or.1 hshut
      rw [if_neg hshut]
      refine .inr ⟨?_, fun block old hold => ?_⟩
      · have hprice := Nat.mul_pos (price_pos hentry) (boostStep_pos l)
        simp only
        omega
      · by_cases hblock : entry.2 = block
        · subst hblock
          obtain rfl := Option.some.inj (hl.symm.trans hold)
          refine ⟨_, List.getElem?_set_self (List.getElem?_eq_some_iff.1 hl).1, ?_⟩
          exact .step (mem_boostOrder.1 hentry).2 hroom
        · exact ⟨old, by rwa [List.getElem?_set_ne hblock], .refl block old⟩

/-- A round leaves all alone because all are shut, or it raises blocks and pays for them. -/
theorem boostRound_cases {entries : List (Nat × Nat)} (hentries : ∀ e ∈ entries, e ∈ boostOrder)
    (b : Boost) :
    boostRound entries b = b ∧ (∀ e ∈ entries, b.IsShut e) ∨
      (boostRound entries b).surplus < b.surplus ∧
        AreRaised b.lengths (boostRound entries b).lengths := by
  induction entries generalizing b with
  | nil => exact .inl ⟨rfl, List.forall_mem_nil _⟩
  | cons e entries ih =>
    obtain ⟨he, hentries⟩ := List.forall_mem_cons.1 hentries
    have hround : boostRound (e :: entries) b = boostRound entries (boostBlock b e) := rfl
    rw [hround]
    rcases boostBlock_cases b he with ⟨hblock, hshut⟩ | ⟨hspent, hraised⟩
    · rw [hblock]
      exact (ih hentries b).imp_left fun ⟨hrest, hall⟩ =>
        ⟨hrest, List.forall_mem_cons.2 ⟨hshut, hall⟩⟩
    · right
      rcases ih hentries (boostBlock b e) with ⟨hrest, -⟩ | ⟨hmore, hrest⟩
      · rw [hrest]
        exact ⟨hspent, hraised⟩
      · exact ⟨Nat.lt_trans hmore hspent, hrest.trans hraised⟩

/-! ### Rounds until rest -/

/-- Rounds of boosting `entries` without a bound on their number: they come to rest when the surplus
is below the price of any bit, or when a round raises nothing. -/
inductive Boost.Rests (entries : List (Nat × Nat)) (lowest : Nat) :
    (rounds : Nat) → (b after : Boost) → Prop where
  /-- Too little is left to begin another round. -/
  | spent {b : Boost} (h : b.surplus < lowest) : Rests entries lowest 0 b b
  /-- A round raises nothing. -/
  | idle {b : Boost} (h : lowest ≤ b.surplus) (hidle : boostRound entries b = b)
      (hshut : ∀ e ∈ entries, b.IsShut e) : Rests entries lowest 1 b b
  /-- A round raises a block: on with another. -/
  | raised {b after : Boost} {rounds : Nat} (h : lowest ≤ b.surplus)
      (hspent : (boostRound entries b).surplus < b.surplus)
      (hraised : AreRaised b.lengths (boostRound entries b).lengths)
      (rest : Rests entries lowest rounds (boostRound entries b) after) :
      Rests entries lowest (rounds + 1) b after

variable {entries : List (Nat × Nat)} {lowest rounds : Nat} {b after : Boost}

theorem exists_rests (hentries : ∀ e ∈ entries, e ∈ boostOrder) {bound : Nat}
    (hbound : b.surplus < bound) :
    ∃ rounds ≤ b.surplus + 1, Boost.Rests entries lowest rounds b
      (boostRounds entries lowest bound b) := by
  -- every round that is not the last lowers the surplus, and the bound by one
  induction bound generalizing b with
  | zero => exact absurd hbound (Nat.not_lt_zero _)
  | succ bound ih =>
    rw [boostRounds]
    by_cases hlow : b.surplus < lowest
    · rw [if_pos hlow]
      exact ⟨0, Nat.zero_le _, .spent hlow⟩
    · rw [if_neg hlow]
      have hlow := Nat.le_of_not_lt hlow
      rcases boostRound_cases hentries b with ⟨hidle, hshut⟩ | ⟨hspent, hraised⟩
      · simp only [hidle, if_true]
        exact ⟨1, Nat.le_add_left .., .idle hlow hidle hshut⟩
      · obtain ⟨rounds, hle, hrest⟩ := ih (Nat.lt_of_lt_of_le hspent (Nat.le_of_lt_succ hbound))
        simp only [if_neg (Nat.ne_of_lt hspent)]
        exact ⟨rounds + 1, by omega, .raised hlow hspent hraised hrest⟩

theorem Boost.Rests.areRaised (h : Boost.Rests entries lowest rounds b after) :
    AreRaised b.lengths after.lengths := by
  induction h with
  | spent h => exact .refl _
  | idle h hidle hshut => exact .refl _
  | raised h hspent hraised rest ih => exact ih.trans hraised

/-- What is below the price of a single bit pays for no step. -/
theorem Boost.isShut_of_lt {entry : Nat × Nat} (h : b.surplus < entry.1) : b.IsShut entry :=
  fun length _ _ => Nat.lt_of_lt_of_le h (Nat.le_mul_of_pos_right _ (boostStep_pos length))

/-- At rest a block is shut, even one that the rounds pass over: they pass over those only that are
too dear from the start. -/
theorem Boost.Rests.isShut (h : Boost.Rests entries lowestPrice rounds b after)
    {entry : Nat × Nat} (hentry : entry ∈ boostOrder)
    (hmember : entry.1 ≤ b.surplus → entry ∈ entries) : after.IsShut entry := by
  induction h with
  | spent h => exact isShut_of_lt (Nat.lt_of_lt_of_le h (lowestPrice_le hentry))
  | @idle b h hidle hshut =>
    by_cases hdear : b.surplus < entry.1
    · exact isShut_of_lt hdear
    · exact hshut entry (hmember (Nat.le_of_not_lt hdear))
  | raised h hspent hraised rest ih =>
    exact ih fun hle => hmember (Nat.le_trans hle (Nat.le_of_lt hspent))

theorem exists_boost_rests (lengths : List Nat) (spent target : Nat) :
    ∃ rounds ≤ target - spent + 1,
      Boost.Rests (boostOrder.filter fun (price, _) => price ≤ target - spent) lowestPrice rounds
        ⟨lengths, target - spent⟩ (boost lengths spent target) :=
  exists_rests (b := ⟨lengths, target - spent⟩) (fun _ h => (List.mem_filter.1 h).1)
    (Nat.lt_succ_self _)

/-- A boost ends, and it moves bits from the surplus to boostable blocks one for one: it raises
those within the greatest length, silent ones by two bits at least, and leaves less than any further
step of one of them costs. -/
theorem boost_spec {lengths : List Nat} (hlengths : ∀ l ∈ lengths, l ≤ greatestLength)
    (spent target : Nat) :
    (∃ rounds ≤ target - spent + 1,
      Boost.Rests (boostOrder.filter fun (price, _) => price ≤ target - spent) lowestPrice rounds
        ⟨lengths, target - spent⟩ (boost lengths spent target)) ∧
      (boost lengths spent target).surplus +
        mantissaBits (List.zipWith (· - ·) (boost lengths spent target).lengths lengths)
          Layout.atrac1.lines = target - spent ∧
      (boost lengths spent target).lengths.length = lengths.length ∧
      (∀ block old new, lengths[block]? = some old →
        (boost lengths spent target).lengths[block]? = some new →
          old ≤ new ∧ new ≤ greatestLength ∧
            (new ≠ old → boostable block = true ∧ (old = 0 → 2 ≤ new))) ∧
      ∀ block n length, boostable block = true → Layout.atrac1.lines[block]? = some n →
        (boost lengths spent target).lengths[block]? = some length → length < greatestLength →
          (boost lengths spent target).surplus < n * boostStep length := by
  have hgrown := boost_isGrown lengths spent target
  obtain ⟨rounds, hrounds, hrest⟩ := exists_boost_rests lengths spent target
  refine ⟨⟨rounds, hrounds, hrest⟩, ?_, hgrown.length, ?_, ?_⟩
  · have hcost := hrest.areRaised.mantissaBits_sub hgrown.length Layout.atrac1.lines
    have htotal := hgrown.total
    simp only at hcost htotal
    omega
  · intro block old new hold hnew
    obtain ⟨_, hnew', hraised⟩ := hrest.areRaised block old hold
    obtain rfl := Option.some.inj (hnew'.symm.trans hnew)
    have hroom := hraised.room (hlengths old (List.mem_of_getElem? hold))
    exact ⟨hraised.le, hroom, fun hne => ⟨hraised.boostable hne, hraised.fromSilence hne⟩⟩
  · intro block n length hblock hn hlength hroom
    have hentry : (n, block) ∈ boostOrder := mem_boostOrder.2 ⟨hn, hblock⟩
    have hshut := hrest.isShut hentry fun hle =>
      List.mem_filter.2 ⟨hentry, decide_eq_true hle⟩
    exact hshut length hlength (Nat.ne_of_lt hroom)

/-- A hundred bits for fifty-two blocks of which some boostable ones are silent and one is at the
greatest length. -/
theorem boost_spec_hundred :
    (∀ l ∈ List.replicate 20 4 ++ [16, 0] ++ List.replicate 30 2, l ≤ greatestLength) ∧
      (boost (List.replicate 20 4 ++ [16, 0] ++ List.replicate 30 2) 1000 1100).surplus +
        mantissaBits
          (List.zipWith (· - ·)
            (boost (List.replicate 20 4 ++ [16, 0] ++ List.replicate 30 2) 1000 1100).lengths
            (List.replicate 20 4 ++ [16, 0] ++ List.replicate 30 2))
          Layout.atrac1.lines = 100 := by
  have hlengths : ∀ l ∈ List.replicate 20 4 ++ [16, 0] ++ List.replicate 30 2,
      l ≤ greatestLength := by
    decide
  exact ⟨hlengths, (boost_spec hlengths 1000 1100).2.1⟩

end Atrac1

end SpectralCoding
