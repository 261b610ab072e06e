import Mathlib.Data.List.GetD
import Mathlib.Data.List.Induction
import Mathlib.Order.Basic
import Mathlib.Tactic.ByContra
import SpectralCoding.Atrac3Plus.Stages
import SpectralCoding.Proofs.Atrac3.MantissaCost

/-!
# The parts of an ATRAC3+ frame

* `Fields.length_emit` : fields put by cost what they put out.
* `Atrac3Plus.differenceFields_of_bestBook` : in the book that is taken no difference is passed
  over.
* `Atrac3Plus.cost_lengthFields_le` : word lengths never cost more than in the plain way.
* `Atrac3Plus.IsAllotted` : what the second stage decides, whatever the shift:
  `isAllotted_withShift`.
* `Atrac3Plus.unitsInUse_le_iff`, `Atrac3Plus.sounding_le_iff` : where the units in use and the tone
  bands that sound end.
* `Atrac3Plus.toneFields_of_checkTones` : tone bands that were accepted can be packed.
-/

namespace SpectralCoding

namespace Fields

theorem fault_emit (fs : Fields) : fs.emit.fault = none :=
  Emission.fault_each_eq_none.2 fun _ _ => rfl

theorem length_emit (fs : Fields) : fs.emit.bits.length = fs.cost := by
  rw [emit, Emission.length_each_of_clean fun _ _ => rfl]
  simp [cost]

end Fields

namespace Atrac3Plus

/-! ### Word lengths -/

theorem cost_plainFields (lengths : List Nat) :
    Fields.cost (plainFields lengths) = 2 + 3 * lengths.length := by
  induction lengths with
  | nil => rfl
  | cons l lengths ih =>
    simp only [plainFields, List.map_cons, Fields.cost_cons, List.length_cons] at ih ⊢
    omega

theorem cost_ofWord (words : List Codeword) :
    Fields.cost (words.map .ofWord) = (words.map (·.width)).sum := by
  rw [Fields.cost, List.map_map]
  rfl

theorem mem_of_cheapest {cs : List (Nat × Nat)} {c : Nat × Nat} (h : cheapest cs = some c) :
    c ∈ cs := by
  induction cs generalizing c with
  | nil => cases h
  | cons c' cs ih =>
    rw [cheapest] at h
    cases hrest : cheapest cs with
    | none =>
      rw [hrest] at h
      obtain rfl := Option.some.inj h
      exact List.mem_cons_self
    | some d =>
      rw [hrest] at h
      obtain rfl := Option.some.inj h
      split
      · exact List.mem_cons_of_mem _ (ih hrest)
      · exact List.mem_cons_self

theorem mem_candidates {differences : List Nat} {place bits : Nat} :
    (place, bits) ∈ candidates differences ↔
      ∃ book, ∃ words : List Codeword, differenceBooks[place]? = some book ∧
        differenceWords book differences = words.map some ∧ bits = (words.map (·.width)).sum := by
  simp only [candidates, List.mem_filterMap, Option.map_eq_some_iff, Prod.exists,
    List.mk_mem_zipIdx_iff_getElem?, Atrac3.totalWidth_eq_some, Prod.mk.injEq]
  constructor
  · rintro ⟨book, i, hbook, total, ⟨words, hwords, rfl⟩, rfl, rfl⟩
    exact ⟨book, words, hbook, hwords, rfl⟩
  · rintro ⟨book, words, hbook, hwords, rfl⟩
    exact ⟨book, place, hbook, _, ⟨words, hwords, rfl⟩, rfl, rfl⟩

theorem differenceFields_eq {differences : List Nat} {place : Nat} {book : List (Option Codeword)}
    {words : List Codeword} (hbook : differenceBooks[place]? = some book)
    (hwords : differenceWords book differences = words.map some) :
    differenceFields place differences = words.map .ofWord := by
  have hnamed : differenceBooks.getD place [] = book := by
    rw [List.getD_eq_getElem?_getD, hbook]
    rfl
  rw [differenceFields, hnamed, hwords, List.filterMap_map]
  exact congrFun List.filterMap_eq_map words

/-- In the book that is taken no difference is passed over, and they take the bits counted. -/
theorem differenceFields_of_bestBook {differences : List Nat} {place bits : Nat}
    (h : bestBook differences = some (place, bits)) :
    (differenceFields place differences).length = differences.length ∧
      Fields.cost (differenceFields place differences) = bits := by
  obtain ⟨book, words, hbook, hwords, rfl⟩ := mem_candidates.1 (mem_of_cheapest h)
  have hlength := congrArg List.length hwords
  rw [differenceWords, List.length_map, List.length_map] at hlength
  rw [differenceFields_eq hbook hwords, List.length_map, cost_ofWord]
  exact ⟨hlength.symm, rfl⟩

theorem cost_shorterFields_le (lengths differences : List Nat) {overhead : Nat}
    {heading : Nat → Fields} (hheading : ∀ place, Fields.cost (heading place) = overhead) :
    Fields.cost (shorterFields lengths differences overhead heading) ≤ 2 + 3 * lengths.length := by
  unfold shorterFields
  split
  · exact Nat.le_of_eq (cost_plainFields lengths)
  · rename_i place bits hbest
    split
    · rename_i hlt
      rw [Fields.cost_append, hheading, (differenceFields_of_bestBook hbest).2]
      exact Nat.le_of_lt hlt
    · exact Nat.le_of_eq (cost_plainFields lengths)

/-- Word lengths never cost more than in the plain way. -/
theorem cost_lengthFields_le (units : Nat) (rows : List (List Nat)) :
    Fields.cost (lengthFields units rows) ≤ (2 + 3 * units) * rows.length := by
  have htake (row : List Nat) : 2 + 3 * (row.take units).length ≤ 2 + 3 * units := by
    have h := List.length_take_le units row
    omega
  cases rows with
  | nil => exact Nat.zero_le _
  | cons first others =>
    have hfirst : Fields.cost (firstFields (first.take units)) ≤ 2 + 3 * units :=
      Nat.le_trans (cost_shorterFields_le _ _ fun _ => rfl) (htake first)
    have hothers : Fields.cost (others.flatMap fun ls => secondFields first (ls.take units)) ≤
        (2 + 3 * units) * others.length := by
      induction others with
      | nil => exact Nat.zero_le _
      | cons row others ih =>
        have hrow : Fields.cost (secondFields first (row.take units)) ≤ 2 + 3 * units :=
          Nat.le_trans (cost_shorterFields_le _ _ fun _ => rfl) (htake row)
        rw [List.flatMap_cons, Fields.cost_append, List.length_cons, Nat.mul_succ]
        omega
    rw [lengthFields, Fields.cost_append, List.length_cons, Nat.mul_succ]
    omega

/-! ### Units in use -/

theorem le_foldl_max {l : List Nat} {n x : Nat} (h : x ≤ n ∨ x ∈ l) : x ≤ l.foldl max n := by
  induction l generalizing n with
  | nil => simpa using h
  | cons y l ih =>
    rw [List.foldl_cons]
    apply ih
    rcases h with h | h
    · omega
    · rcases List.mem_cons.1 h with rfl | h
      · omega
      · exact .inr h

theorem foldl_max_le {l : List Nat} {n m : Nat} (hn : n ≤ m) (h : ∀ x ∈ l, x ≤ m) :
    l.foldl max n ≤ m := by
  induction l generalizing n with
  | nil => exact hn
  | cons y l ih =>
    obtain ⟨hy, hl⟩ := List.forall_mem_cons.1 h
    exact ih (Nat.max_le.2 ⟨hn, hy⟩) hl

/-- What is left of a list without the entries at its end that have a property ends where all that
follow have it. -/
theorem length_dropWhile_reverse_le_iff {α : Type} {p : α → Bool} {d : α} (hd : p d = true)
    {l : List α} {n : Nat} :
    (l.reverse.dropWhile p).length ≤ n ↔ ∀ i, n ≤ i → p (l.getD i d) = true := by
  induction l using List.reverseRecOn with
  | nil => exact iff_of_true (Nat.zero_le n) fun _ _ => hd
  | append_singleton l a ih =>
    have hlast : (l ++ [a]).getD l.length d = a := by
      rw [List.getD_append_right _ _ _ _ (Nat.le_refl _), Nat.sub_self]
      rfl
    rw [List.reverse_append, List.reverse_singleton, List.singleton_append]
    by_cases ha : p a = true
    · rw [List.dropWhile_cons_of_pos ha, ih]
      refine forall_congr' fun i => imp_congr_right fun _ => ?_
      rcases Nat.lt_trichotomy i l.length with hlt | rfl | hgt
      · rw [List.getD_append _ _ _ _ hlt]
      · rw [hlast, List.getD_eq_default _ _ (Nat.le_refl _)]
        exact iff_of_true hd ha
      · rw [List.getD_eq_default _ _ (Nat.le_of_lt hgt),
          List.getD_eq_default _ _ (by rw [List.length_append]; exact hgt)]
    · rw [List.dropWhile_cons_of_neg ha, List.length_cons, List.length_reverse]
      constructor
      · intro hle i hi
        rwa [List.getD_eq_default _ _ (by rw [List.length_append]; exact Nat.le_trans hle hi)]
      · intro h
        by_contra hlt
        exact ha (hlast ▸ h l.length (by omega))

/-- The units in use end where all that follow have length zero. -/
theorem unitsInUse_le_iff {lengths : List Nat} {n : Nat} :
    unitsInUse lengths ≤ n ↔ ∀ i, n ≤ i → lengths.getD i 0 = 0 := by
  simp only [unitsInUse, length_dropWhile_reverse_le_iff (p := (· == 0)) (d := 0) rfl, beq_iff_eq]

theorem length_resize (n : Nat) (xs : List Nat) : (resize n xs).length = n := by
  simp only [resize, List.length_append, List.length_take, List.length_replicate]
  omega

theorem getD_resize_of_zero {n i : Nat} {xs : List Nat} (h : xs.getD i 0 = 0) :
    (resize n xs).getD i 0 = 0 := by
  rw [List.getD_eq_getElem?_getD] at h ⊢
  rw [resize, List.getElem?_append]
  by_cases hi : i < (xs.take n).length
  · have hlt : i < n := by
      rw [List.length_take] at hi
      omega
    rwa [if_pos hi, List.getElem?_take_of_lt hlt]
  · rw [if_neg hi, List.getElem?_replicate]
    split <;> rfl

/-- Word lengths of `units` units in a row for every channel, of which `used` are in use. -/
structure IsAllotted (channels units used : Nat) (lengths : List (List Nat)) : Prop where
  coded : isCodedUnits units = true
  rows : lengths.length = channels
  length : ∀ row ∈ lengths, row.length = units
  silent : ∀ row ∈ lengths, ∀ i, used ≤ i → row.getD i 0 = 0
  /-- With no unit in use one unit is written. -/
  single : used = 0 → units = 1

theorem isAllotted_withShift (frame : Frame) (shift : Float32) :
    IsAllotted frame.channels.length (frame.withShift shift).units (frame.withShift shift).usedUnits
      (frame.withShift shift).lengths where
  coded := isCodedUnits_codedUnits _
  rows := by simp [Frame.withShift]
  length row hrow := by
    obtain ⟨xs, -, rfl⟩ := List.mem_map.1 hrow
    exact length_resize ..
  silent row hrow i hi := by
    obtain ⟨xs, hxs, rfl⟩ := List.mem_map.1 hrow
    have hused : unitsInUse xs ≤ (frame.withShift shift).usedUnits :=
      le_foldl_max (.inr (List.mem_map_of_mem hxs))
    exact getD_resize_of_zero (unitsInUse_le_iff.1 hused i hi)
  single h := by
    have hunits : (frame.withShift shift).units =
        codedUnits (frame.withShift shift).usedUnits := rfl
    rw [hunits, h]
    rfl

/-! ### Tones -/

/-- The bands of a channel that sound end where no band that follows has a wave. -/
theorem sounding_le_iff {ts : List ToneBand} {n : Nat} :
    sounding ts ≤ n ↔ ∀ band, n ≤ band → (ts.getD band {}).waves = [] := by
  simp only [sounding,
    length_dropWhile_reverse_le_iff (p := fun t : ToneBand => t.waves.isEmpty) (d := {}) rfl,
    List.isEmpty_iff]

theorem sounding_le (ts : List ToneBand) : sounding ts ≤ ts.length :=
  sounding_le_iff.2 fun _ hband => congrArg ToneBand.waves (List.getD_eq_default _ _ hband)

theorem length_le_of_checkTones {ts : List ToneBand} (h : checkTones ts = .ok ()) :
    ts.length ≤ mostToneBands := by
  unfold checkTones at h
  split at h
  · cases h
  · omega

theorem codedToneBands_le {channels : List (List ToneBand)}
    (h : ∀ ts ∈ channels, checkTones ts = .ok ()) : codedToneBands channels ≤ mostToneBands := by
  refine foldl_max_le (Nat.zero_le _) fun n hn => ?_
  obtain ⟨ts, hts, rfl⟩ := List.mem_map.1 hn
  exact Nat.le_trans (sounding_le ts) (length_le_of_checkTones (h ts hts))

/-- Tone bands that were accepted can be packed. -/
theorem toneFields_of_checkTones {frame : Frame} (h : ∀ ch ∈ frame.channels,
    checkTones ch.tones = .ok ()) :
    frame.toneFields? = .ok (packTones (frame.channels.map (·.tones))) :=
  if_pos (codedToneBands_le (List.forall_mem_map.2 h))

end Atrac3Plus

end SpectralCoding
