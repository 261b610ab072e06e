import Mathlib.Order.Bounds.Basic
import SpectralCoding.Proofs.Allocation.Trimming

/-!
# Where trimming cuts

Trimming silences the blocks behind a cut and leaves those in front of it alone. It is done here a
second time, as a loop over the blocks in place from the last one down, with a running cost from
which the cost of every block that is silenced is taken.

* `silenceFrom` : word lengths with the blocks behind a cut silenced.
* `affordableCuts` : the cuts in front of which the blocks are within the budget.
* `trim?` : trimming as that loop, in numbers of limited size.
* `exists_trimFrom_eq` : the cut is the greatest affordable one.
* `silenceDown?_eq` : the running cost is what the lengths cost as they stand.
* `trim_greatest_cut` : **trimming keeps the longest row of blocks that is within the budget, and
  the running cost does not fall below zero.**
-/

namespace SpectralCoding

/-- Word lengths with the blocks from `k` on silenced. A length without a number of lines stays. -/
def silenceFrom (k : Nat) (lengths lines : List Nat) : List Nat :=
  lengths.mapIdx fun i w => if k ≤ i ∧ i < lines.length then 0 else w

/-- The cuts in front of which blocks cost at most `target`, other blocks having cost `spent`. -/
def affordableCuts (target spent : Nat) (lengths lines : List Nat) : Set Nat :=
  {k | k ≤ min lengths.length lines.length ∧
    spent + mantissaBits (lengths.take k) lines ≤ target}

/-! ### Trimming in place -/

/-- The cost of all lines, blocks that were counted before costing `spent`, if it is at most
`most`. -/
def mantissaBits? (most : Nat) : (spent : Nat) → (blocks : List (Nat × Nat)) → Option Nat
  | spent, [] => some spent
  | spent, (w, n) :: blocks =>
    if spent + w * n ≤ most then mantissaBits? most (spent + w * n) blocks else none

/-- Silence blocks from the one below `m` downwards while the running cost `bits` exceeds `target`.
Every block is looked up within the lists, and the running cost must not fall below zero. -/
def silenceDown? (target : Nat) (lines : List Nat) :
    (m : Nat) → (lengths : List Nat) → (bits : Nat) → Option (List Nat × Nat)
  | 0, lengths, bits => some (lengths, bits)
  | m + 1, lengths, bits =>
    if bits ≤ target then some (lengths, bits)
    else
      match lengths[m]?, lines[m]? with
      | some w, some n =>
        if w * n ≤ bits then silenceDown? target lines m (lengths.set m 0) (bits - w * n) else none
      | _, _ => none

/-- Trimming in place, in numbers of which `most` is the greatest. -/
def trim? (most target : Nat) (lengths lines : List Nat) : Option (List Nat × Nat) := do
  let bits ← mantissaBits? most 0 (lengths.zip lines)
  silenceDown? target lines (min lengths.length lines.length) lengths bits

/-! ### Cuts -/

variable {k target spent : Nat} {lengths lines : List Nat}

theorem getElem?_silenceFrom (k : Nat) (lengths lines : List Nat) (i : Nat) :
    (silenceFrom k lengths lines)[i]? =
      if k ≤ i ∧ i < min lengths.length lines.length then some 0 else lengths[i]? := by
  rw [silenceFrom, List.getElem?_mapIdx]
  rcases Nat.lt_or_ge i lengths.length with hlt | hge
  · simp only [List.getElem?_eq_getElem hlt, Option.map_some, Nat.lt_min, hlt, true_and]
    split <;> rfl
  · rw [List.getElem?_eq_none hge, if_neg (by omega)]
    rfl

theorem silenceFrom_of_le (h : min lengths.length lines.length ≤ k) :
    silenceFrom k lengths lines = lengths := by
  refine List.ext_getElem? fun i => ?_
  rw [getElem?_silenceFrom, if_neg (by omega)]

@[simp] theorem silenceFrom_nil_right (k : Nat) (lengths : List Nat) :
    silenceFrom k lengths [] = lengths :=
  silenceFrom_of_le (by simp)

theorem silenceFrom_zero_cons (w n : Nat) (ws ns : List Nat) :
    silenceFrom 0 (w :: ws) (n :: ns) = 0 :: silenceFrom 0 ws ns := by
  simp [silenceFrom]

theorem silenceFrom_succ_cons (k w n : Nat) (ws ns : List Nat) :
    silenceFrom (k + 1) (w :: ws) (n :: ns) = w :: silenceFrom k ws ns := by
  simp [silenceFrom]

/-- A cut moves down by a block that is silenced. -/
theorem set_silenceFrom (hk : k < min lengths.length lines.length) :
    (silenceFrom (k + 1) lengths lines).set k 0 = silenceFrom k lengths lines := by
  have hlength : (silenceFrom (k + 1) lengths lines).length = lengths.length :=
    List.length_mapIdx
  refine List.ext_getElem? fun i => ?_
  rw [List.getElem?_set, getElem?_silenceFrom, getElem?_silenceFrom, hlength]
  split <;> split <;> split <;> first | rfl | omega

theorem mantissaBits_silenceFrom (k : Nat) (lengths lines : List Nat) :
    mantissaBits (silenceFrom k lengths lines) lines = mantissaBits (lengths.take k) lines := by
  induction lengths generalizing k lines with
  | nil => rw [silenceFrom_of_le (by simp), List.take_nil]
  | cons w ws ih =>
    cases lines with
    | nil => rw [mantissaBits_nil_right, mantissaBits_nil_right]
    | cons n ns =>
      cases k with
      | zero =>
        rw [silenceFrom_zero_cons, mantissaBits_cons, ih, List.take_zero, List.take_zero,
          mantissaBits_nil_left, mantissaBits_nil_left, Nat.zero_mul]
      | succ k =>
        rw [silenceFrom_succ_cons, mantissaBits_cons, ih, List.take_succ_cons, mantissaBits_cons]

/-! ### From the first block -/

theorem trimFrom_of_lt (h : target < spent) (lengths lines : List Nat) :
    trimFrom target spent lengths lines = (silenceFrom 0 lengths lines, spent) := by
  induction lengths generalizing spent lines with
  | nil => cases lines <;> rfl
  | cons w ws ih =>
    cases lines with
    | nil => rw [silenceFrom_nil_right]; rfl
    | cons n ns =>
      rw [trimFrom, ih (by omega), silenceFrom_zero_cons]
      dsimp only
      rw [if_neg (by omega), Nat.add_sub_cancel]

/-- Trimming cuts as far back as the budget allows. -/
theorem exists_trimFrom_eq (h : spent ≤ target) (lengths lines : List Nat) :
    ∃ k, IsGreatest (affordableCuts target spent lengths lines) k ∧
      trimFrom target spent lengths lines =
        (silenceFrom k lengths lines, spent + mantissaBits (lengths.take k) lines) := by
  induction lengths generalizing spent lines with
  | nil =>
    refine ⟨0, ⟨⟨Nat.zero_le _, h⟩, fun k hk => ?_⟩, ?_⟩
    · have hle := hk.1
      rwa [List.length_nil, Nat.zero_min] at hle
    · cases lines <;> rfl
  | cons w ws ih =>
    cases lines with
    | nil =>
      refine ⟨0, ⟨⟨Nat.zero_le _, h⟩, fun k hk => ?_⟩, ?_⟩
      · have hle := hk.1
        rwa [List.length_nil, Nat.min_zero] at hle
      · rw [silenceFrom_nil_right]; rfl
    | cons n ns =>
      rw [trimFrom]
      rcases Nat.lt_or_ge target (spent + w * n) with hover | hfits
      · -- not even the first block is within the budget
        refine ⟨0, ⟨⟨Nat.zero_le _, h⟩, fun k hk => ?_⟩, ?_⟩
        · cases k with
          | zero => exact Nat.le_refl 0
          | succ k =>
            have hcost := hk.2
            rw [List.take_succ_cons, mantissaBits_cons] at hcost
            omega
        · rw [trimFrom_of_lt hover, silenceFrom_zero_cons]
          dsimp only
          rw [if_neg (by omega), Nat.add_sub_cancel]
          rfl
      · obtain ⟨k, ⟨⟨hle, hcost⟩, hgreatest⟩, htrim⟩ := ih hfits ns
        refine ⟨k + 1, ⟨⟨?_, ?_⟩, fun j hj => ?_⟩, ?_⟩
        · simp only [List.length_cons]
          omega
        · rw [List.take_succ_cons, mantissaBits_cons]
          omega
        · cases j with
          | zero => exact Nat.zero_le _
          | succ j =>
            obtain ⟨hjle, hjcost⟩ := hj
            simp only [List.length_cons] at hjle
            rw [List.take_succ_cons, mantissaBits_cons] at hjcost
            exact Nat.succ_le_succ (hgreatest ⟨by omega, by omega⟩)
        · rw [htrim, silenceFrom_succ_cons, List.take_succ_cons, mantissaBits_cons]
          dsimp only
          rw [if_pos hcost, Nat.add_assoc]

/-! ### From the last block -/

theorem mantissaBits?_eq (most spent : Nat) (lengths lines : List Nat) (h : spent ≤ most) :
    mantissaBits? most spent (lengths.zip lines) =
      if spent + mantissaBits lengths lines ≤ most then some (spent + mantissaBits lengths lines)
      else none := by
  induction lengths generalizing spent lines with
  | nil => exact (if_pos h).symm
  | cons w ws ih =>
    cases lines with
    | nil =>
      rw [mantissaBits_nil_right]
      exact (if_pos h).symm
    | cons n ns =>
      rw [List.zip_cons_cons, mantissaBits?, mantissaBits_cons, ← Nat.add_assoc]
      by_cases hfits : spent + w * n ≤ most
      · rw [if_pos hfits, ih _ _ hfits]
      · rw [if_neg hfits, if_neg (by omega)]

/-- A step of the loop: the running cost pays for the block, and is then again what the lengths
cost. -/
theorem silenceDown?_succ {m : Nat} (hm : m < min lengths.length lines.length)
    (hover : target < mantissaBits (silenceFrom (m + 1) lengths lines) lines) :
    silenceDown? target lines (m + 1) (silenceFrom (m + 1) lengths lines)
        (mantissaBits (silenceFrom (m + 1) lengths lines) lines) =
      silenceDown? target lines m (silenceFrom m lengths lines)
        (mantissaBits (silenceFrom m lengths lines) lines) := by
  have hlength : lengths[m]? = some lengths[m] := List.getElem?_eq_getElem (by omega)
  have hlines : lines[m]? = some lines[m] := List.getElem?_eq_getElem (by omega)
  have hkept : (silenceFrom (m + 1) lengths lines)[m]? = some lengths[m] := by
    rw [getElem?_silenceFrom, if_neg (by omega), hlength]
  have hpaid := mantissaBits_set hkept hlines 0
  rw [set_silenceFrom hm, Nat.zero_mul, Nat.add_zero] at hpaid
  rw [silenceDown?, if_neg (by omega), hkept, hlines]
  dsimp only
  rw [if_pos (by omega), set_silenceFrom hm, ← hpaid, Nat.add_sub_cancel]

/-- From any place behind the greatest affordable cut the loop comes down to the cut and stops. -/
theorem silenceDown?_eq (hk : IsGreatest (affordableCuts target 0 lengths lines) k) {m : Nat}
    (hkm : k ≤ m) (hm : m ≤ min lengths.length lines.length) :
    silenceDown? target lines m (silenceFrom m lengths lines)
        (mantissaBits (silenceFrom m lengths lines) lines) =
      some (silenceFrom k lengths lines, mantissaBits (silenceFrom k lengths lines) lines) := by
  induction m with
  | zero =>
    obtain rfl := Nat.le_zero.1 hkm
    rfl
  | succ m ih =>
    rcases Nat.lt_or_eq_of_le hkm with hlt | rfl
    · -- a cut behind the greatest one is not affordable
      have hover : target < mantissaBits (silenceFrom (m + 1) lengths lines) lines := by
        rw [mantissaBits_silenceFrom]
        refine Nat.lt_of_not_le fun hcost => Nat.not_le_of_lt hlt (hk.2 ⟨hm, ?_⟩)
        rwa [Nat.zero_add]
      rw [silenceDown?_succ hm hover]
      exact ih (Nat.le_of_lt_succ hlt) (Nat.le_of_lt hm)
    · have hcost := hk.1.2
      rw [Nat.zero_add, ← mantissaBits_silenceFrom] at hcost
      rw [silenceDown?, if_pos hcost]

/-- **Trimming keeps the longest row of blocks that is within the budget.** The blocks behind the
greatest affordable cut are silenced and nothing else is touched; the cost is that of the lengths
that are left. Trimming in place comes to the same, and if the cost fits at all, the running cost
neither overflows nor falls below zero. -/
theorem trim_greatest_cut (target : Nat) (lengths lines : List Nat) :
    let blocks := min lengths.length lines.length
    let kept := (trim target lengths lines).1
    let cost := (trim target lengths lines).2
    (∃ k, IsGreatest {k | k ≤ blocks ∧ mantissaBits (lengths.take k) lines ≤ target} k ∧
      ∀ i, kept[i]? = if k ≤ i ∧ i < blocks then some 0 else lengths[i]?) ∧
    cost = mantissaBits kept lines ∧ cost ≤ target ∧
    ∀ most, trim? most target lengths lines =
      if mantissaBits lengths lines ≤ most then some (kept, cost) else none := by
  intro blocks kept cost
  obtain ⟨k, hk, htrim⟩ := exists_trimFrom_eq (Nat.zero_le target) lengths lines
  have hkept : kept = silenceFrom k lengths lines := congrArg Prod.fst htrim
  have hcuts : affordableCuts target 0 lengths lines =
      {k | k ≤ blocks ∧ mantissaBits (lengths.take k) lines ≤ target} := by
    simp only [affordableCuts, Nat.zero_add, blocks]
  have hloop := silenceDown?_eq hk hk.1.1 (Nat.le_refl _)
  have hcost : cost = mantissaBits kept lines := cost_trim
  rw [silenceFrom_of_le (Nat.le_refl _), ← hkept, ← hcost] at hloop
  refine ⟨⟨k, hcuts ▸ hk, fun i => ?_⟩, hcost, cost_trim_le, fun most => ?_⟩
  · rw [hkept, getElem?_silenceFrom]
  · rw [trim?, mantissaBits?_eq _ _ _ _ (Nat.zero_le most), Nat.zero_add]
    split
    · exact hloop
    · rfl

/-- Two blocks are within a budget of seventy bits; that the last block has no lines makes no
difference. -/
example : trim 70 [4, 4, 4, 4, 9] [8, 8, 8, 8] = ([4, 4, 0, 0, 9], 64) := by decide

end SpectralCoding
