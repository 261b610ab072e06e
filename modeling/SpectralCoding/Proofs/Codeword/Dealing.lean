import Mathlib.Data.List.Nodup
import SpectralCoding.Proofs.Codeword.Canonical

/-!
# Dealing out canonical words

Words are made and dealt out to symbols in one go: the number of a word counts up in sixteen bits
while the symbols are looked up.

* `book?` : making and dealing in one loop, in which no number may overflow.
* `Names` : a place at which there is a symbol of the book.
* `of_deal_cons_eq_ok` : what a word that has been dealt needs.
* `of_deal_eq_error`, `of_deal_eq_ok`, `exists_deal_eq_error_iff` : dealing fails at a place without
  a symbol of the book, and only there.
* `getElem?_deal`, `getElem?_deal_of_ne` : where the words are found.
* `book?_eq` : no number overflows.
* `book_prefix_free` : **words that have room are dealt out without overflow, unless a symbol is
  missing or not of the book; and none begins another.**
-/

namespace SpectralCoding

namespace Codeword

/-! ### In one loop -/

/-- Deal `count` words of one width to the symbols from `place` on. The number that comes next is
counted in sixteen bits, and must not overflow. -/
def dealRow? (symbols : List Nat) (width : Nat) : (count place : Nat) → (code : UInt16) →
    (book : List Codeword) → Except Error (Nat × UInt16 × List Codeword)
  | 0, place, code, book => .ok (place, code, book)
  | count + 1, place, code, book =>
    match symbols[place]? with
    | .none => .error (.symbolMissing place)
    | some symbol =>
      if symbol < book.length then
        if code.toNat + 1 < 2 ^ 16 then
          dealRow? symbols width count (place + 1) (code + 1) (book.set symbol ⟨code.toNat, width⟩)
        else .error .outOfRange
      else .error (.symbolRange symbol book.length)

/-- Deal words of widths `width` and up to the symbols from `place` on. Behind each width a zero is
appended to the number that comes next. No bit of it must be lost, except behind the last width, as
no word is made of the number there. -/
def dealRows? (symbols : List Nat) : (counts : List Nat) → (width place : Nat) → (code : UInt16) →
    (book : List Codeword) → Except Error (List Codeword)
  | [], _, _, _, book => .ok book
  | n :: counts, width, place, code, book =>
    match dealRow? symbols (width % 256) n place code book with
    | .error cause => .error cause
    | .ok (place, code, book) =>
      if counts = [] ∨ code.toNat * 2 < 2 ^ 16 then
        dealRows? symbols counts (width + 1) place (code <<< 1) book
      else .error .outOfRange

/-- The code book of `size` symbols, made in one loop. -/
def book? (counts symbols : List Nat) (size : Nat) : Except Error (List Codeword) :=
  dealRows? symbols counts 1 0 0 (List.replicate size none)

/-- At place `i` there is a symbol of a book of `size` symbols. -/
def Names (symbols : List Nat) (size i : Nat) : Prop := ∃ s, symbols[i]? = some s ∧ s < size

variable {symbols counts : List Nat} {words table started : List Codeword}
  {place size width n : Nat} {cause : Error}

theorem not_names_iff {i : Nat} :
    ¬Names symbols size i ↔ symbols[i]? = .none ∨ ∃ s, symbols[i]? = some s ∧ size ≤ s := by
  unfold Names
  cases symbols[i]? <;> simp

/-! ### Dealing -/

/-- Dealing fails at the first place without a symbol of the book. -/
theorem of_deal_eq_error (h : deal symbols place words started = .error cause) :
    cause.kind = .internal ∧ ∃ j < words.length, ¬Names symbols started.length (place + j) := by
  induction words generalizing place started with
  | nil => cases h
  | cons word words ih =>
    rw [deal] at h
    split at h
    · rename_i hmissing
      obtain rfl := Except.error.inj h
      exact ⟨rfl, 0, Nat.succ_pos _, not_names_iff.2 (.inl hmissing)⟩
    · rename_i symbol hsymbol
      split at h
      · obtain ⟨hkind, j, hj, hnames⟩ := ih h
        rw [List.length_set, Nat.add_right_comm] at hnames
        exact ⟨hkind, j + 1, Nat.succ_lt_succ hj, hnames⟩
      · rename_i hrange
        obtain rfl := Except.error.inj h
        have hlarge := Nat.le_of_not_lt hrange
        exact ⟨rfl, 0, Nat.succ_pos _, not_names_iff.2 (.inr ⟨symbol, hsymbol, hlarge⟩)⟩

/-- A word that has been dealt was dealt to a symbol of the book. -/
theorem of_deal_cons_eq_ok {word : Codeword}
    (h : deal symbols place (word :: words) started = .ok table) :
    ∃ s, symbols[place]? = some s ∧ s < started.length ∧
      deal symbols (place + 1) words (started.set s word) = .ok table := by
  rw [deal] at h
  split at h
  · cases h
  · rename_i s hs
    split at h
    · rename_i hrange
      exact ⟨s, hs, hrange, h⟩
    · cases h

/-- A book that has been dealt keeps its size, and there was a symbol of it at every place. -/
theorem of_deal_eq_ok (h : deal symbols place words started = .ok table) :
    table.length = started.length ∧
      ∀ j < words.length, Names symbols started.length (place + j) := by
  induction words generalizing place started with
  | nil =>
    obtain rfl := Except.ok.inj h
    exact ⟨rfl, nofun⟩
  | cons word words ih =>
    obtain ⟨s, hs, hrange, hrest⟩ := of_deal_cons_eq_ok h
    obtain ⟨hlength, hnames⟩ := ih hrest
    rw [List.length_set] at hlength hnames
    refine ⟨hlength, fun j hj => ?_⟩
    cases j with
    | zero => exact ⟨s, hs, hrange⟩
    | succ j =>
      rw [Nat.add_left_comm, Nat.add_comm]
      exact hnames j (Nat.lt_of_succ_lt_succ hj)

/-- Dealing fails if and only if a place is without a symbol of the book. -/
theorem exists_deal_eq_error_iff :
    (∃ cause, deal symbols place words started = .error cause) ↔
      ∃ j < words.length, ¬Names symbols started.length (place + j) := by
  constructor
  · rintro ⟨cause, h⟩
    exact (of_deal_eq_error h).2
  · rintro ⟨j, hj, hnames⟩
    cases h : deal symbols place words started with
    | error cause => exact ⟨cause, rfl⟩
    | ok table => exact (hnames ((of_deal_eq_ok h).2 j hj)).elim

theorem getElem?_deal_of_ne (h : deal symbols place words started = .ok table) {s : Nat}
    (hs : ∀ j < words.length, symbols[place + j]? ≠ some s) : table[s]? = started[s]? := by
  induction words generalizing place started with
  | nil =>
    obtain rfl := Except.ok.inj h
    rfl
  | cons word words ih =>
    obtain ⟨t, ht, -, hrest⟩ := of_deal_cons_eq_ok h
    have hne : t ≠ s := fun hsame => hs 0 (Nat.succ_pos _) (hsame ▸ ht)
    rw [ih hrest fun j hj => ?_, List.getElem?_set_ne hne]
    have hlater := hs (j + 1) (Nat.succ_lt_succ hj)
    rwa [Nat.add_left_comm, Nat.add_comm] at hlater

/-- A word is found at its symbol, if no other word is dealt to that. -/
theorem getElem?_deal (h : deal symbols place words started = .ok table)
    (hdistinct : ∀ i j, i < j → j < words.length → symbols[place + i]? ≠ symbols[place + j]?)
    {j s : Nat} (hj : j < words.length) (hs : symbols[place + j]? = some s) :
    table[s]? = words[j]? := by
  induction words generalizing place started j with
  | nil => cases hj
  | cons word words ih =>
    have hshift : ∀ i, place + (i + 1) = place + 1 + i := fun i => by omega
    obtain ⟨t, ht, hrange, hrest⟩ := of_deal_cons_eq_ok h
    cases j with
    | zero =>
      obtain rfl : t = s := Option.some.inj (ht.symm.trans hs)
      rw [getElem?_deal_of_ne hrest fun i hi hsame => ?_, List.getElem?_set_self hrange,
        List.getElem?_cons_zero]
      refine hdistinct 0 (i + 1) (Nat.succ_pos i) (Nat.succ_lt_succ hi) ?_
      rw [hshift, hsame]
      exact hs
    | succ j =>
      rw [hshift] at hs
      rw [List.getElem?_cons_succ]
      refine ih hrest (fun i k hik hk => ?_) (Nat.lt_of_succ_lt_succ hj) hs
      have hpair := hdistinct (i + 1) (k + 1) (Nat.succ_lt_succ hik) (Nat.succ_lt_succ hk)
      rwa [hshift i, hshift k] at hpair

/-! ### Overflow -/

/-- A row that fits sixteen bits is dealt as it is made. -/
theorem dealRow?_spec {code : UInt16} (h : code.toNat + n < 2 ^ 16) (symbols : List Nat)
    (width place : Nat) (started : List Codeword) :
    (∃ cause, dealRow? symbols width n place code started = .error cause ∧
      ∀ rest, deal symbols place (row code width n ++ rest) started = .error cause) ∨
    ∃ dealt, dealRow? symbols width n place code started =
        .ok (place + n, code + UInt16.ofNat n, dealt) ∧
      ∀ rest, deal symbols place (row code width n ++ rest) started =
        deal symbols (place + n) rest dealt := by
  induction n generalizing place code started with
  | zero => exact .inr ⟨started, by simp [dealRow?], fun rest => rfl⟩
  | succ n ih =>
    have hnext : (code + 1).toNat = code.toNat + 1 := toNat_add_ofNat (n := 1) (by omega)
    rw [dealRow?, row]
    simp only [List.cons_append, deal]
    cases hsymbol : symbols[place]? with
    | none => exact .inl ⟨_, rfl, fun rest => rfl⟩
    | some symbol =>
      by_cases hrange : symbol < started.length
      · simp only [if_pos hrange, if_pos (show code.toNat + 1 < 2 ^ 16 by omega)]
        have hsum : code + UInt16.ofNat (n + 1) = code + 1 + UInt16.ofNat n := by
          rw [UInt16.ofNat_add, UInt16.add_assoc, UInt16.add_comm (UInt16.ofNat n)]
          rfl
        rw [hsum, Nat.add_left_comm, Nat.add_comm n]
        exact ih (by omega) ..
      · simp only [if_neg hrange]
        exact .inl ⟨_, rfl, fun rest => rfl⟩

theorem shiftLeft_one (code : UInt16) : code <<< 1 = code * 2 := by
  rw [← UInt16.toNat_inj, UInt16.toNat_shiftLeft, UInt16.toNat_mul, Nat.shiftLeft_eq]
  rfl

/-- Words that have room are dealt as they are made, and no number overflows. -/
theorem dealRows?_eq {code : UInt16} (hroom : HasRoom code.toNat width counts)
    (hwidths : width + counts.length ≤ 16) :
    dealRows? symbols counts width place code started =
      deal symbols place (canonicalFrom code width counts) started := by
  induction counts generalizing width place code started with
  | nil => rfl
  | cons n counts ih =>
    rw [List.length_cons] at hwidths
    have hfits := hroom.add_lt (by omega)
    rw [dealRows?, canonicalFrom]
    obtain ⟨cause, hrow, hdeal⟩ | ⟨dealt, hrow, hdeal⟩ :=
      dealRow?_spec hfits symbols (width % 256) place started
    · rw [hrow, hdeal]
    · rw [hrow, hdeal]
      cases counts with
      | nil => exact if_pos (.inl rfl)
      | cons m counts =>
        obtain ⟨hless, -, hrest⟩ := hroom.next (by rw [List.length_cons] at hwidths; omega)
        dsimp only
        rw [if_pos (.inr hless), shiftLeft_one]
        exact ih hrest (by omega)

theorem book?_eq (hwidths : counts.length ≤ 15) (hkraft : kraftSum counts ≤ 1)
    (symbols : List Nat) (size : Nat) : book? counts symbols size = book counts symbols size :=
  dealRows?_eq (hasRoom_zero hkraft) (by omega)

/-! ### Books -/

@[simp] theorem length_canonical (counts : List Nat) : (canonical counts).length = counts.sum :=
  length_canonicalFrom ..

theorem canonical_eq (hwidths : counts.length ≤ 15) (hkraft : kraftSum counts ≤ 1) :
    canonical counts = exactFrom 0 1 counts :=
  canonicalFrom_eq (hasRoom_zero hkraft) (by omega)

theorem exists_book_eq_error_iff :
    (∃ cause, book counts symbols size = .error cause) ↔
      ∃ i < counts.sum, ¬Names symbols size i := by
  simp only [book, exists_deal_eq_error_iff, length_canonical, List.length_replicate, Nat.zero_add]

/-- The word of a place is found at the symbol of the place, if no symbol is named twice. -/
theorem exists_getElem?_book (h : book counts symbols size = .ok table)
    (hnodup : (symbols.take counts.sum).Nodup) {i s : Nat} (hi : i < counts.sum)
    (hs : symbols[i]? = some s) : ∃ w, (canonical counts)[i]? = some w ∧ table[s]? = some w := by
  have hplace : i < (canonical counts).length := by rwa [length_canonical]
  refine ⟨(canonical counts)[i], List.getElem?_eq_getElem hplace, ?_⟩
  rw [getElem?_deal h (fun j k hjk hk => ?_) hplace (by rwa [Nat.zero_add]),
    List.getElem?_eq_getElem hplace]
  obtain ⟨t, ht, -⟩ := (of_deal_eq_ok h).2 k hk
  rw [length_canonical] at hk
  rw [Nat.zero_add] at ht ⊢
  rw [Nat.zero_add, ← List.getElem?_take_of_lt hk, ← List.getElem?_take_of_lt (hjk.trans hk)]
  refine List.nodup_iff_getElem?_ne_getElem?.1 hnodup j k hjk ?_
  rw [List.length_take]
  exact Nat.lt_min.2 ⟨hk, (List.getElem?_eq_some_iff.1 ht).1⟩

/-- A symbol that is not named has the word of no symbol. -/
theorem getElem?_book_of_ne (h : book counts symbols size = .ok table) {s : Nat} (hsize : s < size)
    (hs : ∀ i < counts.sum, symbols[i]? ≠ some s) : table[s]? = some none := by
  rw [getElem?_deal_of_ne h fun j hj => ?_, List.getElem?_replicate, if_pos hsize]
  rw [length_canonical] at hj
  rw [Nat.zero_add]
  exact hs j hj

/-- **Canonical words that have room are dealt out without overflow.** Dealing fails, as an internal
error, if and only if a place among the first is without a symbol of the book. Else, if no symbol is
named twice, each has a word that fits its width, which is that of its place; other symbols have the
word of no symbol; and no word begins another. -/
theorem book_prefix_free (hwidths : counts.length ≤ 15) (hkraft : kraftSum counts ≤ 1)
    (symbols : List Nat) (size : Nat) :
    let named := symbols.take counts.sum
    book? counts symbols size = book counts symbols size ∧
    (∀ cause, book counts symbols size = .error cause → cause.kind = .internal) ∧
    ((∃ cause, book counts symbols size = .error cause) ↔
      ∃ i < counts.sum, symbols[i]? = .none ∨ ∃ s, symbols[i]? = some s ∧ size ≤ s) ∧
    ((∀ i < counts.sum, ∃ s, symbols[i]? = some s ∧ s < size) → named.Nodup →
      ∃ table, book counts symbols size = .ok table ∧ table.length = size ∧
        (∀ i < counts.sum, ∀ s, symbols[i]? = some s →
          ∃ w, table[s]? = some w ∧ w.code < 2 ^ w.width ∧ IsWidthAt counts i w.width) ∧
        (∀ s < size, s ∉ named → table[s]? = some none) ∧
        ∀ s ∈ named, ∀ t ∈ named, s ≠ t → ∀ v w, table[s]? = some v → table[t]? = some w →
          ¬v.bits <+: w.bits) := by
  intro named
  have hroom := hasRoom_zero hkraft
  have hwords := canonical_eq hwidths hkraft
  have hmem : ∀ {s}, s ∈ named ↔ ∃ i < counts.sum, symbols[i]? = some s := by
    intro s
    rw [List.mem_take_iff_getElem]
    constructor
    · rintro ⟨i, hi, rfl⟩
      exact ⟨i, (Nat.lt_min.1 hi).1, List.getElem?_eq_getElem _⟩
    · rintro ⟨i, hi, hs⟩
      obtain ⟨hlt, rfl⟩ := List.getElem?_eq_some_iff.1 hs
      exact ⟨i, Nat.lt_min.2 ⟨hi, hlt⟩, rfl⟩
  refine ⟨book?_eq hwidths hkraft symbols size, fun cause h => (of_deal_eq_error h).1, ?_,
    fun hnames hnodup => ?_⟩
  · simp only [exists_book_eq_error_iff, not_names_iff]
  · cases hbook : book counts symbols size with
    | error cause =>
      obtain ⟨i, hi, hnone⟩ := exists_book_eq_error_iff.1 ⟨cause, hbook⟩
      exact (hnone (hnames i hi)).elim
    | ok table =>
      refine ⟨table, rfl, ?_, fun i hi s hs => ?_, fun s hs hother => ?_, ?_⟩
      · rw [(of_deal_eq_ok hbook).1, List.length_replicate]
      · obtain ⟨w, hw, htable⟩ := exists_getElem?_book hbook hnodup hi hs
        rw [hwords] at hw
        have hfits := lt_of_mem_exactFrom hroom (List.mem_of_getElem? hw)
        exact ⟨w, htable, hfits, isWidthAt_exactFrom hw⟩
      · exact getElem?_book_of_ne hbook hs fun i hi hsame => hother (hmem.2 ⟨i, hi, hsame⟩)
      · intro s hs t ht hne v w hv hw
        obtain ⟨i, hi, hsi⟩ := hmem.1 hs
        obtain ⟨j, hj, htj⟩ := hmem.1 ht
        obtain ⟨v', hvword, hv'⟩ := exists_getElem?_book hbook hnodup hi hsi
        obtain ⟨w', hwword, hw'⟩ := exists_getElem?_book hbook hnodup hj htj
        obtain rfl := Option.some.inj (hv.symm.trans hv')
        obtain rfl := Option.some.inj (hw.symm.trans hw')
        rw [hwords] at hvword hwword
        refine not_prefix_of_ne hroom (fun hsame => hne ?_) hvword hwword
        subst hsame
        exact Option.some.inj (hsi.symm.trans htj)

/-- Words of all widths up to fifteen, two of the last, take up all there is: the number behind the
last one has sixteen bits. -/
theorem book_prefix_free_all_widths :
    let counts := List.replicate 14 1 ++ [2]
    let symbols := (List.range 16).reverse
    counts.length ≤ 15 ∧ kraftSum counts ≤ 1 ∧
      (∀ i < counts.sum, ∃ s, symbols[i]? = some s ∧ s < 17) ∧ (symbols.take counts.sum).Nodup ∧
      book? counts symbols 17 = book counts symbols 17 ∧
      ∃ table, book counts symbols 17 = .ok table ∧ table[0]? = some ⟨2 ^ 15 - 1, 15⟩ ∧
        table[16]? = some none ∧
        ∀ s ∈ symbols, ∀ t ∈ symbols, s ≠ t → ∀ v w, table[s]? = some v → table[t]? = some w →
          ¬v.bits <+: w.bits := by
  intro counts symbols
  have hwidths : counts.length ≤ 15 := by decide
  have hkraft : kraftSum counts ≤ 1 := (kraftSum_replicate_one 14).le
  have hplaces : ∀ i < counts.sum, symbols[i]? = some (15 - i) := by decide
  have hnames : ∀ i < counts.sum, ∃ s, symbols[i]? = some s ∧ s < 17 := fun i hi =>
    ⟨15 - i, hplaces i hi, by omega⟩
  have hnodup : (symbols.take counts.sum).Nodup := by decide
  obtain ⟨hchecked, -, -, hbook⟩ := book_prefix_free hwidths hkraft symbols 17
  obtain ⟨table, htable, -, -, hothers, hfree⟩ := hbook hnames hnodup
  refine ⟨hwidths, hkraft, hnames, hnodup, hchecked, table, htable, ?_, ?_, hfree⟩
  · have hdealt : (book counts symbols 17).map (·[0]?) = .ok (some ⟨2 ^ 15 - 1, 15⟩) := by decide
    rw [htable] at hdealt
    exact Except.ok.inj hdealt
  · exact hothers 16 (by decide) (by decide)

end Codeword

end SpectralCoding
