import Mathlib.Data.List.Forall2
import Mathlib.Order.Bounds.Basic
import SpectralCoding.Atrac3Plus.WordLengthFields
import SpectralCoding.Proofs.Atrac3Plus.FieldDecoder

/-!
# Reading word lengths back

The mode of a channel says whether its word lengths stand there plainly or as differences modulo
eight. Some books lack words for some differences, but the book that is named has all that are
needed, so that no difference is dropped.

* `Atrac3Plus.readLengths` : the decoder.
* `Atrac3Plus.IsWrittenIn`, `Atrac3Plus.bookTotals` : the words of a book for differences, and what
  they come to in the books that have all of them.
* `Atrac3Plus.exists_bestBook` : there is always a book, and none comes to less.
* `Atrac3Plus.exists_shorterFields` : the book is taken only if that saves bits.
* `Atrac3Plus.scanl_differencesAlong`, `Atrac3Plus.zipWith_difference` : differences are undone.
* `Atrac3Plus.readLengths_lengthFields` : **word lengths are written without loss, and in the
  shorter of the two ways.**
-/

namespace SpectralCoding

namespace Atrac3Plus

/-! ### The decoder -/

/-- The words of a book, with the word of no symbol for those it lacks. -/
def bookWords (book : List (Option Codeword)) : List Codeword := book.map (·.getD .none)

/-- Read differences in the book of number `place`. -/
def readDifferences (place count : Nat) : Decoder (List Nat) :=
  .times count (.word (bookWords (differenceBooks.getD place [])))

/-- Read the word lengths of the first channel. -/
def readFirst (units : Nat) : Decoder (List Nat) := do
  let mode ← .field 2
  if mode = 0 then .times units (.field 3)
  else if mode = 3 then do
    .expect 2 0
    .expect 2 0
    let place ← .field 2
    let first ← .field 3
    let differences ← readDifferences place (units - 1)
    return differences.scanl (fun l d => (l + d) % 8) first
  else failure

/-- Read the word lengths of a channel behind those of the first one. -/
def readSecond (first : List Nat) : Decoder (List Nat) := do
  let mode ← .field 2
  if mode = 0 then .times first.length (.field 3)
  else if mode = 1 then do
    .expect 2 0
    let place ← .field 2
    let differences ← readDifferences place first.length
    return List.zipWith (fun l d => (l + d) % 8) first differences
  else failure

/-- Read the word lengths of one channel and of so many `others`. -/
def readLengths (units others : Nat) : Decoder (List (List Nat)) := do
  let first ← readFirst units
  let rows ← .times others (readSecond first)
  return first :: rows

/-! ### Books -/

/-- The words of differences in a book that has all of them. -/
def IsWrittenIn (book : List (Option Codeword)) (differences : List Nat) (words : List Codeword) :
    Prop :=
  List.Forall₂ (fun d w => book.getD d none = some w) differences words

/-- What differences come to in the books that have words for all of them. -/
def bookTotals (differences : List Nat) : Set Nat :=
  {total | ∃ book ∈ differenceBooks, ∃ words, IsWrittenIn book differences words ∧
    total = (words.map (·.width)).sum}

section Books

variable {ds : List Nat} {words : List Codeword} {book : List (Option Codeword)}

theorem isWrittenIn_iff : IsWrittenIn book ds words ↔ differenceWords book ds = words.map some := by
  rw [differenceWords, ← List.forall₂_eq_eq_eq, List.forall₂_map_left_iff,
    List.forall₂_map_right_iff, IsWrittenIn]

theorem exists_cheapest {cs : List (Nat × Nat)} (h : cs ≠ []) :
    ∃ c ∈ cs, cheapest cs = some c ∧ ∀ d ∈ cs, c.2 ≤ d.2 := by
  induction cs with
  | nil => exact absurd rfl h
  | cons c cs ih =>
    by_cases hnil : cs = []
    · subst hnil
      exact ⟨c, List.mem_cons_self, rfl, List.forall_mem_singleton.2 (Nat.le_refl _)⟩
    · obtain ⟨d, hd, hcheapest, hleast⟩ := ih hnil
      by_cases hlt : d.2 < c.2
      · refine ⟨d, List.mem_cons_of_mem c hd, ?_, List.forall_mem_cons.2 ⟨Nat.le_of_lt hlt, hleast⟩⟩
        rw [cheapest, hcheapest]
        exact congrArg some (if_pos hlt)
      · refine ⟨c, List.mem_cons_self, ?_, List.forall_mem_cons.2 ⟨Nat.le_refl _, ?_⟩⟩
        · rw [cheapest, hcheapest]
          exact congrArg some (if_neg hlt)
        · exact fun e he => Nat.le_trans (Nat.not_lt.1 hlt) (hleast e he)

/-- The third book has a word for every difference. -/
theorem exists_isWrittenIn (h : ∀ d ∈ ds, d < 8) :
    ∃ words, IsWrittenIn (differenceBooks.getD 2 []) ds words := by
  have htotal : ∀ d < 8, ((differenceBooks.getD 2 []).getD d none).isSome = true := by decide
  induction ds with
  | nil => exact ⟨[], .nil⟩
  | cons d ds ih =>
    obtain ⟨hd, hds⟩ := List.forall_mem_cons.1 h
    obtain ⟨w, hw⟩ := Option.isSome_iff_exists.1 (htotal d hd)
    obtain ⟨words, hwords⟩ := ih hds
    exact ⟨w :: words, .cons hw hwords⟩

/-- There is always a book that has words for all differences, and what they come to in the one that
is taken is the least. -/
theorem exists_bestBook (h : ∀ d ∈ ds, d < 8) :
    ∃ place words book, bestBook ds = some (place, (words.map (·.width)).sum) ∧
      differenceBooks[place]? = some book ∧ IsWrittenIn book ds words ∧
      IsLeast (bookTotals ds) (words.map (·.width)).sum := by
  obtain ⟨third, hthird⟩ := exists_isWrittenIn h
  have hcandidate : (2, (third.map (·.width)).sum) ∈ candidates ds :=
    mem_candidates.2 ⟨_, third, rfl, isWrittenIn_iff.1 hthird, rfl⟩
  obtain ⟨⟨place, bits⟩, hmem, hbest, hleast⟩ := exists_cheapest (List.ne_nil_of_mem hcandidate)
  obtain ⟨book, words, hbook, hwords, rfl⟩ := mem_candidates.1 hmem
  have hwritten := isWrittenIn_iff.2 hwords
  refine ⟨place, words, book, hbest, hbook, hwritten, ?_, ?_⟩
  · exact ⟨book, List.mem_of_getElem? hbook, words, hwritten, rfl⟩
  · rintro total ⟨other, hother, words', hwords', rfl⟩
    obtain ⟨i, hi⟩ := List.mem_iff_getElem?.1 hother
    exact hleast (i, _) (mem_candidates.2 ⟨other, words', hi, isWrittenIn_iff.1 hwords', rfl⟩)

/-- A word is read as its difference. -/
theorem readsBack_difference {d : Nat} {w : Codeword} (hbook : book ∈ differenceBooks)
    (hw : book.getD d none = some w) : ReadsBack (.word (bookWords book)) [.ofWord w] d := by
  have hsound : ∀ book ∈ differenceBooks, Codeword.IsPrefixFree (bookWords book) ∧
      ∀ entry ∈ book, entry.all (fun w => w.width ≠ 0 ∧ w.code < 2 ^ w.width) = true := by decide
  obtain ⟨hfree, hwords⟩ := hsound book hbook
  have hentry : book[d]? = some (some w) := by
    rw [List.getD_eq_getElem?_getD] at hw
    cases hget : book[d]? with
    | none =>
      rw [hget] at hw
      cases hw
    | some entry =>
      rw [hget] at hw
      exact congrArg some hw
  obtain ⟨hwidth, hfits⟩ := of_decide_eq_true (hwords (some w) (List.mem_of_getElem? hentry))
  have hplace : (bookWords book)[d]? = some w := by
    rw [bookWords, List.getElem?_map, hentry]
    rfl
  exact readsBack_word hfree hplace hwidth hfits

theorem readsBack_differences {place : Nat} (hbook : differenceBooks[place]? = some book)
    (h : IsWrittenIn book ds words) :
    ReadsBack (readDifferences place ds.length) (differenceFields place ds) ds := by
  have hlength : ds.length = words.length := h.length_eq
  have hnamed : differenceBooks.getD place [] = book := by
    rw [List.getD_eq_getElem?_getD, hbook]
    rfl
  have hrow : ReadsBack (.times (ds.zip words).length (.word (bookWords book)))
      ((ds.zip words).flatMap fun row => [.ofWord row.2]) ((ds.zip words).map Prod.fst) := by
    refine .times ?_
    rintro ⟨d, w⟩ hrow
    exact readsBack_difference (List.mem_of_getElem? hbook) (List.forall₂_zip h hrow)
  have hfields : ((ds.zip words).flatMap fun row => [Field.ofWord row.2]) =
      words.map .ofWord := by
    have hsecond := congrArg (List.map Field.ofWord) (List.map_snd_zip (Nat.le_of_eq hlength.symm))
    rw [List.map_map, List.map_eq_flatMap] at hsecond
    exact hsecond
  rw [List.length_zip, ← hlength, Nat.min_self, hfields,
    List.map_fst_zip (Nat.le_of_eq hlength)] at hrow
  rw [readDifferences, hnamed, differenceFields_eq hbook (isWrittenIn_iff.1 h)]
  exact hrow

end Books

/-! ### Differences -/

theorem difference_lt (a b : Nat) : difference a b < 8 := Nat.mod_lt _ (by decide)

theorem add_difference {a b : Nat} (h : a < 8) : (b + difference a b) % 8 = a := by
  unfold difference
  omega

section Differences

variable {lengths : List Nat}

theorem differencesAlong_lt (lengths : List Nat) : ∀ d ∈ differencesAlong lengths, d < 8 := by
  induction lengths using differencesAlong.induct with
  | case1 a b rest ih => exact List.forall_mem_cons.2 ⟨difference_lt b a, ih⟩
  | case2 lengths hshort =>
    have hnone : differencesAlong lengths = [] := by
      rw [differencesAlong]
      exact hshort
    rw [hnone]
    exact fun _ hd => absurd hd List.not_mem_nil

theorem zipWith_difference_lt (lengths first : List Nat) :
    ∀ d ∈ List.zipWith difference lengths first, d < 8 := by
  intro d hd
  rw [← List.map_uncurry_zip_eq_zipWith] at hd
  obtain ⟨row, -, rfl⟩ := List.mem_map.1 hd
  exact difference_lt row.1 row.2

/-- Differences to the entry before, added up from the first entry on. -/
theorem scanl_differencesAlong {l : Nat} (h : ∀ x ∈ l :: lengths, x < 8) :
    (differencesAlong (l :: lengths)).length = lengths.length ∧
      (differencesAlong (l :: lengths)).scanl (fun l d => (l + d) % 8) l = l :: lengths := by
  induction lengths generalizing l with
  | nil => exact ⟨rfl, rfl⟩
  | cons next lengths ih =>
    obtain ⟨hlength, hscan⟩ := ih (List.forall_mem_cons.1 h).2
    have hnext : next < 8 := h next (List.mem_cons_of_mem l List.mem_cons_self)
    refine ⟨congrArg (· + 1) hlength, ?_⟩
    rw [differencesAlong, List.scanl_cons, add_difference hnext, hscan]

theorem zipWith_difference {first : List Nat} (hlength : lengths.length ≤ first.length)
    (h : ∀ l ∈ lengths, l < 8) :
    (List.zipWith difference lengths first).length = lengths.length ∧
      List.zipWith (fun l d => (l + d) % 8) (first.take lengths.length)
        (List.zipWith difference lengths first) = lengths := by
  refine ⟨by rw [List.length_zipWith, Nat.min_eq_left hlength], ?_⟩
  induction lengths generalizing first with
  | nil => rw [List.zipWith_nil_left, List.zipWith_nil_right]
  | cons l lengths ih =>
    cases first with
    | nil => exact absurd hlength (Nat.not_succ_le_zero _)
    | cons f first =>
      obtain ⟨hl, hlengths⟩ := List.forall_mem_cons.1 h
      rw [List.length_cons, List.take_succ_cons, List.zipWith_cons_cons, List.zipWith_cons_cons,
        add_difference hl, ih (Nat.le_of_succ_le_succ hlength) hlengths]

end Differences

/-! ### Channels -/

section Channels

variable {lengths differences : List Nat} {overhead : Nat} {heading : Nat → Fields}

/-- One book is considered, and the plain way is left for it only if that saves bits. -/
theorem exists_shorterFields (lengths : List Nat) (overhead : Nat) (heading : Nat → Fields)
    (h : ∀ d ∈ differences, d < 8) :
    ∃ place words book, differenceBooks[place]? = some book ∧
      IsWrittenIn book differences words ∧
      IsLeast (bookTotals differences) (words.map (·.width)).sum ∧
      shorterFields lengths differences overhead heading =
        if overhead + (words.map (·.width)).sum < 2 + 3 * lengths.length then
          heading place ++ differenceFields place differences
        else plainFields lengths := by
  obtain ⟨place, words, book, hbest, hbook, hwords, hleast⟩ := exists_bestBook h
  refine ⟨place, words, book, hbook, hwords, hleast, ?_⟩
  rw [shorterFields, hbest]

theorem cost_shorterFields (lengths : List Nat) (h : ∀ d ∈ differences, d < 8)
    (hheading : ∀ place, Fields.cost (heading place) = overhead) :
    ∃ best, IsLeast (bookTotals differences) best ∧
      Fields.cost (shorterFields lengths differences overhead heading) =
        min (2 + 3 * lengths.length) (overhead + best) := by
  obtain ⟨place, words, book, hbook, hwords, hleast, hfields⟩ :=
    exists_shorterFields lengths overhead heading h
  refine ⟨_, hleast, ?_⟩
  rw [hfields]
  split
  · rename_i hlt
    rw [Fields.cost_append, hheading, differenceFields_eq hbook (isWrittenIn_iff.1 hwords),
      cost_ofWord, Nat.min_eq_right (Nat.le_of_lt hlt)]
  · rename_i hle
    rw [cost_plainFields, Nat.min_eq_left (Nat.not_lt.1 hle)]

theorem cost_firstFields (lengths : List Nat) :
    ∃ best, IsLeast (bookTotals (differencesAlong lengths)) best ∧
      Fields.cost (firstFields lengths) = min (2 + 3 * lengths.length) (11 + best) :=
  cost_shorterFields lengths (differencesAlong_lt lengths) fun _ => rfl

theorem cost_secondFields (first lengths : List Nat) :
    ∃ best, IsLeast (bookTotals (List.zipWith difference lengths first)) best ∧
      Fields.cost (secondFields first lengths) = min (2 + 3 * lengths.length) (6 + best) :=
  cost_shorterFields lengths (zipWith_difference_lt lengths first) fun _ => rfl

theorem readsBack_shorterFields {d : Decoder (List Nat)} (h : ∀ d ∈ differences, d < 8)
    (hplain : ReadsBack d (plainFields lengths) lengths)
    (hcoded : ∀ place < differenceBooks.length,
      ReadsBack (readDifferences place differences.length) (differenceFields place differences)
        differences →
      ReadsBack d (heading place ++ differenceFields place differences) lengths) :
    ReadsBack d (shorterFields lengths differences overhead heading) lengths := by
  obtain ⟨place, words, book, hbook, hwords, -, hfields⟩ :=
    exists_shorterFields lengths overhead heading h
  rw [hfields]
  split
  · exact hcoded place (List.getElem?_eq_some_iff.1 hbook).1 (readsBack_differences hbook hwords)
  · exact hplain

theorem readsBack_plain (h : ∀ l ∈ lengths, l < 8) :
    ReadsBack (.times lengths.length (.field 3)) (lengths.map fun l => ⟨l, 3⟩) lengths := by
  have hrow : ReadsBack (.times lengths.length (.field 3)) (lengths.map fun l => ⟨id l, 3⟩)
      (lengths.map id) := readsBack_row (by decide) h
  rwa [List.map_id] at hrow

theorem readsBack_two {v : Nat} (hv : v < 4) : ReadsBack (.field 2) [⟨v, 2⟩] v :=
  readsBack_field (by decide) hv

theorem readsBack_fill : ReadsBack (.expect 2 0) [⟨0, 2⟩] () :=
  readsBack_expect (by decide) (by decide)

theorem readsBack_firstFields (hpos : 0 < lengths.length) (h : ∀ l ∈ lengths, l < 8) :
    ReadsBack (readFirst lengths.length) (firstFields lengths) lengths := by
  refine readsBack_shorterFields (differencesAlong_lt lengths)
    ((readsBack_two (by decide)).cons (readsBack_plain h)) fun place hlt hdifferences => ?_
  have hplace := readsBack_two hlt
  cases lengths with
  | nil => exact absurd hpos (Nat.lt_irrefl 0)
  | cons l lengths =>
    obtain ⟨hcount, hscan⟩ := scanl_differencesAlong h
    have hfirst : ReadsBack (.field 3) [⟨l, 3⟩] l :=
      readsBack_field (by decide) (h l List.mem_cons_self)
    have hrest := hdifferences.bind_pure
      (List.scanl (fun l d => (l + d) % 8) l)
    rw [hscan, hcount] at hrest
    exact (readsBack_two (by decide)).cons (readsBack_fill.cons (readsBack_fill.cons
      (hplace.cons (hfirst.cons hrest))))

theorem readsBack_secondFields {first : List Nat} (hlength : lengths.length ≤ first.length)
    (h : ∀ l ∈ lengths, l < 8) :
    ReadsBack (readSecond (first.take lengths.length)) (secondFields first lengths) lengths := by
  have hfirst : (first.take lengths.length).length = lengths.length :=
    List.length_take_of_le hlength
  refine readsBack_shorterFields (zipWith_difference_lt lengths first)
    ((readsBack_two (by decide)).cons ?_) fun place hlt hdifferences => ?_
  · show ReadsBack (.times (first.take lengths.length).length (.field 3)) _ lengths
    rw [hfirst]
    exact readsBack_plain h
  · have hplace := readsBack_two hlt
    obtain ⟨hcount, hzip⟩ := zipWith_difference hlength h
    rw [hcount, ← hfirst] at hdifferences
    have hrest := hdifferences.bind_pure
      (List.zipWith (fun l d => (l + d) % 8) (first.take lengths.length))
    rw [hzip] at hrest
    exact (readsBack_two (by decide)).cons (readsBack_fill.cons (hplace.cons hrest))

/-- **Word lengths are written without loss.** A decoder takes exactly the bits of the fields for
the word lengths, and every channel takes the shorter of the two ways, with the cheapest of the
books that have words for all its differences. -/
theorem readLengths_lengthFields {units : Nat} {first : List Nat} {others : List (List Nat)}
    (hunits : 0 < units)
    (hrows : ∀ row ∈ first :: others, units ≤ row.length ∧ ∀ l ∈ row, l ≤ 7) :
    Decodes (readLengths units others.length) (lengthFields units (first :: others)).emit
        (first.take units :: others.map (·.take units)) ∧
      lengthFields units (first :: others) = firstFields (first.take units) ++
        others.flatMap (fun row => secondFields first (row.take units)) ∧
      (∃ best, IsLeast (bookTotals (differencesAlong (first.take units))) best ∧
        Fields.cost (firstFields (first.take units)) = min (2 + 3 * units) (11 + best)) ∧
      ∀ row ∈ others, ∃ best,
        IsLeast (bookTotals (List.zipWith difference (row.take units) first)) best ∧
          Fields.cost (secondFields first (row.take units)) = min (2 + 3 * units) (6 + best) := by
  have htake (row : List Nat) (hrow : row ∈ first :: others) :
      (row.take units).length = units ∧ ∀ l ∈ row.take units, l < 8 := by
    obtain ⟨hlength, hle⟩ := hrows row hrow
    exact ⟨List.length_take_of_le hlength,
      fun l hl => Nat.lt_succ_of_le (hle l (List.mem_of_mem_take hl))⟩
  obtain ⟨hlength, hfirst⟩ := htake first List.mem_cons_self
  refine ⟨?_, rfl, ?_, fun row hrow => ?_⟩
  · have hread := readsBack_firstFields (by omega) hfirst
    rw [hlength] at hread
    have hothers : ReadsBack (.times others.length (readSecond (first.take units)))
        (others.flatMap fun row => secondFields first (row.take units))
        (others.map (·.take units)) := by
      refine .times fun row hrow => ?_
      obtain ⟨hlength', hrow'⟩ := htake row (List.mem_cons_of_mem first hrow)
      have hroom : (row.take units).length ≤ first.length := by
        rw [hlength']
        exact (hrows first List.mem_cons_self).1
      have hread := readsBack_secondFields hroom hrow'
      rwa [hlength'] at hread
    exact (hread.append (hothers.bind_pure (first.take units :: ·))).decodes
  · have hcost := cost_firstFields (first.take units)
    rwa [hlength] at hcost
  · have hcost := cost_secondFields first (row.take units)
    rwa [(htake row (List.mem_cons_of_mem first hrow)).1] at hcost

end Channels

/-- Word lengths that are nearly all alike take fewer bits than three each. -/
theorem readLengths_lengthFields_alike :
    Fields.cost (lengthFields 8 [[7, 7, 7, 7, 7, 7, 7, 0], [7, 7, 7, 7, 7, 7, 6, 0]]) = 34 ∧
      Decodes (readLengths 8 1)
        (lengthFields 8 [[7, 7, 7, 7, 7, 7, 7, 0], [7, 7, 7, 7, 7, 7, 6, 0]]).emit
        [[7, 7, 7, 7, 7, 7, 7, 0], [7, 7, 7, 7, 7, 7, 6, 0]] := by
  have hrows : ∀ row ∈ [[7, 7, 7, 7, 7, 7, 7, 0], [7, 7, 7, 7, 7, 7, 6, 0]],
      8 ≤ row.length ∧ ∀ l ∈ row, l ≤ 7 := by decide
  exact ⟨by decide, (readLengths_lengthFields (by decide) hrows).1⟩

end Atrac3Plus

end SpectralCoding
