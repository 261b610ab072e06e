import Mathlib.Data.List.TakeWhile
import SpectralCoding.Proofs.Log.Calendar

/-!
# Dates as texts

A date of the years 0 to 9999 is a text of ten bytes, from which it can be read back. This is all
that a log relies on, and the Gregorian calendar is one of which it is true.

* `IsNumeral` : digits, so many of them, that stand for a number.
* `Calendar.WritesDigits` : dates are written in four, two and two digits, and are read back.
* `Calendar.WritesDigits.bytes_text` : the text has ten bytes.
* `isNumeral_padded` : a number is written as digits of the width that was asked for.
* `Day.writesDigits_calendar` : **the dates of the Gregorian calendar are written so.**
-/

namespace SpectralCoding

open Date (isDigit value padded readNumber readPart readYear)

/-! ### Digits -/

theorem isDigit_iff {c : Char} : isDigit c = true ↔ 48 ≤ c.toNat ∧ c.toNat ≤ 57 := by
  simp only [isDigit, Bool.and_eq_true, decide_eq_true_eq]
  exact Iff.rfl

theorem isBlank_of_isDigit {c : Char} (h : isDigit c = true) : Text.isBlank c = false := by
  obtain ⟨hleast, hmost⟩ := isDigit_iff.1 h
  simp only [Text.isBlank, Text.blankRanges, List.any_cons, List.any_nil, Bool.or_false,
    Bool.or_eq_false_iff, Bool.and_eq_false_imp, decide_eq_true_eq, decide_eq_false_iff_not]
  omega

theorem ne_of_isDigit {c d : Char} (h : isDigit c = true) (hd : isDigit d = false) : c ≠ d := by
  rintro rfl
  rw [h] at hd
  cases hd

theorem utf8Size_of_isDigit {c : Char} (h : isDigit c = true) : c.utf8Size = 1 := by
  obtain ⟨-, hmost⟩ := isDigit_iff.1 h
  refine Char.utf8Size_eq_one_iff.2 ?_
  show c.toNat ≤ 127
  omega

theorem utf8ByteSize_ofList {ds : List Char} (h : ∀ c ∈ ds, isDigit c = true) :
    (String.ofList ds).utf8ByteSize = ds.length := by
  induction ds with
  | nil => rfl
  | cons c ds ih =>
    obtain ⟨hc, hds⟩ := List.forall_mem_cons.1 h
    rw [String.ofList_cons, String.utf8ByteSize_append, String.utf8ByteSize_singleton,
      utf8Size_of_isDigit hc, ih hds, List.length_cons, Nat.add_comm]

/-- Digits, `width` of them, that stand for a number. -/
structure IsNumeral (ds : List Char) (width n : Nat) : Prop where
  digits : ∀ c ∈ ds, isDigit c = true
  length : ds.length = width
  value : Date.value ds = n

theorem IsNumeral.bytes {s : String} {width n : Nat} (h : IsNumeral s.toList width n) :
    s.utf8ByteSize = width := by
  rw [← String.ofList_toList (s := s), utf8ByteSize_ofList h.digits, h.length]

/-- The dates of the years 0 to 9999 are written in four, two and two digits, and are read back. -/
structure Calendar.WritesDigits {δ : Type} (C : Calendar δ) : Prop where
  text : ∀ d, 0 ≤ C.year d → C.year d ≤ 9999 → ∃ year month day : String,
    C.text d = year ++ "-" ++ month ++ "-" ++ day ∧ IsNumeral year.toList 4 (C.year d).toNat ∧
    IsNumeral month.toList 2 (C.month d) ∧ IsNumeral day.toList 2 (C.day d)
  parse? : ∀ d, 0 ≤ C.year d → C.year d ≤ 9999 → C.parse? (C.text d) = some d

theorem Calendar.WritesDigits.bytes_text {δ : Type} {C : Calendar δ} (h : C.WritesDigits) {d : δ}
    (hleast : 0 ≤ C.year d) (hmost : C.year d ≤ 9999) : (C.text d).utf8ByteSize = 10 := by
  obtain ⟨year, month, day, htext, hyear, hmonth, hday⟩ := h.text d hleast hmost
  simp only [htext, String.utf8ByteSize_append, hyear.bytes, hmonth.bytes, hday.bytes]
  rfl

theorem value_eq (ds : List Char) : value ds = Nat.ofDigitChars 10 ds 0 := rfl

theorem isNumeral_padded {width n : Nat} (hwidth : 0 < width) (h : n < 10 ^ width) :
    IsNumeral (padded width n).toList width n := by
  have hdigits : (toString n).toList = Nat.toDigits 10 n := by
    rw [Nat.toString_eq_ofList_toDigits, String.toList_ofList]
  have hlength : (Nat.toDigits 10 n).length ≤ width :=
    (Nat.length_toDigits_le_iff (by decide) hwidth).2 h
  have hlist : (padded width n).toList =
      List.replicate (width - (Nat.toDigits 10 n).length) '0' ++ Nat.toDigits 10 n := by
    rw [padded, String.toList_append, String.toList_ofList, ← String.length_toList, hdigits]
  rw [hlist]
  refine ⟨fun c hc => ?_, ?_, ?_⟩
  · obtain hzero | hdigit := List.mem_append.1 hc
    · obtain rfl := List.eq_of_mem_replicate hzero
      rfl
    · exact Nat.isDigit_of_mem_toDigits (by decide) (by decide) hdigit
  · rw [List.length_append, List.length_replicate, Nat.sub_add_cancel hlength]
  · rw [value_eq, Nat.ofDigitChars_append, Nat.ofDigitChars_replicate_zero]
    simp

/-! ### Reading -/

namespace IsNumeral

variable {ds : List Char} {width n : Nat}

theorem exists_cons (h : IsNumeral ds width n) (hwidth : 0 < width) :
    ∃ c cs, ds = c :: cs ∧ isDigit c = true := by
  cases ds with
  | nil => exact absurd h.length (Nat.ne_of_lt hwidth)
  | cons c cs => exact ⟨c, cs, rfl, h.digits c List.mem_cons_self⟩

theorem readNumber (h : IsNumeral ds width n) (hwidth : 0 < width) (rest : List Char) :
    Date.readNumber width (ds ++ rest) = some (n, rest) := by
  have htake : ((ds ++ rest).take width).takeWhile isDigit = ds := by
    rw [← h.length, List.take_left, List.takeWhile_eq_self_iff]
    exact h.digits
  obtain ⟨c, cs, rfl, -⟩ := h.exists_cons hwidth
  rw [Date.readNumber, htake]
  show some (Date.value (c :: cs), List.drop (c :: cs).length (c :: cs ++ rest)) = _
  rw [h.value, List.drop_left]

theorem dropWhile_isBlank (h : IsNumeral ds width n) (hwidth : 0 < width) (rest : List Char) :
    (ds ++ rest).dropWhile Text.isBlank = ds ++ rest := by
  obtain ⟨c, cs, rfl, hc⟩ := h.exists_cons hwidth
  simp [isBlank_of_isDigit hc]

theorem readPart (h : IsNumeral ds width n) (hwidth : 0 < width) (rest : List Char) :
    Date.readPart width (ds ++ rest) = some (n, rest) := by
  rw [Date.readPart, h.dropWhile_isBlank hwidth, h.readNumber hwidth]

/-- A year begins with a digit, not with a sign. -/
theorem readYear (h : IsNumeral ds 4 n) (rest : List Char) :
    Date.readYear (ds ++ rest) = some ((n : Int), rest) := by
  have hnumber := h.readNumber (by decide) rest
  rw [Date.readYear, h.dropWhile_isBlank (by decide)]
  obtain ⟨c, cs, rfl, hc⟩ := h.exists_cons (by decide)
  split
  · rename_i heq
    exact absurd (List.cons.inj heq).1 (ne_of_isDigit hc rfl)
  · rename_i heq
    exact absurd (List.cons.inj heq).1 (ne_of_isDigit hc rfl)
  · rw [hnumber]
    rfl

end IsNumeral

/-! ### Dates -/

namespace Date

variable {d : Date}

/-- The numbers of a date from the year 0 to 9999 have four, two and two digits. -/
theorem exists_text (h : d.isValid = true) (hleast : 0 ≤ d.year) (hmost : d.year ≤ 9999) :
    ∃ year month day : String,
      d.text = year ++ "-" ++ month ++ "-" ++ day ∧ IsNumeral year.toList 4 d.year.toNat ∧
      IsNumeral month.toList 2 d.month ∧ IsNumeral day.toList 2 d.day := by
  obtain ⟨-, hmonth, -, hday⟩ := isValid_iff.1 h
  have hdays := (daysOfMonth_mem d.year d.month).2
  refine ⟨padded 4 d.year.toNat, padded 2 d.month, padded 2 d.day, ?_,
    isNumeral_padded (by decide) (by omega), isNumeral_padded (by decide) (by omega),
    isNumeral_padded (by decide) (by omega)⟩
  rw [text, yearText, if_pos ⟨hleast, hmost⟩]

theorem parse?_text (h : d.isValid = true) (hleast : 0 ≤ d.year) (hmost : d.year ≤ 9999) :
    parse? d.text.toList = some d := by
  obtain ⟨year, month, day, htext, hyear, hmonth, hday⟩ := exists_text h hleast hmost
  have hlist : d.text.toList =
      year.toList ++ '-' :: (month.toList ++ '-' :: (day.toList ++ [])) := by
    simp [htext]
  have hrange : earliest.year ≤ d.year ∧ d.year ≤ latest.year :=
    ⟨Int.le_trans (by decide) hleast, Int.le_trans hmost (by decide)⟩
  have hcast : (d.year.toNat : Int) = d.year := Int.toNat_of_nonneg hleast
  simp only [hlist, parse?, Option.bind_eq_bind, hyear.readYear, Option.bind_some, readHyphen,
    hmonth.readPart (by decide), hday.readPart (by decide), hcast]
  simp [h, hrange]

end Date

/-- **The dates of the Gregorian calendar are written in four, two and two digits, and are read
back.** -/
theorem Day.writesDigits_calendar : calendar.WritesDigits where
  text d := Date.exists_text d.property
  parse? d hleast hmost := by
    have hparse := Date.parse?_text d.property hleast hmost
    show (Date.parse? d.val.text.toList).bind ofDate? = some d
    rw [hparse]
    exact ofDate?_eq_some.2 rfl

end SpectralCoding
