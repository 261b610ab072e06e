import SpectralCoding.Log.Calendar
import SpectralCoding.Text.Blank

/-!
# Calendar dates

Dates of the Gregorian calendar, extended to all years, with a year zero before the year one.

* `Date`, `Day` : a year, month and day, and one that exists.
* `Date.dayNumber`, `Date.ofDayNumber` : the days since the first of March of the year zero, by
  which dates are compared, and back.
* `Date.text` : a date as `YYYY-MM-DD`. Years outside 0 to 9999 are written with a sign.
* `Date.parse?` : a date read back. White space may precede each number; a year without a sign has
  at most four digits, month and day at most two.
* `Day.calendar` : the calendar of these dates.
-/

namespace SpectralCoding

/-- The year has a 29th of February. -/
def isLeapYear (year : Int) : Bool := year % 4 == 0 && (year % 100 != 0 || year % 400 == 0)

/-- The number of days of a month. -/
def daysOfMonth (year : Int) : (month : Nat) → Nat
  | 2 => if isLeapYear year then 29 else 28
  | 4 | 6 | 9 | 11 => 30
  | _ => 31

/-- A year, month and day. -/
structure Date where
  year : Int
  month : Nat
  day : Nat
  deriving DecidableEq, Repr, Inhabited

namespace Date

/-- The month and the day exist. -/
def isValid (d : Date) : Bool :=
  1 ≤ d.month && d.month ≤ 12 && 1 ≤ d.day && d.day ≤ daysOfMonth d.year d.month

/-- The days before a month of a year that begins with March, counted from March as zero. -/
def daysBeforeMonth (month : Nat) : Nat := (153 * month + 2) / 5

/-- The days since the first of March of the year zero. The year is taken to begin with March, so a
leap day is its last. -/
def dayNumber (d : Date) : Int :=
  -- January and February end the year before
  let year := if d.month ≤ 2 then d.year - 1 else d.year
  let month := (d.month + 9) % 12
  365 * year + year / 4 - year / 100 + year / 400 + (daysBeforeMonth month + d.day - 1 : Nat)

/-- The day number of the first of March of a year. -/
def firstOfMarch (year : Int) : Int := 365 * year + year / 4 - year / 100 + year / 400

/-- The year, taken to begin with March, that the day with a number is in. The mean length of a year
gives it but for one. -/
def yearOfDay (n : Int) : Int :=
  let year := 400 * n / 146097
  if firstOfMarch (year + 1) ≤ n then year + 1
  else if firstOfMarch year ≤ n then year
  else year - 1

/-- The date with a day number. -/
def ofDayNumber (n : Int) : Date :=
  let year := yearOfDay n
  let day := (n - firstOfMarch year).toNat
  let month := (5 * day + 2) / 153
  { year := if month < 10 then year else year + 1
    month := if month < 10 then month + 3 else month - 9
    day := day - daysBeforeMonth month + 1 }

/-- The earliest date that is reckoned with. -/
def earliest : Date := ⟨-262143, 1, 1⟩

/-- The latest date that is reckoned with. -/
def latest : Date := ⟨262142, 12, 31⟩

/-! ### Text -/

/-- A number in decimal digits, filled up with zeros at the front to `width` digits. -/
def padded (width n : Nat) : String :=
  let ds := toString n
  String.ofList (List.replicate (width - ds.length) '0') ++ ds

/-- A year in at least four digits, with a sign outside 0 to 9999. -/
def yearText (year : Int) : String :=
  if 0 ≤ year ∧ year ≤ 9999 then padded 4 year.toNat
  else (if year < 0 then "-" else "+") ++ padded 4 year.natAbs

/-- A date as year, month and day. -/
def text (d : Date) : String :=
  yearText d.year ++ "-" ++ padded 2 d.month ++ "-" ++ padded 2 d.day

/-- The digit is a decimal one. -/
def isDigit (c : Char) : Bool := '0' ≤ c && c ≤ '9'

/-- The number that decimal digits stand for. -/
def value (ds : List Char) : Nat := ds.foldl (fun n d => 10 * n + (d.toNat - '0'.toNat)) 0

/-- A number of one to `most` digits, and what follows it. -/
def readNumber (most : Nat) (cs : List Char) : Option (Nat × List Char) :=
  match (cs.take most).takeWhile isDigit with
  | [] => none
  | ds => some (value ds, cs.drop ds.length)

/-- A number of at most `most` digits after white space. -/
def readPart (most : Nat) (cs : List Char) : Option (Nat × List Char) :=
  readNumber most (cs.dropWhile Text.isBlank)

/-- A year after white space. With a sign it may have any number of digits. -/
def readYear (cs : List Char) : Option (Int × List Char) :=
  match cs.dropWhile Text.isBlank with
  | '-' :: cs => (readNumber cs.length cs).map fun (n, cs) => (-(n : Int), cs)
  | '+' :: cs => (readNumber cs.length cs).map fun (n, cs) => ((n : Int), cs)
  | cs => (readNumber 4 cs).map fun (n, cs) => ((n : Int), cs)

/-- The characters after a hyphen. -/
def readHyphen : List Char → Option (List Char)
  | '-' :: cs => some cs
  | _ => none

/-- The date that a text is, if it is one that is reckoned with. -/
def parse? (cs : List Char) : Option Date := do
  let (year, cs) ← readYear cs
  let (month, cs) ← readPart 2 (← readHyphen cs)
  let (day, cs) ← readPart 2 (← readHyphen cs)
  let d : Date := ⟨year, month, day⟩
  if cs.isEmpty && d.isValid && earliest.year ≤ year && year ≤ latest.year then some d else none

end Date

/-- A date that exists. -/
def Day : Type := { d : Date // d.isValid = true }

namespace Day

/-- The day of a date, if the date exists. -/
def ofDate? (d : Date) : Option Day := if h : d.isValid = true then some ⟨d, h⟩ else none

/-- The Gregorian calendar. -/
def calendar : Calendar Day where
  year d := d.val.year
  month d := d.val.month
  day d := d.val.day
  text d := d.val.text
  parse? s := (Date.parse? s.toList).bind ofDate?
  precedes d e := d.val.dayNumber < e.val.dayNumber
  back? d days :=
    let n := d.val.dayNumber - days
    if Date.earliest.dayNumber ≤ n ∧ n ≤ Date.latest.dayNumber then ofDate? (.ofDayNumber n)
    else none

end Day

end SpectralCoding
