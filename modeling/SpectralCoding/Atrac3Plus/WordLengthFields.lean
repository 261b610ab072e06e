import SpectralCoding.Atrac3.Mantissa
import SpectralCoding.Atrac3Plus.Field

/-!
# Writing word lengths

The word lengths of a channel are written in one of two ways, whichever is shorter; of two equally
long ones in the plain way. The plain way takes three bits each. The other way codes differences
modulo eight: in the first channel to the unit before, in the second one to the same unit of the
first.

* `Atrac3Plus.differenceBooks` : the four code books of differences, none of which has to hold every
  difference.
* `Atrac3Plus.bestBook` : the first of the cheapest books that have a word for every difference.
* `Atrac3Plus.differenceFields` : differences in the book of a number.
* `Atrac3Plus.lengthFields` : the fields of all channels.
-/

namespace SpectralCoding

namespace Atrac3Plus

/-- The code books of differences modulo eight. -/
def differenceBooks : List (List (Option Codeword)) :=
  [[some ⟨0, 1⟩, some ⟨2, 2⟩, none, none, none, none, none, some ⟨3, 2⟩],
   [some ⟨0, 1⟩, some ⟨4, 3⟩, some ⟨5, 3⟩, none, none, none, some ⟨6, 3⟩, some ⟨7, 3⟩],
   [some ⟨0, 1⟩, some ⟨4, 3⟩, some ⟨12, 4⟩, some ⟨30, 5⟩, some ⟨31, 5⟩, some ⟨13, 4⟩, some ⟨14, 4⟩,
    some ⟨5, 3⟩],
   [some ⟨0, 1⟩, some ⟨4, 3⟩, some ⟨12, 4⟩, some ⟨13, 4⟩, some ⟨30, 5⟩, some ⟨31, 5⟩, some ⟨14, 4⟩,
    some ⟨5, 3⟩]]

/-- The difference of `a` to `b` modulo eight. -/
def difference (a b : Nat) : Nat := (a + 7 * b) % 8

/-- The differences of a row to the entry before. -/
def differencesAlong : List Nat → List Nat
  | a :: b :: rest => difference b a :: differencesAlong (b :: rest)
  | _ => []

/-- The words of differences in a book, missing where it has none. -/
def differenceWords (book : List (Option Codeword)) (differences : List Nat) :
    List (Option Codeword) :=
  differences.map fun d => book.getD d none

/-- The first of the cheapest candidates, each a number with its bits. -/
def cheapest : List (Nat × Nat) → Option (Nat × Nat)
  | [] => none
  | c :: cs =>
    match cheapest cs with
    | none => some c
    | some d => some (if d.2 < c.2 then d else c)

/-- The numbers of the books that have words for all differences, with the bits of these. -/
def candidates (differences : List Nat) : List (Nat × Nat) :=
  differenceBooks.zipIdx.filterMap fun (book, i) =>
    (Atrac3.totalWidth (differenceWords book differences)).map (i, ·)

/-- The number of the first of the cheapest books, with the bits of all differences. -/
def bestBook (differences : List Nat) : Option (Nat × Nat) := cheapest (candidates differences)

/-- Differences in the book of a number. A difference without a word is passed over. -/
def differenceFields (book : Nat) (differences : List Nat) : Fields :=
  (differenceWords (differenceBooks.getD book []) differences).filterMap fun w => w.map .ofWord

/-- Word lengths in the plain way. -/
def plainFields (lengths : List Nat) : Fields := ⟨0, 2⟩ :: lengths.map fun l => ⟨l, 3⟩

/-- The shorter of the plain way and of differences behind `heading` of the number of their book,
which takes `overhead` bits. -/
def shorterFields (lengths differences : List Nat) (overhead : Nat) (heading : Nat → Fields) :
    Fields :=
  match bestBook differences with
  | none => plainFields lengths
  | some (book, bits) =>
    if overhead + bits < 2 + 3 * lengths.length then
      heading book ++ differenceFields book differences
    else plainFields lengths

/-- The word lengths of the first channel: mode three with its weight and fill modes, the book, the
first length and differences along the row. -/
def firstFields (lengths : List Nat) : Fields :=
  shorterFields lengths (differencesAlong lengths) (2 + 2 + 2 + 2 + 3) fun book =>
    [⟨3, 2⟩, ⟨0, 2⟩, ⟨0, 2⟩, ⟨book, 2⟩, ⟨lengths.headD 0, 3⟩]

/-- The word lengths of the second channel: mode one with its fill mode, the book and differences to
the first channel. -/
def secondFields (first lengths : List Nat) : Fields :=
  shorterFields lengths (List.zipWith difference lengths first) (2 + 2 + 2) fun book =>
    [⟨1, 2⟩, ⟨0, 2⟩, ⟨book, 2⟩]

/-- The first `units` word lengths of every channel. -/
def lengthFields (units : Nat) : (lengths : List (List Nat)) → Fields
  | [] => []
  | first :: others =>
    firstFields (first.take units) ++ others.flatMap fun ls => secondFields first (ls.take units)

end Atrac3Plus

end SpectralCoding
