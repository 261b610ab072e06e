import SpectralCoding.Atrac3.Mantissa
import SpectralCoding.Atrac3Plus.Field
import SpectralCoding.Block

/-!
# Writing units

The mantissas of a unit are written with words of fixed or of variable length, whichever is shorter;
of two equally long ones with fixed length. Word lengths one and two share a book.

* `Atrac3Plus.CodedUnit`, `Atrac3Plus.codeUnit` : the mantissas of a unit with the kind of words
  chosen.
* `Atrac3Plus.kindFields` : the choices for all units in use.
* `Atrac3Plus.mantissaFields` : the mantissas of a unit.
-/

namespace SpectralCoding

namespace Atrac3Plus

/-- The width of a word of fixed length by word length. -/
def fixedWidths : List Nat := [0, 2, 3, 3, 4, 4, 5, 6]

/-- The width of a word of fixed length. -/
def fixedWidth (length : Nat) : Nat := fixedWidths.getD length 0

/-- The word length has words of fixed length. -/
def hasFixedWords (length : Nat) : Bool := length < fixedWidths.length

/-- The code book of a word length. -/
def codebook (length : Nat) : List Codeword := Atrac3.codebook (if length = 1 then 2 else length)

/-- The mantissas of scaled values at a word length. -/
def quantise (values : List Float32) (length : Nat) : List Int :=
  let step := Atrac3.steps.getD length 0
  values.map fun v => Binary32.round32 (v * step)

/-- Words of fixed length. -/
def fixedKind : Nat := 0

/-- Words of variable length. -/
def variableKind : Nat := 1

/-- A unit with its kind of words. -/
structure CodedUnit where
  kind : Nat := fixedKind
  mantissas : List Int := []
  deriving DecidableEq, Repr, Inhabited

/-- The kind of words for mantissas at a word length. -/
def chooseKind (length : Nat) (ms : List Int) : Nat :=
  match Atrac3.totalWidth (Atrac3.wordsIn (codebook length) ms) with
  | some cost => if cost < fixedWidth length * ms.length then variableKind else fixedKind
  | none => fixedKind

/-- A unit of a word length; a silent one has no mantissas. -/
def codeUnit (length : Nat) (block : Option ScaledBlock) : CodedUnit :=
  if length = 0 then {}
  else
    let ms := quantise ((block.map (·.values)).getD []) length
    ⟨chooseKind length ms, ms⟩

/-- The field of the choice for a unit. A silent unit has one only if the first channel has
mantissas there, which are then declared not to be copied. -/
def kindField (isFirst : Bool) (length firstLength kind : Nat) : Fields :=
  if length ≠ 0 then [⟨kind, 2⟩] else if !isFirst && firstLength ≠ 0 then [⟨1, 1⟩] else []

/-- The choices for the units in use of a channel, behind the type of table, the mode and the
coverage. -/
def channelKindFields (isFirst : Bool) (lengths firstLengths kinds : List Nat) : Fields :=
  [⟨0, 1⟩, ⟨0, 2⟩, ⟨0, 1⟩]
    ++ (lengths.zip (firstLengths.zip kinds)).flatMap fun (l, first, kind) => kindField isFirst l first kind

/-- The choices for the units in use of all channels, behind the flag of the full set of tables. -/
def kindFields (used : Nat) (lengths kinds : List (List Nat)) : Fields :=
  let first := (lengths.headD []).take used
  [⟨0, 1⟩]
    ++ (lengths.zip kinds).zipIdx.flatMap fun ((ls, ks), channel) =>
      channelKindFields (channel == 0) (ls.take used) first ks

/-- The mantissas of a unit. In a book, a mantissa without a word is passed over. -/
def mantissaFields (length kind : Nat) (ms : List Int) : Fields :=
  if length = 0 then []
  else if kind = fixedKind then ms.map (.ofInt (fixedWidth length))
  else (Atrac3.wordsIn (codebook length) ms).filterMap fun w => w.map .ofWord

end Atrac3Plus

end SpectralCoding
