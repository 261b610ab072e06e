import SpectralCoding.Error
import SpectralCoding.Log.Calendar
import SpectralCoding.Text.Lossy

/-!
# Log files and how long they are kept

A log file is named by a stem and the date it was begun on, `<stem>.YYYY-MM-DD.log`.

* `Log.fileName`, `Log.path` : the name of a log file, and its place in a directory.
* `Log.dateOf?` : the date in the name of a log file of a given stem.
* `Log.cleanup` : the files that stay, and how many go.

The date takes ten bytes. File names are bytes, and are looked at as text, with replacements for
what is none. A directory that does not exist has nothing to clean up, whatever the number of days;
otherwise the oldest day to keep has to be one that is reckoned with.
-/

namespace SpectralCoding

namespace Log

/-- What every log file name ends in. -/
def ending : String := ".log"

/-- The bytes of a date in a file name. -/
def dateBytes : Nat := 10

/-- What parts directories from names. -/
def separator : UInt8 := 0x2F

/-- A name in a directory. An absolute name stands for itself. -/
def joinPath (directory name : List UInt8) : List UInt8 :=
  if name.head? = some separator ∨ directory = [] then name
  else if directory.getLast? = some separator then directory ++ name
  else directory ++ separator :: name

/-- The characters after `front`, if they begin with it. -/
def after? (front cs : List Char) : Option (List Char) :=
  if front.isPrefixOf cs then some (cs.drop front.length) else none

/-- The characters before `back`, if they end with it. -/
def before? (back cs : List Char) : Option (List Char) :=
  if back.isSuffixOf cs then some (cs.take (cs.length - back.length)) else none

/-- The part of a file name where a log file of this stem has its date. -/
def datePart? (stem name : String) : Option (List Char) := do
  let rest ← after? stem.toList name.toList
  let rest ← after? ['.'] rest
  before? ending.toList rest

variable {δ : Type} (C : Calendar δ)

/-- The name of the log file begun on a date. -/
def fileName (stem : String) (date : δ) : String := stem ++ "." ++ C.text date ++ ending

/-- The place of the log file begun on a date. -/
def path (directory : List UInt8) (stem : String) (date : δ) : List UInt8 :=
  joinPath directory (Text.encode (fileName C stem date))

/-- The date in the name of a log file of this stem. -/
def dateOf? (stem name : String) : Option δ := do
  let part ← datePart? stem name
  if (String.ofList part).utf8ByteSize = dateBytes then C.parse? (String.ofList part) else none

/-- The file is a log file of this stem begun before `cutoff`. -/
def isExpired (stem : String) (cutoff : δ) (name : List UInt8) : Bool :=
  match dateOf? C stem (Text.lossy name) with
  | some date => C.precedes date cutoff
  | none => false

/-- What is left of a directory after a cleanup. -/
structure Cleaned where
  /-- The number of files removed. -/
  removed : Nat
  /-- The files that stay. -/
  left : List (List UInt8)
  deriving DecidableEq, Repr, Inhabited

/-- Remove the log files of this stem begun more than `days` days before `today` from a directory;
`none` stands for a directory that does not exist. -/
def cleanup (files : Option (List (List UInt8))) (stem : String) (today : δ) (days : Int) :
    Except Error Cleaned :=
  match files with
  | none => .ok ⟨0, []⟩
  | some files =>
    match C.back? today days with
    | none => .error .outOfRange
    | some cutoff =>
      let (expired, left) := files.partition (isExpired C stem cutoff)
      .ok ⟨expired.length, left⟩

end Log

end SpectralCoding
