import SpectralCoding.Bits.Basic
import SpectralCoding.Text.Json

/-!
# Settings of the log

* `Log.Settings` : level, directory, stem of the file names and days to keep.
* `Log.Settings.ofJson?` : settings from a JSON value, if it gives them.
* `Log.Settings.parse?` : settings from a text that some reader makes such a value of.

The value is an object with a member for each setting, or an array of the settings in order. The
days may be missing. Unknown members are passed over; a setting given twice, or as something else,
is an error.
-/

namespace SpectralCoding

namespace Log

/-- The settings of the log. -/
structure Settings where
  level : String
  directory : String
  /-- The stem of the file names. -/
  stem : String
  /-- How many days a log file is kept. -/
  days : Int
  deriving DecidableEq, Repr, Inhabited

namespace Settings

/-- How many days a log file is kept if nothing is said. -/
def defaultDays : Int := 30

/-- The text of a string. -/
def textOf? : Json → Option String
  | .string s => s
  | _ => none

/-- A whole number of 64 bits. A zero with a sign is none. -/
def daysOf? : Json → Option Int
  | .number n =>
    if !n.isWhole then none
    else if n.isNegative then
      if n.digits = 0 ∨ 2 ^ 63 < n.digits then none else some (-(n.digits : Int))
    else if n.digits < 2 ^ 63 then some n.digits
    else none
  | _ => none

/-- The value of the only member named `name`, `none` inside if there is no such member. Two of them
are an error. -/
def member? (name : String) (members : List (Option String × Json)) : Option (Option Json) :=
  match members.filter (·.1 == some name) with
  | [] => some none
  | [m] => some (some m.2)
  | _ => none

/-- The days, if the member is there. -/
def daysOrDefault? : Option Json → Option Int
  | none => some defaultDays
  | some value => daysOf? value

/-- Settings from the members of an object. A member without a name is an error. -/
def ofMembers? (members : List (Option String × Json)) : Option Settings := do
  if members.any (·.1.isNone) then none
  let level ← textOf? (← (← member? "level" members))
  let directory ← textOf? (← (← member? "directory" members))
  let stem ← textOf? (← (← member? "file_prefix" members))
  let days ← daysOrDefault? (← member? "retention_days" members)
  return { level, directory, stem, days }

/-- Settings from the items of an array. -/
def ofItems? : List Json → Option Settings
  | level :: directory :: stem :: rest => do
    let days ← match rest with
      | [] => some defaultDays
      | [days] => daysOf? days
      | _ => none
    let level ← textOf? level
    let directory ← textOf? directory
    let stem ← textOf? stem
    return { level, directory, stem, days }
  | _ => none

/-- Settings from a JSON value. -/
def ofJson? : Json → Option Settings
  | .object members => ofMembers? members
  | .array items => ofItems? items
  | _ => none

/-- Settings from a text, read as a JSON value. -/
def parse? (read : String → Option Json) (text : String) : Option Settings :=
  (read text).bind ofJson?

end Settings

end Log

end SpectralCoding
