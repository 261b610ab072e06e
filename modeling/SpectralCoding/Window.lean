/-!
# Window modes

A band is transformed with one long window or with several short ones.

* `WindowMode` : the binary logarithm of the number of windows in each of four bands.
* `WindowMode.isShort`, `WindowMode.isAllLong` : whether a band, or any band at all, has short
  windows.
-/

namespace SpectralCoding

/-- The binary logarithm of the number of short windows in each band, zero for one long window. -/
structure WindowMode where
  low : Nat := 0
  mid : Nat := 0
  high : Nat := 0
  top : Nat := 0
  deriving DecidableEq, Repr, Inhabited

namespace WindowMode

/-- One long window in every band. -/
def long : WindowMode := {}

/-- Short windows in the chosen ones of three bands, four windows in the lower two and eight in the
third. -/
def ofShortBands (low mid high : Bool) : WindowMode :=
  { low := if low then 2 else 0
    mid := if mid then 2 else 0
    high := if high then 3 else 0 }

/-- The mode with the given logarithms, lowest band first; missing ones are zero. -/
def ofList (counts : List Nat) : WindowMode :=
  { low := counts.getD 0 0
    mid := counts.getD 1 0
    high := counts.getD 2 0
    top := counts.getD 3 0 }

/-- The logarithms, lowest band first. -/
def toList (m : WindowMode) : List Nat := [m.low, m.mid, m.high, m.top]

/-- Band `band` has short windows; bands past the fourth never do. -/
def isShort (m : WindowMode) (band : Nat) : Bool := m.toList.getD band 0 != 0

/-- No band has short windows. -/
def isAllLong (m : WindowMode) : Bool := m.toList.all (· == 0)

@[simp] theorem ofList_toList (m : WindowMode) : ofList m.toList = m := rfl

theorem isAllLong_iff (m : WindowMode) : m.isAllLong = true ↔ m = long := by
  rcases m with ⟨a, b, c, d⟩
  simp [isAllLong, toList, long]

end WindowMode

end SpectralCoding
