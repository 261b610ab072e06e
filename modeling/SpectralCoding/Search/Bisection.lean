import SpectralCoding.Search.Dial

/-!
# Bisection by question and answer

A search for the shift whose cost comes closest to a target from below, driven from outside: `probe`
names the next shift to try and `submit` takes in what it cost.

* `Bisection` : target, interval, the shift being tried and the one to fall back on.
* `Bisection.start`, `Bisection.probe`, `Bisection.submit` : begin, ask, answer.
* `Bisection.isUnder` : whether a cost stays below the target.

Once the interval has collapsed nothing moves any more: every probe names the fallback and every
cost is accepted. The fallback is the last shift submitted that did not exceed the target, before
that the upper end of the interval, which costs least.
-/

namespace SpectralCoding

/-- The state of a search. -/
structure Bisection (κ : Type) where
  /-- The cost aimed at. -/
  target : Nat
  /-- The lower end of the interval. -/
  lo : κ
  /-- The upper end of the interval. -/
  hi : κ
  /-- The shift being tried. -/
  current : κ
  /-- The shift to fall back on. -/
  fallback : κ
  deriving Inhabited

namespace Bisection

variable {κ : Type} [Dial κ]

/-- A search that was never started: a collapsed interval at zero. -/
def idle : Bisection κ :=
  { target := 0, lo := Dial.ofInt 0, hi := Dial.ofInt 0, current := Dial.ofInt 0,
    fallback := Dial.ofInt 0 }

/-- Begin a search on `[lo, hi]`. -/
def start (target : Nat) (lo hi : κ) : Bisection κ :=
  { target, lo, hi, current := hi, fallback := hi }

/-- The interval has collapsed. -/
def isCollapsed (s : Bisection κ) : Bool := Dial.le s.hi s.lo

/-- The next shift to try, and the search that waits for its cost. -/
def probe (s : Bisection κ) : κ × Bisection κ :=
  if s.isCollapsed then (s.fallback, s)
  else
    let current := Dial.mid s.hi s.lo
    (current, { s with current })

/-- Take in the cost of the shift being tried. The flag says that no further try is called for. -/
def submit (s : Bisection κ) (cost : Nat) : Bool × Bisection κ :=
  if s.isCollapsed then (true, s)
  -- affordable: keep the shift and look for a smaller one
  else if cost < s.target then
    (false, { s with fallback := s.current, hi := Dial.down s.current })
  else if s.target < cost then (false, { s with lo := Dial.up s.current })
  -- on the target: nothing better can be found, though the interval stays open
  else (true, { s with fallback := s.current })

/-- `cost` stays below the target. -/
def isUnder (s : Bisection κ) (cost : Nat) : Bool := cost < s.target

theorem probe_of_isCollapsed {s : Bisection κ} (h : s.isCollapsed = true) :
    s.probe = (s.fallback, s) := by
  simp [probe, h]

theorem submit_of_isCollapsed {s : Bisection κ} (h : s.isCollapsed = true) (cost : Nat) :
    s.submit cost = (true, s) := by
  simp [submit, h]

@[simp] theorem target_probe (s : Bisection κ) : s.probe.2.target = s.target := by
  unfold probe; split <;> rfl

@[simp] theorem target_submit (s : Bisection κ) (cost : Nat) : (s.submit cost).2.target = s.target := by
  unfold submit; split
  · rfl
  · split
    · rfl
    · split <;> rfl

end Bisection

end SpectralCoding
