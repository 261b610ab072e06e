import SpectralCoding.Search.Bisection

/-!
# What a stage may ask

A stage of a frame works out its fields while a search for the shift is going on, and takes part in
that search by asking and telling. `Negotiation` is the course of such a talk: a tree of the
requests below and nothing else, so a stage can neither look into the search nor change it by other
means.

* `Negotiation.start`, `probe`, `submit`, `isUnder`, `target`, `spent` : the requests.
* `Desk` : the search, the stage to return to, and whether a return was asked for.
* `Negotiation.run` : a talk held at a desk.
-/

namespace SpectralCoding

/-- The course of a talk between a stage and the search, ending in a result. -/
inductive Negotiation (κ : Type) (α : Type) where
  /-- The talk is over. -/
  | done (result : α)
  /-- Begin a search for `target` on `[lo, hi]`. -/
  | start (target : Nat) (lo hi : κ) (next : Negotiation κ α)
  /-- Ask for the next shift to try. -/
  | probe (next : κ → Negotiation κ α)
  /-- Submit a cost and hear whether it stands. -/
  | submit (cost : Nat) (next : Bool → Negotiation κ α)
  /-- Ask whether a cost stays below the target. -/
  | isUnder (cost : Nat) (next : Bool → Negotiation κ α)
  /-- Ask for the target. -/
  | target (next : Nat → Negotiation κ α)
  /-- Ask what the stages ahead of this one cost. -/
  | spent (next : Nat → Negotiation κ α)

namespace Negotiation

variable {κ α β : Type}

/-- Go on after a talk with another one. -/
def bind : Negotiation κ α → (α → Negotiation κ β) → Negotiation κ β
  | done a, f => f a
  | start t lo hi next, f => start t lo hi (bind next f)
  | probe next, f => probe fun x => bind (next x) f
  | submit c next, f => submit c fun b => bind (next b) f
  | isUnder c next, f => isUnder c fun b => bind (next b) f
  | target next, f => target fun n => bind (next n) f
  | spent next, f => spent fun n => bind (next n) f

instance : Monad (Negotiation κ) where
  pure := done
  bind := bind

end Negotiation

/-- The search that the stages of a frame share. -/
structure Desk (κ : Type) where
  /-- The search. -/
  search : Bisection κ
  /-- The stage that last asked for a shift while the search was open. -/
  anchor : Nat := 0
  /-- The last submitted cost did not stand. -/
  isReopened : Bool := false
  deriving Inhabited

/-- A desk nobody has used. -/
def Desk.idle {κ : Type} [Dial κ] : Desk κ := { search := .idle }

namespace Negotiation

variable {κ α : Type} [Dial κ]

/-- A talk held by the stage at `position`, with `cost` the cost of the stages ahead of it. -/
def run (position cost : Nat) : Negotiation κ α → Desk κ → α × Desk κ
  | done a, d => (a, d)
  | start t lo hi next, d => run position cost next { d with search := .start t lo hi }
  | probe next, d =>
    let (shift, search) := d.search.probe
    -- a collapsed search accepts every cost, so nobody returns for it
    let anchor := if d.search.isCollapsed then d.anchor else position
    run position cost (next shift) { d with search, anchor }
  | submit c next, d =>
    let (stands, search) := d.search.submit c
    run position cost (next stands) { d with search, isReopened := !stands }
  | isUnder c next, d => run position cost (next (d.search.isUnder c)) d
  | target next, d => run position cost (next d.search.target) d
  | spent next, d => run position cost (next cost) d

end Negotiation

end SpectralCoding
