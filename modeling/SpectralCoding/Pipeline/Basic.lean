import SpectralCoding.Bits.Emission
import SpectralCoding.Pipeline.Negotiation

/-!
# Frames made in stages

A frame is serialised by a row of stages. Each works out its part and remembers it; only when all
have settled does each put out its bits, in order.

* `Stage` : what a stage does, over the frame it works on and what it remembers.
* `Slot`, `Pipeline` : a stage with its memory, and a row of them with the desk they share.
* `Pipeline.settle` : the stages worked through until none calls for a return.
* `Pipeline.encode` : a frame settled and put out.

After a stage one of four things happens. A failure ends the frame. A cost that did not stand
returns to the stage that last asked for a shift. A stage that calls for a restart sends everything
back to the first stage, the stages ahead of it forgetting what they remember. Otherwise the next
stage follows. A frame that does not settle within `Pipeline.runLimit` turns fails.
-/

namespace SpectralCoding

/-- How a stage wants to go on. -/
inductive Verdict where
  /-- On to the next stage. -/
  | proceed
  /-- Back to the first stage. -/
  | restart
  deriving DecidableEq, Repr, Inhabited

/-- What a turn of a stage leaves behind. -/
structure Turn (φ σ : Type) where
  /-- The frame after the turn. -/
  frame : φ
  /-- What the stage remembers. -/
  memory : σ
  /-- How to go on, or why not. -/
  verdict : Except Error Verdict

/-- A stage working on frames `φ` and remembering a `σ`. -/
structure Stage (κ φ σ : Type) where
  /-- Work out the stage's part. -/
  work : φ → σ → Negotiation κ (Turn φ σ)
  /-- Put out the bits of the part remembered. -/
  emit : φ → σ → Emission
  /-- Forget the part. -/
  forget : σ → σ
  /-- The number of bits of the part remembered. -/
  cost : σ → Nat

/-- A stage and what it remembers. -/
structure Slot (κ φ σ : Type) where
  stage : Stage κ φ σ
  memory : σ

namespace Slot

variable {κ φ σ : Type}

/-- The slot after its stage forgot its part. -/
def forget (s : Slot κ φ σ) : Slot κ φ σ := { s with memory := s.stage.forget s.memory }

/-- The number of bits of the part remembered. -/
def cost (s : Slot κ φ σ) : Nat := s.stage.cost s.memory

/-- The bits of the part remembered. -/
def emit (s : Slot κ φ σ) (frame : φ) : Emission := s.stage.emit frame s.memory

end Slot

/-- The cost of a row of slots. -/
def Slot.totalCost {κ φ σ : Type} (slots : List (Slot κ φ σ)) : Nat := (slots.map Slot.cost).sum

/-- A row of stages and the desk they share, which stays as the last frame left it. -/
structure Pipeline (κ φ σ : Type) where
  slots : List (Slot κ φ σ)
  desk : Desk κ

namespace Pipeline

variable {κ φ σ : Type} [Dial κ]

/-- A row of stages, each starting from the memory beside it. -/
def ofStages (stages : List (Stage κ φ σ × σ)) : Pipeline κ φ σ where
  slots := stages.map fun (stage, memory) => { stage, memory }
  desk := .idle

/-- The total cost of what the stages remember. -/
def cost (p : Pipeline κ φ σ) : Nat := Slot.totalCost p.slots

/-- The most turns a frame may take. -/
def runLimit : Nat := 100000

/-- A frame on its way through the stages. -/
structure Progress (κ φ σ : Type) where
  slots : List (Slot κ φ σ)
  desk : Desk κ
  frame : φ

/-- Where a turn leads. -/
inductive Outcome (κ φ σ : Type) where
  /-- On with the stage at `position`. -/
  | goOn (position : Nat) (state : Progress κ φ σ)
  /-- The stage failed. -/
  | failed (cause : Error) (state : Progress κ φ σ)

/-- One turn of `slot`, the slot at `position`. -/
def turn (position : Nat) (slot : Slot κ φ σ) (s : Progress κ φ σ) : Outcome κ φ σ :=
  let spent := Slot.totalCost (s.slots.take position)
  let (t, desk) := (slot.stage.work s.frame slot.memory).run position spent s.desk
  let slots := s.slots.set position { slot with memory := t.memory }
  let frame := t.frame
  match t.verdict with
  | .error cause => .failed cause { slots, desk, frame }
  | .ok verdict =>
    -- a cost that did not stand outweighs the verdict
    if desk.isReopened then
      .goOn desk.anchor { slots, desk := { desk with isReopened := false }, frame }
    else match verdict with
      | .restart =>
        -- the stages ahead forget; this one and those behind it keep their parts
        let slots := (slots.take position).map Slot.forget ++ slots.drop position
        .goOn 0 { slots, desk := { desk with anchor := 0 }, frame }
      | .proceed => .goOn (position + 1) { slots, desk, frame }

/-- The stages worked through from `position` on, in at most `runs` turns. -/
def settle : (runs : Nat) → (position : Nat) → Progress κ φ σ → Except Error Unit × Progress κ φ σ
  | runs, position, s =>
    match s.slots[position]? with
    -- past the last stage
    | none => (.ok (), s)
    | some slot =>
      match runs with
      | 0 => (.error (.unsettled position), s)
      | runs + 1 =>
        match turn position slot s with
        | .failed cause s => (.error cause, s)
        | .goOn position s => settle runs position s

/-- What encoding a frame leaves behind. -/
structure Encoded (κ φ σ : Type) where
  /-- The stages, with what they remember of the frame. -/
  pipeline : Pipeline κ φ σ
  /-- The frame as the stages left it. -/
  frame : φ
  /-- The bits put out. -/
  emission : Emission

/-- A frame worked through all stages, which first forget the one before, and put out. A return that
the frame before called for is not made, wherever it was to lead. -/
def encode (p : Pipeline κ φ σ) (frame : φ) : Encoded κ φ σ :=
  let desk := { p.desk with anchor := 0, isReopened := false }
  let (result, s) := settle runLimit 0 { slots := p.slots.map Slot.forget, desk, frame }
  let pipeline := { slots := s.slots, desk := s.desk }
  match result with
  | .error cause => { pipeline, frame := s.frame, emission := .fail cause }
  | .ok () => { pipeline, frame := s.frame, emission := .each s.slots (·.emit s.frame) }

end Pipeline

end SpectralCoding
