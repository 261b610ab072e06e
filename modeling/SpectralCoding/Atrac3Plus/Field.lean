import SpectralCoding.Bits.Emission
import SpectralCoding.Codeword

/-!
# Fields put by

A stage of an ATRAC3+ frame puts its fields by until all stages have settled.

* `Field`, `Field.ofWord`, `Field.ofInt` : a field, from a code word or a signed number.
* `Fields.cost`, `Fields.emit` : the bits of a row of fields, counted and put out.
-/

namespace SpectralCoding

/-- The low `width` bits of `value`. -/
structure Field where
  value : Nat
  width : Nat
  deriving DecidableEq, Repr, Inhabited

/-- Fields in the order in which they are put out. -/
abbrev Fields := List Field

namespace Field

/-- A flag. -/
def flag (b : Bool) : Field := ⟨b.toNat, 1⟩

/-- A code word. -/
def ofWord (w : Codeword) : Field := ⟨w.code, w.width⟩

/-- The low `width` bits of `v` in two's complement. -/
def ofInt (width : Nat) (v : Int) : Field := ⟨(v % (2 ^ width : Nat)).toNat, width⟩

end Field

namespace Fields

/-- The number of bits of a row of fields. -/
def cost (fs : Fields) : Nat := (fs.map (·.width)).sum

/-- The bits of a row of fields. -/
def emit (fs : Fields) : Emission := .each fs fun f => .field f.width f.value

@[simp] theorem cost_nil : cost [] = 0 := rfl

@[simp] theorem cost_cons (f : Field) (fs : Fields) : cost (f :: fs) = f.width + cost fs := by
  simp [cost]

@[simp] theorem cost_append (fs gs : Fields) : cost (fs ++ gs) = cost fs + cost gs := by
  simp [cost]

end Fields

end SpectralCoding
