import SpectralCoding.Bits.Basic
import SpectralCoding.Error

/-!
# Emitted bits

Serialising yields bits and, where it breaks off, the error that stopped it.

* `Emission` : the bits put out and the fault, if any. What follows a fault is not put out.
* `Emission.field`, `Emission.signed`, `Emission.zeros` : single fields.
* `Emission.concat` : one part after the other.
* `bits_append_of_clean` : parts without a fault concatenate.
-/

namespace SpectralCoding

/-- The bits that a serialisation put out, and the error that stopped it. -/
structure Emission where
  /-- The bits put out, up to the fault. -/
  bits : List Bool := []
  /-- The error that stopped the serialisation. -/
  fault : Option Error := none
  deriving DecidableEq, Repr, Inhabited

namespace Emission

/-- Nothing, without a fault. -/
def empty : Emission := {}

/-- A bit string, without a fault. -/
def ofBits (bits : List Bool) : Emission := { bits }

/-- Nothing but a fault. -/
def fail (e : Error) : Emission := { fault := some e }

/-- The low `width` bits of `v`. -/
def field (width v : Nat) : Emission := ofBits (Bits.ofNat width v)

/-- The low `width` bits of `v` in two's complement. -/
def signed (width : Nat) (v : Int) : Emission := ofBits (Bits.ofInt width v)

/-- A flag of one bit. -/
def flag (b : Bool) : Emission := ofBits [b]

/-- `n` zeros. -/
def zeros (n : Nat) : Emission := ofBits (List.replicate n false)

/-- One emission after the other; after a fault nothing more comes. -/
def append (a b : Emission) : Emission :=
  match a.fault with
  | some _ => a
  | none => ⟨a.bits ++ b.bits, b.fault⟩

instance : Append Emission := ⟨append⟩

/-- One part after the other. -/
def concat : List Emission → Emission
  | [] => empty
  | e :: es => e ++ concat es

/-- What `f` emits for one item after the other. -/
def each {α : Type} (items : List α) (f : α → Emission) : Emission := concat (items.map f)

theorem append_def (a b : Emission) : a ++ b = append a b := rfl

@[simp] theorem empty_append (a : Emission) : empty ++ a = a := rfl

@[simp] theorem append_empty (a : Emission) : a ++ empty = a := by
  rcases a with ⟨bits, _ | e⟩ <;> simp [append_def, append, empty]

theorem append_assoc (a b c : Emission) : a ++ b ++ c = a ++ (b ++ c) := by
  rcases a with ⟨_, _ | _⟩ <;> rcases b with ⟨_, _ | _⟩ <;> simp [append_def, append]

theorem bits_append_of_clean {a : Emission} (h : a.fault = none) (b : Emission) :
    (a ++ b).bits = a.bits ++ b.bits := by
  simp [append_def, append, h]

theorem fault_append_of_clean {a : Emission} (h : a.fault = none) (b : Emission) :
    (a ++ b).fault = b.fault := by
  simp [append_def, append, h]

@[simp] theorem fault_append_eq_none {a b : Emission} :
    (a ++ b).fault = none ↔ a.fault = none ∧ b.fault = none := by
  rcases a with ⟨_, _ | _⟩ <;> simp [append_def, append]

end Emission

end SpectralCoding
