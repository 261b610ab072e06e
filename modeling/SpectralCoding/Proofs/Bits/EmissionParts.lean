import SpectralCoding.Bits.Emission

/-!
# Emissions part by part

An emission without a fault is the concatenation of its parts, none of which has a fault.

* `fault_concat_eq_none`, `fault_each_eq_none` : a row has no fault if and only if no part has one.
* `bits_concat_of_clean`, `bits_each_of_clean` : the bits of a row without a fault.
* `length_concat_of_clean`, `length_each_of_clean` : their number.
* `FaultsIn` : the faults that an emission can have.
-/

namespace SpectralCoding

namespace Emission

@[simp] theorem fault_empty : empty.fault = none := rfl

@[simp] theorem bits_empty : empty.bits = [] := rfl

@[simp] theorem fault_ofBits (bits : List Bool) : (ofBits bits).fault = none := rfl

@[simp] theorem bits_ofBits (bits : List Bool) : (ofBits bits).bits = bits := rfl

@[simp] theorem fault_fail (e : Error) : (fail e).fault = some e := rfl

@[simp] theorem fault_field (width v : Nat) : (field width v).fault = none := rfl

@[simp] theorem bits_field (width v : Nat) : (field width v).bits = Bits.ofNat width v := rfl

@[simp] theorem fault_signed (width : Nat) (v : Int) : (signed width v).fault = none := rfl

@[simp] theorem bits_signed (width : Nat) (v : Int) :
    (signed width v).bits = Bits.ofInt width v := rfl

@[simp] theorem fault_flag (b : Bool) : (flag b).fault = none := rfl

@[simp] theorem bits_flag (b : Bool) : (flag b).bits = [b] := rfl

@[simp] theorem fault_zeros (n : Nat) : (zeros n).fault = none := rfl

@[simp] theorem bits_zeros (n : Nat) : (zeros n).bits = List.replicate n false := rfl

@[simp] theorem concat_nil : concat [] = empty := rfl

@[simp] theorem concat_cons (e : Emission) (es : List Emission) :
    concat (e :: es) = e ++ concat es := rfl

theorem length_append_of_clean {a b : Emission} (h : (a ++ b).fault = none) :
    (a ++ b).bits.length = a.bits.length + b.bits.length := by
  rw [bits_append_of_clean (fault_append_eq_none.1 h).1, List.length_append]

/-! ### Rows -/

variable {α : Type}

theorem fault_concat_eq_none {es : List Emission} :
    (concat es).fault = none ↔ ∀ e ∈ es, e.fault = none := by
  induction es with
  | nil => simp
  | cons e es ih => simp [ih]

theorem bits_concat_of_clean {es : List Emission} (h : ∀ e ∈ es, e.fault = none) :
    (concat es).bits = es.flatMap (·.bits) := by
  induction es with
  | nil => rfl
  | cons e es ih =>
    obtain ⟨he, hes⟩ := List.forall_mem_cons.1 h
    rw [concat_cons, bits_append_of_clean he, ih hes, List.flatMap_cons]

theorem length_concat_of_clean {es : List Emission} (h : ∀ e ∈ es, e.fault = none) :
    (concat es).bits.length = (es.map (·.bits.length)).sum := by
  rw [bits_concat_of_clean h, List.length_flatMap]

@[simp] theorem each_nil (f : α → Emission) : each [] f = empty := rfl

theorem each_map {β : Type} (items : List α) (g : α → β) (f : β → Emission) :
    each (items.map g) f = each items fun x => f (g x) := by
  rw [each, List.map_map]
  rfl

theorem fault_each_eq_none {items : List α} {f : α → Emission} :
    (each items f).fault = none ↔ ∀ x ∈ items, (f x).fault = none := by
  simp [each, fault_concat_eq_none]

theorem bits_each_of_clean {items : List α} {f : α → Emission}
    (h : ∀ x ∈ items, (f x).fault = none) :
    (each items f).bits = items.flatMap fun x => (f x).bits := by
  rw [each, bits_concat_of_clean (by simpa using h), List.flatMap_map]

theorem length_each_of_clean {items : List α} {f : α → Emission}
    (h : ∀ x ∈ items, (f x).fault = none) :
    (each items f).bits.length = (items.map fun x => (f x).bits.length).sum := by
  rw [bits_each_of_clean h, List.length_flatMap]

theorem length_each_of_width {items : List α} {f : α → Emission} {width : Nat}
    (h : ∀ x ∈ items, (f x).fault = none) (hwidth : ∀ x ∈ items, (f x).bits.length = width) :
    (each items f).bits.length = items.length * width := by
  rw [length_each_of_clean h, List.map_congr_left hwidth, List.map_const', List.sum_replicate_nat]

/-! ### Faults -/

/-- If there is a fault, it is one of `P`. -/
def FaultsIn (P : Error → Prop) (e : Emission) : Prop := ∀ cause, e.fault = some cause → P cause

variable {P : Error → Prop}

theorem faultsIn_of_clean {e : Emission} (h : e.fault = none) : FaultsIn P e := by
  intro cause hcause
  rw [h] at hcause
  cases hcause

theorem faultsIn_fail {e : Error} (h : P e) : FaultsIn P (fail e) :=
  fun _ hcause => Option.some.inj hcause ▸ h

theorem FaultsIn.append {a b : Emission} (ha : FaultsIn P a) (hb : FaultsIn P b) :
    FaultsIn P (a ++ b) := by
  intro cause hcause
  cases hfault : a.fault with
  | none =>
    rw [fault_append_of_clean hfault] at hcause
    exact hb cause hcause
  | some e =>
    have hstopped : a ++ b = a := by simp only [append_def, Emission.append, hfault]
    rw [hstopped] at hcause
    exact ha cause hcause

theorem faultsIn_concat {es : List Emission} (h : ∀ e ∈ es, FaultsIn P e) :
    FaultsIn P (concat es) := by
  induction es with
  | nil => exact faultsIn_of_clean rfl
  | cons e es ih =>
    obtain ⟨he, hes⟩ := List.forall_mem_cons.1 h
    exact he.append (ih hes)

theorem faultsIn_each {items : List α} {f : α → Emission} (h : ∀ x ∈ items, FaultsIn P (f x)) :
    FaultsIn P (each items f) := by
  apply faultsIn_concat
  intro e he
  obtain ⟨x, hx, rfl⟩ := List.mem_map.1 he
  exact h x hx

end Emission

end SpectralCoding
