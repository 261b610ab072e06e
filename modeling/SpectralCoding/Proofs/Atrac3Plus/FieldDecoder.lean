import SpectralCoding.Proofs.Atrac3Plus.PartCosts
import SpectralCoding.Proofs.Bits.Decoder

/-!
# Reading fields back

Fields that are put by are put out one after the other. A decoder of a row of fields is made from
decoders of its parts, and on the way every value is seen to have no more bits than its field.

* `Field.Fits` : no bit of a value is lost.
* `ReadsBack` : a decoder takes a row of fields, all of which fit, for a value.
* `ReadsBack.append`, `ReadsBack.flatMap`, `ReadsBack.times` : one part after the other.
* `readsBack_field`, `readsBack_flag`, `readsBack_expect`, `readsBack_word` : single fields.
* `ReadsBack.run` : what the decoder does with the bits, whatever follows them.
-/

namespace SpectralCoding

namespace Field

/-- A value has no more bits than its field. -/
def Fits (f : Field) : Prop := f.value < 2 ^ f.width

instance (f : Field) : Decidable f.Fits := inferInstanceAs (Decidable (_ < _))

theorem fits_flag (b : Bool) : (flag b).Fits := by
  cases b <;> decide

end Field

namespace Fields

theorem emit_singleton (f : Field) : emit [f] = .field f.width f.value :=
  Emission.append_empty _

theorem emit_append (fs gs : Fields) : emit (fs ++ gs) = emit fs ++ emit gs := by
  have hcons (f : Field) (fs : Fields) : emit (f :: fs) = .field f.width f.value ++ emit fs := rfl
  induction fs with
  | nil => rfl
  | cons f fs ih => rw [List.cons_append, hcons, ih, hcons, Emission.append_assoc]

theorem emit_flatMap {α : Type} (items : List α) (f : α → Fields) :
    emit (items.flatMap f) = .each items fun x => emit (f x) := by
  induction items with
  | nil => rfl
  | cons x items ih =>
    rw [List.flatMap_cons, emit_append, ih]
    rfl

end Fields

/-- A decoder takes a row of fields for `a`, and no value has more bits than its field. -/
structure ReadsBack {α : Type} (d : Decoder α) (fs : Fields) (a : α) : Prop where
  fits : ∀ f ∈ fs, f.Fits
  decodes : Decodes d fs.emit a

section ReadsBack

variable {α β : Type} {d : Decoder α} {fs gs : Fields} {a : α} {b : β}

/-! ### Single fields -/

theorem readsBack_of_fits {f : Field} (hfits : f.Fits)
    (h : Decodes d (.field f.width f.value) a) : ReadsBack d [f] a where
  fits := List.forall_mem_singleton.2 hfits
  decodes := Fields.emit_singleton f ▸ h

theorem readsBack_field {v width : Nat} (hwidth : width ≤ 32) (hv : v < 2 ^ width) :
    ReadsBack (.field width) [⟨v, width⟩] v :=
  readsBack_of_fits hv (decodes_field hwidth hv)

theorem readsBack_flag (b : Bool) : ReadsBack .flag [.flag b] b := by
  refine readsBack_of_fits (Field.fits_flag b) ?_
  cases b
  · exact decodes_flag false
  · exact decodes_flag true

theorem readsBack_expect {v width : Nat} (hwidth : width ≤ 32) (hv : v < 2 ^ width) :
    ReadsBack (.expect width v) [⟨v, width⟩] () :=
  readsBack_of_fits hv (decodes_expect hwidth hv)

theorem readsBack_word {book : List Codeword} (hfree : Codeword.IsPrefixFree book) {place : Nat}
    {w : Codeword} (hw : book[place]? = some w) (hpos : w.width ≠ 0)
    (hfits : w.code < 2 ^ w.width) :
    ReadsBack (.word book) [.ofWord w] place :=
  readsBack_of_fits hfits (decodes_word hfree hw hpos)

/-! ### One part after the other -/

theorem ReadsBack.pure (a : α) : ReadsBack (pure a) [] a where
  fits _ hf := absurd hf List.not_mem_nil
  decodes := .pure a

theorem ReadsBack.append {next : α → Decoder β} (h : ReadsBack d fs a)
    (hnext : ReadsBack (next a) gs b) : ReadsBack (d >>= next) (fs ++ gs) b where
  fits := List.forall_mem_append.2 ⟨h.fits, hnext.fits⟩
  decodes := Fields.emit_append fs gs ▸ h.decodes.bind hnext.decodes

theorem ReadsBack.cons {next : α → Decoder β} {f : Field} (h : ReadsBack d [f] a)
    (hnext : ReadsBack (next a) gs b) : ReadsBack (d >>= next) (f :: gs) b :=
  h.append hnext

theorem ReadsBack.map (h : ReadsBack d fs a) (g : α → β) : ReadsBack (g <$> d) fs (g a) where
  fits := h.fits
  decodes := h.decodes.map g

theorem ReadsBack.bind_pure (h : ReadsBack d fs a) (g : α → β) :
    ReadsBack (d >>= fun x => Pure.pure (g x)) fs (g a) where
  fits := h.fits
  decodes := h.decodes.bind_pure g

/-- A row of parts, each of which is read by what the reader knows of it. -/
theorem ReadsBack.flatMap {ι κ : Type} {items : List ι} (known : ι → κ) {d : κ → Decoder α}
    {f : ι → Fields} {g : ι → α} (h : ∀ x ∈ items, ReadsBack (d (known x)) (f x) (g x)) :
    ReadsBack ((items.map known).mapM d) (items.flatMap f) (items.map g) where
  fits := by
    intro field hfield
    obtain ⟨x, hx, hfield⟩ := List.mem_flatMap.1 hfield
    exact (h x hx).fits field hfield
  decodes := Fields.emit_flatMap items f ▸ .mapM known fun x hx => (h x hx).decodes

theorem ReadsBack.times {ι : Type} {items : List ι} {f : ι → Fields} {g : ι → α}
    (h : ∀ x ∈ items, ReadsBack d (f x) (g x)) :
    ReadsBack (.times items.length d) (items.flatMap f) (items.map g) := by
  rw [Decoder.times, ← List.map_const']
  exact .flatMap (fun _ => ()) h

theorem readsBack_row {ι : Type} {items : List ι} {width : Nat} {value : ι → Nat}
    (hwidth : width ≤ 32) (h : ∀ x ∈ items, value x < 2 ^ width) :
    ReadsBack (.times items.length (.field width)) (items.map fun x => ⟨value x, width⟩)
      (items.map value) := by
  have hrow : (items.map fun x => (⟨value x, width⟩ : Field)) =
      items.flatMap fun x => [⟨value x, width⟩] := List.map_eq_flatMap
  rw [hrow]
  exact .times fun x hx => readsBack_field hwidth (h x hx)

theorem ReadsBack.run (h : ReadsBack d fs a) (rest : List Bool) :
    d.run ⟨0, fs.emit.bits ++ rest⟩ = some (a, ⟨fs.cost, rest⟩) := by
  rw [h.decodes.run, Fields.length_emit, Nat.zero_add]

end ReadsBack

end SpectralCoding
