import SpectralCoding.Codeword
import SpectralCoding.Proofs.Bits.EmissionParts
import SpectralCoding.Proofs.Bits.Reading

/-!
# Decoders

A decoder reads one value after the other and decides by what it has read what to read next. It
undoes an emission if it takes exactly the bits of it, whatever follows them, so that decoders for
the parts of an emission make up a decoder for the whole.

* `Decoder` : a computation on a reader, which may find nothing.
* `Decoder.field`, `Decoder.positive`, `Decoder.signed`, `Decoder.flag`, `Decoder.expect` : single
  fields.
* `Decoder.word`, `Codeword.IsPrefixFree` : a word of a code book in which none begins another.
* `Decoder.times` : the same over and over.
* `Decodes` : a decoder undoes an emission.
* `Decodes.bind`, `Decodes.mapM`, `Decodes.times` : one part after the other.
* `Decodes.unique` : what one decoder undoes is told apart by its bits.
-/

namespace SpectralCoding

namespace Codeword

/-- The bits of a word. -/
def bits (w : Codeword) : List Bool := Bits.ofNat w.width w.code

/-- The word begins a bit string. The word of no symbol begins none. -/
def begins (w : Codeword) (stream : List Bool) : Bool := w.width != 0 && w.bits.isPrefixOf stream

/-- Neither of two words begins the other, unless one is the word of no symbol. -/
def Apart (v w : Codeword) : Prop := v.begins w.bits = false ∧ w.begins v.bits = false

instance (v w : Codeword) : Decidable (Apart v w) :=
  inferInstanceAs (Decidable (_ ∧ _))

/-- No word of a book begins another. -/
def IsPrefixFree (book : List Codeword) : Prop := book.Pairwise Apart

instance (book : List Codeword) : Decidable (IsPrefixFree book) :=
  inferInstanceAs (Decidable (book.Pairwise Apart))

theorem begins_eq_true {w : Codeword} {stream : List Bool} :
    w.begins stream = true ↔ w.width ≠ 0 ∧ w.bits <+: stream := by
  simp [begins]

/-- Of two words that are apart, only one begins a bit string. -/
theorem Apart.not_begins {v w : Codeword} (h : v.Apart w) {stream : List Bool}
    (hw : w.begins stream = true) : v.begins stream = false := by
  rw [Bool.eq_false_iff]
  intro hv
  obtain ⟨hvpos, hv⟩ := begins_eq_true.1 hv
  obtain ⟨hwpos, hw⟩ := begins_eq_true.1 hw
  rcases List.prefix_or_prefix_of_prefix hv hw with hprefix | hprefix
  · exact Bool.eq_false_iff.1 h.1 (begins_eq_true.2 ⟨hvpos, hprefix⟩)
  · exact Bool.eq_false_iff.1 h.2 (begins_eq_true.2 ⟨hwpos, hprefix⟩)

end Codeword

/-- A computation on a reader: what it finds and the reader behind it, or nothing. -/
abbrev Decoder (α : Type) : Type := StateT BitReader Option α

namespace Decoder

/-- Read a field of `width` bits. -/
def field (width : Nat) : Decoder Nat := fun r => (r.read width).toOption

/-- Read a field of `width` bits that holds a number less one. -/
def positive (width : Nat) : Decoder Nat := (· + 1) <$> field width

/-- Read a field of `width` bits in two's complement. -/
def signed (width : Nat) : Decoder Int := fun r => (r.readSigned width).toOption

/-- Read a flag. -/
def flag : Decoder Bool := (· != 0) <$> field 1

/-- Read a field that can hold nothing but `v`. -/
def expect (width v : Nat) : Decoder Unit := do guard ((← field width) = v)

/-- Read the word of a book that the bits ahead begin with. What is found is its place. -/
def word (book : List Codeword) : Decoder Nat := fun r =>
  (book.findIdx? (·.begins r.unread)).map fun place =>
    (place, r.advance (book.getD place .none).width)

/-- The same decoder `count` times. -/
def times {α : Type} (count : Nat) (d : Decoder α) : Decoder (List α) :=
  (List.replicate count ()).mapM fun _ => d

end Decoder

/-- A decoder undoes an emission of `a`: the emission has no fault, and the decoder takes its bits
for `a`, whatever follows them. -/
structure Decodes {α : Type} (d : Decoder α) (e : Emission) (a : α) : Prop where
  clean : e.fault = none
  run : ∀ n rest, d.run ⟨n, e.bits ++ rest⟩ = some (a, ⟨n + e.bits.length, rest⟩)

variable {α β : Type} {d : Decoder α} {e : Emission} {a : α}

/-! ### Single fields -/

theorem decodes_field {width v : Nat} (hwidth : width ≤ 32) (hv : v < 2 ^ width) :
    Decodes (.field width) (.field width v) v := by
  refine ⟨rfl, fun n rest => ?_⟩
  have hread := BitReader.read_field_mod hwidth v n rest
  rw [Nat.mod_eq_of_lt hv] at hread
  rw [Emission.bits_field, Bits.length_ofNat]
  exact congrArg Except.toOption hread

theorem decodes_signed {width : Nat} {v : Int} (hpos : 0 < width) (hwidth : width ≤ 32)
    (hle : -2 ^ (width - 1) ≤ v) (hlt : v < 2 ^ (width - 1)) :
    Decodes (.signed width) (.signed width v) v := by
  refine ⟨rfl, fun n rest => ?_⟩
  have hread := BitReader.readSigned_field hpos hwidth v n rest
  rw [Bits.toInt_ofInt hpos hle hlt] at hread
  rw [Emission.bits_signed, Bits.length_ofInt]
  exact congrArg Except.toOption hread

/-- The word at a place of a book is read as that place. -/
theorem decodes_word {book : List Codeword} (hfree : Codeword.IsPrefixFree book) {place : Nat}
    {w : Codeword} (hw : book[place]? = some w) (hpos : w.width ≠ 0) :
    Decodes (.word book) (.field w.width w.code) place := by
  refine ⟨rfl, fun n rest => ?_⟩
  obtain ⟨hplace, rfl⟩ := List.getElem?_eq_some_iff.1 hw
  have hbegins : book[place].begins (book[place].bits ++ rest) = true :=
    Codeword.begins_eq_true.2 ⟨hpos, List.prefix_append ..⟩
  have hfound : book.findIdx? (·.begins (book[place].bits ++ rest)) = some place := by
    refine List.findIdx?_eq_some_iff_getElem.2 ⟨hplace, hbegins, ?_⟩
    intro j hj
    have hapart : book[j].Apart book[place] := List.pairwise_iff_getElem.1 hfree j place _ _ hj
    simp [hapart.not_begins hbegins]
  have hrun : (Decoder.word book).run ⟨n, book[place].bits ++ rest⟩ =
      some (place, BitReader.advance ⟨n, book[place].bits ++ rest⟩ (book.getD place .none).width) :=
    congrArg (Option.map _) hfound
  have hlength : book[place].bits.length = book[place].width := Bits.length_ofNat ..
  rw [List.getD_eq_getElem?_getD, hw, Option.getD_some, BitReader.advance, ← hlength,
    List.drop_left] at hrun
  exact hrun

/-! ### One part after the other -/

theorem Decodes.pure (a : α) : Decodes (pure a) .empty a := ⟨rfl, fun _ _ => rfl⟩

/-- What is read first decides how the rest is read. -/
theorem Decodes.bind (hd : Decodes d e a) {f : α → Decoder β} {e' : Emission} {b : β}
    (hf : Decodes (f a) e' b) : Decodes (d >>= f) (e ++ e') b := by
  refine ⟨Emission.fault_append_eq_none.2 ⟨hd.clean, hf.clean⟩, fun n rest => ?_⟩
  rw [Emission.bits_append_of_clean hd.clean, List.append_assoc, StateT.run_bind, hd.run,
    List.length_append, ← Nat.add_assoc]
  exact hf.run ..

theorem Decodes.map (hd : Decodes d e a) (f : α → β) : Decodes (f <$> d) e (f a) := by
  refine ⟨hd.clean, fun n rest => ?_⟩
  rw [StateT.run_map, hd.run]
  rfl

theorem Decodes.bind_pure (hd : Decodes d e a) (f : α → β) :
    Decodes (d >>= fun x => Pure.pure (f x)) e (f a) := by
  rw [bind_pure_comp]
  exact hd.map f

theorem decodes_positive {width v : Nat} (hwidth : width ≤ 32) (hpos : 0 < v) (hv : v ≤ 2 ^ width) :
    Decodes (.positive width) (.field width (v - 1)) v := by
  have hmap := (decodes_field hwidth (Nat.sub_one_lt_of_le hpos hv)).map (· + 1)
  rwa [Nat.sub_add_cancel hpos] at hmap

theorem decodes_flag (b : Bool) : Decodes .flag (.flag b) b := by
  cases b with
  | false => exact (decodes_field (v := 0) (by decide) (by decide)).map (· != 0)
  | true => exact (decodes_field (v := 1) (by decide) (by decide)).map (· != 0)

theorem decodes_expect {width v : Nat} (hwidth : width ≤ 32) (hv : v < 2 ^ width) :
    Decodes (.expect width v) (.field width v) () := by
  have hpure : (guard (v = v) : Decoder Unit) = pure () := if_pos rfl
  have hguard : Decodes (guard (v = v)) .empty () := by
    rw [hpure]
    exact .pure ()
  have hread := (decodes_field hwidth hv).bind (f := fun found => guard (found = v)) hguard
  rwa [Emission.append_empty] at hread

theorem Decodes.mapM {ι κ : Type} {items : List ι} (known : ι → κ) {d : κ → Decoder α}
    {f : ι → Emission} {g : ι → α} (h : ∀ x ∈ items, Decodes (d (known x)) (f x) (g x)) :
    Decodes ((items.map known).mapM d) (.each items f) (items.map g) := by
  induction items with
  | nil => exact .pure []
  | cons x items ih =>
    obtain ⟨hx, hitems⟩ := List.forall_mem_cons.1 h
    rw [List.map_cons, List.mapM_cons]
    exact hx.bind ((ih hitems).bind_pure (g x :: ·))

theorem Decodes.times {ι : Type} {items : List ι} {f : ι → Emission} {g : ι → α}
    (h : ∀ x ∈ items, Decodes d (f x) (g x)) :
    Decodes (.times items.length d) (.each items f) (items.map g) := by
  rw [Decoder.times, ← List.map_const']
  exact .mapM (fun _ => ()) h

theorem Decodes.times_self {items : List α} {f : α → Emission}
    (h : ∀ x ∈ items, Decodes d (f x) x) :
    Decodes (.times items.length d) (.each items f) items := by
  have htimes := Decodes.times (g := id) h
  rwa [List.map_id] at htimes

/-- **What one decoder undoes is told apart by its bits**, whatever is appended to them. -/
theorem Decodes.unique (h : Decodes d e a) {e' : Emission} {a' : α} (h' : Decodes d e' a')
    {rest rest' : List Bool} (hbits : e.bits ++ rest = e'.bits ++ rest') :
    a = a' ∧ e.bits = e'.bits := by
  have hrun := (h.run 0 rest).symm.trans (hbits ▸ h'.run 0 rest')
  simp only [Option.some.injEq, Prod.mk.injEq, BitReader.mk.injEq] at hrun
  obtain ⟨hvalue, hlength, -⟩ := hrun
  exact ⟨hvalue, List.append_inj_left hbits (by omega)⟩

end SpectralCoding
