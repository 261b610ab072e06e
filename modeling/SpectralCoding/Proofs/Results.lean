import Mathlib.Data.List.Forall2
import SpectralCoding.Parameters
import SpectralCoding.Sink
import SpectralCoding.Spectrum

/-!
# Results and failures

* `of_bind_eq_error`, `of_bind_eq_ok`, `bind_congr_of_ok`, `of_map_eq_ok`,
  `exists_of_mapM_eq_error`, `forall₂_of_mapM_eq_ok` : how computations in a row end.
* `IsOpening` : openings that are refused or do not depend on what was before.
* `Parameters.check_eq_ok` : what has passed the checks that all encoders share.
* `SpectralFrame.refusal` : why an encoder refuses a frame before it hears it.
* `Sink.kind_of_write` : a sink fails for reasons of its device only.
* `IsAllOrNothing` : packets of the right sizes are handed over, or none at all.
-/

namespace SpectralCoding

variable {α β ε : Type} {f : α → Except ε β} {cause : ε}

theorem of_bind_eq_error {x : Except ε α} (h : x >>= f = .error cause) :
    x = .error cause ∨ ∃ a, x = .ok a ∧ f a = .error cause := by
  cases x with
  | error cause' =>
    obtain rfl : cause' = cause := Except.error.inj h
    exact .inl rfl
  | ok a => exact .inr ⟨a, rfl, h⟩

theorem of_bind_eq_ok {x : Except ε α} {b : β} (h : x >>= f = .ok b) :
    ∃ a, x = .ok a ∧ f a = .ok b := by
  cases x with
  | error cause => cases h
  | ok a => exact ⟨a, rfl, h⟩

/-- What follows a computation matters only on what the computation can find. -/
theorem bind_congr_of_ok {x : Except ε α} {g : α → Except ε β} (h : ∀ a, x = .ok a → f a = g a) :
    x >>= f = x >>= g := by
  cases x with
  | error cause => rfl
  | ok a => exact h a rfl

theorem of_map_eq_ok {g : α → β} {x : Except ε α} {b : β} (h : x.map g = .ok b) :
    ∃ a, x = .ok a ∧ g a = b := by
  cases x with
  | error cause => cases h
  | ok a => exact ⟨a, rfl, Except.ok.inj h⟩

theorem of_map_id_eq {γ : Type} {g : β → γ} {x : α × β} {a : α} {c : γ}
    (h : x.map id g = (a, c)) : ∃ b, x = (a, b) ∧ g b = c := by
  obtain ⟨a', b⟩ := x
  obtain ⟨rfl, hb⟩ := Prod.mk.inj h
  exact ⟨b, rfl, hb⟩

theorem exists_of_mapM_eq_error {as : List α} (h : as.mapM f = .error cause) :
    ∃ a ∈ as, f a = .error cause := by
  induction as with
  | nil => cases h
  | cons a as ih =>
    rw [List.mapM_cons] at h
    rcases of_bind_eq_error h with ha | ⟨b, -, h⟩
    · exact ⟨a, List.mem_cons_self, ha⟩
    · rcases of_bind_eq_error h with has | ⟨bs, -, h⟩
      · obtain ⟨a', hmem, ha'⟩ := ih has
        exact ⟨a', List.mem_cons_of_mem a hmem, ha'⟩
      · cases h

/-- A row of computations that succeeds has the results of all of them. -/
theorem forall₂_of_mapM_eq_ok {as : List α} {bs : List β} (h : as.mapM f = .ok bs) :
    List.Forall₂ (fun a b => f a = .ok b) as bs := by
  induction as generalizing bs with
  | nil =>
    obtain rfl := Except.ok.inj h
    exact .nil
  | cons a as ih =>
    rw [List.mapM_cons] at h
    obtain ⟨b, hb, h⟩ := of_bind_eq_ok h
    obtain ⟨bs', hbs, h⟩ := of_bind_eq_ok h
    obtain rfl := Except.ok.inj h
    exact .cons hb (ih hbs)

/-! ### Openings -/

/-- An opening is refused and leaves an encoder alone, or it makes an encoder of which `P` is true,
whatever encoder there was. -/
def IsOpening {σ : Type} (act : σ → Except Error Unit × σ) (P : σ → Prop) : Prop :=
  (∃ cause, ∀ e, act e = (.error cause, e)) ∨ ∃ opened, P opened ∧ ∀ e, act e = (.ok (), opened)

namespace IsOpening

variable {σ : Type} {act : σ → Except Error Unit × σ} {P : σ → Prop} {e opened : σ} {cause : Error}

theorem of_eq_ok (h : IsOpening act P) (hok : act e = (.ok (), opened)) : P opened := by
  obtain ⟨cause, hrefused⟩ | ⟨new, hnew, hopen⟩ := h
  · cases (hrefused e).symm.trans hok
  · obtain rfl := congrArg Prod.snd ((hopen e).symm.trans hok)
    exact hnew

theorem of_refused (h : IsOpening act P) (hrefused : (act e).1 = .error cause) :
    act e = (.error cause, e) := by
  obtain ⟨cause', hall⟩ | ⟨new, -, hopen⟩ := h
  · rw [hall] at hrefused ⊢
    exact congrArg (·, e) hrefused
  · rw [hopen] at hrefused
    cases hrefused

/-- What comes of an opening does not depend on the encoder there was. -/
theorem of_ok (h : IsOpening act P) (hok : act e = (.ok (), opened)) (e' : σ) :
    act e' = (.ok (), opened) := by
  obtain ⟨cause, hrefused⟩ | ⟨new, -, hopen⟩ := h
  · cases (hrefused e).symm.trans hok
  · rw [hopen e', ← hok, hopen e]

end IsOpening

/-- What has passed the checks that all encoders share. -/
theorem Parameters.check_eq_ok {p : Parameters} {codec : CodecId} (h : p.check codec = .ok ()) :
    p.codec = codec ∧ 1 ≤ p.channels ∧ p.channels ≤ 2 := by
  unfold Parameters.check at h
  split at h
  · cases h
  · split at h
    · cases h
    · split at h
      · cases h
      · rename_i hcodec _ hchannels
        exact ⟨Decidable.not_not.1 hcodec, by omega, by omega⟩

/-- Why a frame is refused unheard, if it is: the encoder is not open, it is open for another number
of channels, or a check of its own fails. -/
def SpectralFrame.refusal (frame : SpectralFrame) (codec : CodecId) (channels : Option Nat)
    (check : Option Error) : Option Error :=
  match channels with
  | none => some (.notOpen codec)
  | some count =>
    if frame.channels.length ≠ count then some (.channelCount count frame.channels.length)
    else check

theorem SpectralFrame.refusal_eq_none {frame : SpectralFrame} {codec : CodecId}
    {channels : Option Nat} {check : Option Error}
    (h : frame.refusal codec channels check = none) :
    channels = some frame.channels.length ∧ check = none := by
  unfold SpectralFrame.refusal at h
  cases channels with
  | none => cases h
  | some count =>
    dsimp only at h
    by_cases hcount : frame.channels.length = count
    · rw [if_neg (Decidable.not_not.2 hcount)] at h
      exact ⟨congrArg some hcount.symm, h⟩
    · rw [if_pos hcount] at h
      cases h

theorem SpectralFrame.refusal_eq_some {frame : SpectralFrame} {codec : CodecId}
    {channels : Option Nat} {check : Option Error} {cause : Error}
    (h : frame.refusal codec channels check = some cause) :
    channels = none ∧ cause = .notOpen codec ∨
      (∃ count, channels = some count ∧ frame.channels.length ≠ count ∧
        cause = .channelCount count frame.channels.length) ∨
      channels = some frame.channels.length ∧ check = some cause := by
  unfold SpectralFrame.refusal at h
  cases channels with
  | none => exact .inl ⟨rfl, (Option.some.inj h).symm⟩
  | some count =>
    dsimp only at h
    by_cases hcount : frame.channels.length = count
    · rw [if_neg (Decidable.not_not.2 hcount)] at h
      exact .inr (.inr ⟨congrArg some hcount.symm, h⟩)
    · rw [if_pos hcount] at h
      exact .inr (.inl ⟨count, rfl, hcount, (Option.some.inj h).symm⟩)

theorem Sink.kind_of_write {sink : Sink} {bytes : List UInt8} {cause : Error}
    (h : (sink.write bytes).1 = .error cause) : cause.kind = .io := by
  cases sink with
  | packets memory => cases h
  | device device =>
    simp only [Sink.write, ByteSink.write] at h
    split at h
    · obtain rfl := Except.error.inj h
      unfold ByteSink.fullError
      cases device.refusal <;> rfl
    · cases h

/-- Either packets of the given sizes are handed over, or the result is a failure and none is. -/
def IsAllOrNothing (sizes : List Nat) (memory : PacketSink) :
    (result : Except Error Unit) → (sink : Sink) → Prop
  | .ok (), sink => ∃ packets : List (List UInt8), packets.map List.length = sizes ∧
      sink = .packets (packets.foldl PacketSink.write memory)
  | .error _, sink => sink = .packets memory

theorem isAllOrNothing_single {size : Nat} (memory : PacketSink) {bytes : List UInt8}
    (h : bytes.length = size) :
    IsAllOrNothing [size] memory (.ok ()) (.packets (memory.write bytes)) :=
  ⟨[bytes], by rw [List.map_singleton, h], rfl⟩

theorem not_isAllOrNothing_of_write (sizes : List Nat) (memory : PacketSink) (bytes : List UInt8)
    (cause : Error) :
    ¬IsAllOrNothing sizes memory (.error cause) (.packets (memory.write bytes)) := by
  intro h
  have hpackets := congrArg (·.packets.length) (Sink.packets.inj h)
  simp [PacketSink.write] at hpackets

end SpectralCoding
