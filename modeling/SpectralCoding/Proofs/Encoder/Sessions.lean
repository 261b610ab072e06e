import SpectralCoding.Encoder
import SpectralCoding.Proofs.Atrac1.Encoding
import SpectralCoding.Proofs.Atrac3.Encoding
import SpectralCoding.Proofs.Atrac3Plus.Encoding

/-!
# Sessions

An encoder is opened, given frames and reset, in any order and with any success. All it carries from
one frame to the next is the loudness estimate: what its stages remember and where their search
stands is overwritten before it is read. So an encoder that is opened again, or reset, is as good as
a new one.

* `Encoder.refusal`, `Encoder.hearing` : why a frame is refused unheard; the encoder that has heard
  it.
* `Encoder.outline` : an encoder with nothing left of earlier frames.
* `Encoder.encodeFrames`, `Encoder.encodeFrames_of_cleared_eq` : frames one after the other, and
  what they do not depend on.
* `Session`, `Session.after` : an encoder in use.
* `Session.origin_after` : outlined, an encoder is a new one opened with the parameters last taken
  on.
* `Session.encodeFrames_of_history` : **nothing survives opening or a reset, and a refused opening
  changes nothing.**
-/

namespace SpectralCoding

/-! ### Encoders of any codec -/

namespace Encoder

/-- Why a frame is refused unheard, if it is. -/
def refusal : Encoder → SpectralFrame → Option Error
  | atrac1 e, frame => e.refusal frame
  | atrac3 e, frame => e.refusal frame
  | atrac3Plus e, frame => e.refusal frame

/-- The encoder once it has heard a frame. -/
def hearing : Encoder → SpectralFrame → Encoder
  | atrac1 e, frame => atrac1 (e.hearing frame)
  | atrac3 e, frame => atrac3 (e.hearing frame)
  | atrac3Plus e, frame => atrac3Plus (e.hearing frame)

/-- The encoder with nothing left of earlier frames but what was heard. -/
def cleared : Encoder → Encoder
  | atrac1 e => atrac1 e.cleared
  | atrac3 e => atrac3 e
  | atrac3Plus e => atrac3Plus e.cleared

/-- The encoder with nothing left of earlier frames. -/
def outline (e : Encoder) : Encoder := e.cleared.reset

/-- The encoder has its stages. -/
def IsWhole : Encoder → Prop
  | atrac1 e => e.IsWhole
  | atrac3 e => e.IsWhole
  | atrac3Plus e => e.IsWhole

/-- Frames encoded one after the other: how each of them ended, and the sink afterwards. -/
def encodeFrames : Encoder → List SpectralFrame → Sink → List (Except Error Unit) × Sink
  | _, [], sink => ([], sink)
  | e, frame :: frames, sink =>
    let (result, e, sink) := e.encodeFrame frame sink
    let (results, sink) := e.encodeFrames frames sink
    (result :: results, sink)

variable {e e' opened : Encoder} {frame : SpectralFrame} {p : Parameters} {cause : Error}

@[simp] theorem codec_outline (e : Encoder) : e.outline.codec = e.codec := by
  cases e <;> rfl

theorem refusal_cleared (e : Encoder) (frame : SpectralFrame) :
    e.cleared.refusal frame = e.refusal frame := by
  cases e <;> rfl

theorem cleared_hearing (e : Encoder) (frame : SpectralFrame) :
    (e.hearing frame).cleared = e.cleared.hearing frame := by
  cases e <;> rfl

theorem outline_hearing (e : Encoder) (frame : SpectralFrame) :
    (e.hearing frame).outline = e.outline := by
  cases e <;> rfl

theorem cleared_reset (e : Encoder) : e.reset.cleared = e.outline := by
  cases e <;> rfl

theorem outline_reset (e : Encoder) : e.reset.outline = e.outline := by
  cases e <;> rfl

theorem cleared_outline (e : Encoder) : e.outline.cleared = e.outline.outline := by
  cases e <;> rfl

theorem isWhole_of_outline (h : e.outline.IsWhole) : e.IsWhole := by
  cases e with
  | atrac1 e => exact Atrac1.Encoder.isWhole_of_outline h
  | atrac3 e => exact h
  | atrac3Plus e => exact Atrac3Plus.Encoder.isWhole_of_outline h

/-! ### Opening -/

theorem openWith_of_codec_eq (h : e.codec = e'.codec) (hok : e.openWith p = (.ok (), opened)) :
    e'.openWith p = (.ok (), opened) := by
  cases e with
  | atrac1 e =>
    obtain ⟨opened, hopened, rfl⟩ := of_map_id_eq hok
    cases e' with
    | atrac1 e' =>
      exact congrArg (Prod.map id atrac1)
        ((Atrac1.Encoder.isOpening_openWith p).of_ok hopened e')
    | atrac3 | atrac3Plus => cases h
  | atrac3 e =>
    obtain ⟨opened, hopened, rfl⟩ := of_map_id_eq hok
    cases e' with
    | atrac3 e' =>
      exact congrArg (Prod.map id atrac3)
        ((Atrac3.Encoder.isOpening_openWith p).of_ok hopened e')
    | atrac1 | atrac3Plus => cases h
  | atrac3Plus e =>
    obtain ⟨opened, hopened, rfl⟩ := of_map_id_eq hok
    cases e' with
    | atrac3Plus e' =>
      exact congrArg (Prod.map id atrac3Plus)
        ((Atrac3Plus.Encoder.isOpening_openWith p).of_ok hopened e')
    | atrac1 | atrac3 => cases h

theorem openWith_of_refused (h : (e.openWith p).1 = .error cause) :
    e.openWith p = (.error cause, e) := by
  cases e with
  | atrac1 e =>
    exact congrArg (Prod.map id atrac1) ((Atrac1.Encoder.isOpening_openWith p).of_refused h)
  | atrac3 e =>
    exact congrArg (Prod.map id atrac3) ((Atrac3.Encoder.isOpening_openWith p).of_refused h)
  | atrac3Plus e =>
    exact congrArg (Prod.map id atrac3Plus) ((Atrac3Plus.Encoder.isOpening_openWith p).of_refused h)

theorem openWith_cases (e : Encoder) (p : Parameters) :
    (∃ cause, e.openWith p = (.error cause, e)) ∨ ∃ opened, e.openWith p = (.ok (), opened) := by
  cases hresult : (e.openWith p).1 with
  | error cause => exact .inl ⟨cause, openWith_of_refused hresult⟩
  | ok => exact .inr ⟨_, Prod.ext hresult rfl⟩

/-- An encoder that takes on parameters has its stages, and nothing is left of earlier frames. -/
theorem of_openWith_eq_ok (h : e.openWith p = (.ok (), opened)) :
    opened.codec = e.codec ∧ opened.IsWhole ∧ opened.outline = opened := by
  cases e with
  | atrac1 e =>
    obtain ⟨opened, hopened, rfl⟩ := of_map_id_eq h
    exact ⟨rfl, Atrac1.Encoder.isWhole_opened hopened,
      congrArg atrac1 (Atrac1.Encoder.outline_opened hopened)⟩
  | atrac3 e =>
    obtain ⟨opened, hopened, rfl⟩ := of_map_id_eq h
    refine ⟨rfl, Atrac3.Encoder.isWhole_opened hopened, ?_⟩
    obtain ⟨options, profile, -, -, -, -, -, rfl⟩ := Atrac3.Encoder.openWith_eq_ok hopened
    rfl
  | atrac3Plus e =>
    obtain ⟨opened, hopened, rfl⟩ := of_map_id_eq h
    exact ⟨rfl, Atrac3Plus.Encoder.isWhole_opened hopened,
      congrArg atrac3Plus (Atrac3Plus.Encoder.outline_opened hopened)⟩

theorem isWhole_closed (codec : CodecId) : (closed codec).IsWhole := by
  cases codec with
  | atrac1 => exact Atrac1.Encoder.isWhole_closed
  | atrac3 => exact Atrac3.Encoder.isWhole_closed
  | atrac3Plus => exact Atrac3Plus.Encoder.isWhole_closed

theorem outline_closed (codec : CodecId) : (closed codec).outline = closed codec := by
  cases codec <;> rfl

/-! ### Frames -/

theorem encodeFrame_of_refusal (h : e.refusal frame = some cause) (sink : Sink) :
    e.encodeFrame frame sink = (.error cause, e, sink) := by
  cases e with
  | atrac1 e => simp only [encodeFrame, Atrac1.Encoder.encodeFrame_of_refusal h]
  | atrac3 e => simp only [encodeFrame, Atrac3.Encoder.encodeFrame_of_refusal h]
  | atrac3Plus e => simp only [encodeFrame, Atrac3Plus.Encoder.encodeFrame_of_refusal h]

theorem cleared_encodeFrame (he : e.IsWhole) (h : e.refusal frame = none) (sink : Sink) :
    (e.encodeFrame frame sink).2.1.cleared = (e.hearing frame).cleared := by
  cases e with
  | atrac1 e => exact congrArg atrac1 (Atrac1.Encoder.cleared_encodeFrame he h sink)
  | atrac3 e => exact congrArg atrac3 (Atrac3.Encoder.encoder_encodeFrame h sink)
  | atrac3Plus e => exact congrArg atrac3Plus (Atrac3Plus.Encoder.cleared_encodeFrame he h sink)

theorem encodeFrame_of_cleared_eq (he : e.IsWhole) (heq : e.cleared = e'.cleared)
    (frame : SpectralFrame) (sink : Sink) :
    (e.encodeFrame frame sink).1 = (e'.encodeFrame frame sink).1 ∧
      (e.encodeFrame frame sink).2.2 = (e'.encodeFrame frame sink).2.2 := by
  cases e with
  | atrac1 e =>
    cases e' with
    | atrac1 e' =>
      exact Atrac1.Encoder.encodeFrame_of_cleared_eq he (atrac1.inj heq) frame sink
    | atrac3 | atrac3Plus => cases heq
  | atrac3 e =>
    cases e' with
    | atrac3 e' =>
      obtain rfl := atrac3.inj heq
      exact ⟨rfl, rfl⟩
    | atrac1 | atrac3Plus => cases heq
  | atrac3Plus e =>
    cases e' with
    | atrac3Plus e' =>
      exact Atrac3Plus.Encoder.encodeFrame_of_cleared_eq he (atrac3Plus.inj heq) frame sink
    | atrac1 | atrac3 => cases heq

theorem cleared_encodeFrame_of_cleared_eq (he : e.IsWhole) (he' : e'.IsWhole)
    (heq : e.cleared = e'.cleared) (frame : SpectralFrame) (sink : Sink) :
    (e.encodeFrame frame sink).2.1.cleared = (e'.encodeFrame frame sink).2.1.cleared := by
  have hrefusal : e.refusal frame = e'.refusal frame := by
    rw [← refusal_cleared, heq, refusal_cleared]
  cases hheard : e.refusal frame with
  | some cause =>
    rw [encodeFrame_of_refusal hheard, encodeFrame_of_refusal (hrefusal ▸ hheard)]
    exact heq
  | none =>
    rw [cleared_encodeFrame he hheard, cleared_encodeFrame he' (hrefusal ▸ hheard),
      cleared_hearing, heq, cleared_hearing]

theorem outline_encodeFrame (he : e.IsWhole) (frame : SpectralFrame) (sink : Sink) :
    (e.encodeFrame frame sink).2.1.outline = e.outline := by
  cases hheard : e.refusal frame with
  | some cause => rw [encodeFrame_of_refusal hheard]
  | none =>
    rw [outline, cleared_encodeFrame he hheard]
    exact outline_hearing e frame

theorem isWhole_encodeFrame (he : e.outline.IsWhole) (frame : SpectralFrame) (sink : Sink) :
    (e.encodeFrame frame sink).2.1.outline.IsWhole := by
  rwa [outline_encodeFrame (isWhole_of_outline he)]

/-- **Encoders that differ in what is left of earlier frames deal with all frames to come
alike.** -/
theorem encodeFrames_of_cleared_eq (he : e.outline.IsWhole) (heq : e.cleared = e'.cleared)
    (frames : List SpectralFrame) (sink : Sink) :
    e.encodeFrames frames sink = e'.encodeFrames frames sink := by
  have houtline : e.outline = e'.outline := congrArg reset heq
  -- a frame does not change the outline, which says that both encoders have their stages
  induction frames generalizing e e' sink with
  | nil => rfl
  | cons frame frames ih =>
    have hwhole := isWhole_of_outline he
    have hwhole' : e'.IsWhole := isWhole_of_outline (houtline ▸ he)
    obtain ⟨hresult, hsink⟩ := encodeFrame_of_cleared_eq hwhole heq frame sink
    have hcleared := cleared_encodeFrame_of_cleared_eq hwhole hwhole' heq frame sink
    have hnext := isWhole_encodeFrame he frame sink
    simp only [encodeFrames]
    rw [hresult, hsink, ih hnext hcleared _ (congrArg reset hcleared)]

end Encoder

/-! ### Sessions -/

/-- A request to an encoder. -/
inductive Call where
  | openWith (p : Parameters)
  | encodeFrame (frame : SpectralFrame) (sink : Sink)
  | reset

/-- An encoder in use. -/
structure Session where
  encoder : Encoder
  /-- The parameters last taken on. -/
  parameters : Option Parameters := none

namespace Session

/-- The session after a request. -/
def call (s : Session) : Call → Session
  | .openWith p =>
    match s.encoder.openWith p with
    | (.error _, encoder) => { s with encoder }
    | (.ok (), encoder) => { encoder, parameters := some p }
  | .encodeFrame frame sink => { s with encoder := (s.encoder.encodeFrame frame sink).2.1 }
  | .reset => { s with encoder := s.encoder.reset }

/-- The session with an encoder not opened before, after requests. -/
def after (codec : CodecId) (calls : List Call) : Session :=
  calls.foldl call { encoder := .closed codec }

/-- A new encoder that has taken on the parameters, if there are any. -/
def origin (codec : CodecId) : Option Parameters → Except Error Unit × Encoder
  | none => (.ok (), .closed codec)
  | some p => (Encoder.closed codec).openWith p

variable {codec : CodecId} {parameters : Option Parameters} {e opened : Encoder} {s : Session}
  {p : Parameters}

theorem of_origin_eq_ok (h : origin codec parameters = (.ok (), e)) :
    e.codec = codec ∧ e.IsWhole ∧ e.outline = e := by
  cases parameters with
  | none =>
    obtain rfl := congrArg Prod.snd h
    exact ⟨Encoder.codec_closed codec, Encoder.isWhole_closed codec, Encoder.outline_closed codec⟩
  | some p =>
    obtain ⟨hcodec, hwhole, houtline⟩ := Encoder.of_openWith_eq_ok h
    exact ⟨hcodec.trans (Encoder.codec_closed codec), hwhole, houtline⟩

theorem openWith_of_origin (h : origin codec s.parameters = (.ok (), s.encoder.outline))
    (hok : s.encoder.openWith p = (.ok (), opened)) :
    (Encoder.closed codec).openWith p = (.ok (), opened) := by
  refine Encoder.openWith_of_codec_eq ?_ hok
  rw [Encoder.codec_closed, ← (of_origin_eq_ok h).1, Encoder.codec_outline]

/-- A request leaves an encoder that, outlined, is a new one opened with the parameters last taken
on. -/
theorem origin_call (h : origin codec s.parameters = (.ok (), s.encoder.outline)) (c : Call) :
    origin codec (s.call c).parameters = (.ok (), (s.call c).encoder.outline) := by
  cases c with
  | openWith p =>
    obtain ⟨cause, hrefused⟩ | ⟨opened, hopen⟩ := s.encoder.openWith_cases p
    · simp only [call, hrefused]
      exact h
    · simp only [call, hopen, (Encoder.of_openWith_eq_ok hopen).2.2]
      exact openWith_of_origin h hopen
  | encodeFrame frame sink =>
    have hwhole := Encoder.isWhole_of_outline (of_origin_eq_ok h).2.1
    exact (Encoder.outline_encodeFrame hwhole frame sink).symm ▸ h
  | reset => exact (Encoder.outline_reset s.encoder).symm ▸ h

/-- **Whatever was asked of an encoder, outlined it is a new one opened with the parameters last
taken on.** -/
theorem origin_after (codec : CodecId) (calls : List Call) :
    origin codec (after codec calls).parameters =
      (.ok (), (after codec calls).encoder.outline) := by
  refine List.foldlRecOn (motive := fun s : Session =>
    origin codec s.parameters = (.ok (), s.encoder.outline)) calls call ?_ ?_
  · rw [Encoder.outline_closed]
    rfl
  · exact fun s hs c _ => origin_call hs c

theorem after_append (codec : CodecId) (calls later : List Call) :
    after codec (calls ++ later) = later.foldl call (after codec calls) :=
  List.foldl_append

/-- **Nothing survives opening or a reset: all frames to come end as with a new encoder, and the
same packets are handed over. A refused opening changes nothing.** -/
theorem encodeFrames_of_history (codec : CodecId) (calls : List Call) (p : Parameters) :
    (((after codec calls).encoder.openWith p).1 = .ok () →
      ∃ new, (Encoder.closed codec).openWith p = (.ok (), new) ∧ ∀ frames sink,
        (after codec (calls ++ [.openWith p])).encoder.encodeFrames frames sink =
          new.encodeFrames frames sink) ∧
    ((after codec calls).parameters = some p →
      ∃ new, (Encoder.closed codec).openWith p = (.ok (), new) ∧ ∀ frames sink,
        (after codec (calls ++ [.reset])).encoder.encodeFrames frames sink =
          new.encodeFrames frames sink) ∧
    ∀ cause, ((after codec calls).encoder.openWith p).1 = .error cause →
      ∀ later, after codec (calls ++ .openWith p :: later) = after codec (calls ++ later) := by
  have horigin := origin_after codec calls
  refine ⟨?_, ?_, ?_⟩
  · intro hok
    obtain ⟨opened, hopen⟩ : ∃ opened, (after codec calls).encoder.openWith p = (.ok (), opened) :=
      ⟨_, Prod.ext hok rfl⟩
    refine ⟨opened, openWith_of_origin horigin hopen, fun frames sink => ?_⟩
    rw [after_append]
    simp only [List.foldl_cons, List.foldl_nil, call, hopen]
  · intro hparameters
    rw [hparameters] at horigin
    refine ⟨_, horigin, fun frames sink => ?_⟩
    obtain ⟨-, hwhole, houtline⟩ := of_origin_eq_ok horigin
    -- the encoder that is reset may differ from a new one, but not once both are cleared
    rw [after_append]
    refine Encoder.encodeFrames_of_cleared_eq ?_ ?_ frames sink
    · exact (Encoder.outline_reset _).symm ▸ hwhole
    · exact (Encoder.cleared_reset _).trans ((Encoder.cleared_outline _).trans houtline).symm
  · intro cause hrefused later
    rw [after_append, after_append, List.foldl_cons]
    simp only [call, Encoder.openWith_of_refused hrefused]

/-- An encoder for one channel. -/
def mono : Parameters := .default .atrac1 1 146000

/-- A session in which a frame broke off after it was heard, and an opening was refused. -/
def troubledCalls : List Call :=
  [.openWith mono,
    .encodeFrame ⟨[{ lines := [] }]⟩ (.packets { name := "", channels := 1 }),
    .openWith { mono with channels := 3 }]

theorem encodeFrames_troubledCalls :
    ∃ new, (Encoder.closed .atrac1).openWith mono = (.ok (), new) ∧
      (∀ frames sink, (after .atrac1 (troubledCalls ++ [.openWith mono])).encoder.encodeFrames
        frames sink = new.encodeFrames frames sink) ∧
      (∀ frames sink, (after .atrac1 (troubledCalls ++ [.reset])).encoder.encodeFrames
        frames sink = new.encodeFrames frames sink) ∧
      after .atrac1 troubledCalls = after .atrac1 (troubledCalls.take 2) := by
  obtain ⟨hopened, hreset, -⟩ := encodeFrames_of_history .atrac1 troubledCalls mono
  obtain ⟨-, -, hrefused⟩ :=
    encodeFrames_of_history .atrac1 (troubledCalls.take 2) { mono with channels := 3 }
  obtain ⟨new, hnew, hframes⟩ := hopened rfl
  obtain ⟨new', hnew', hframes'⟩ := hreset rfl
  obtain rfl : new = new' := congrArg Prod.snd (hnew.symm.trans hnew')
  exact ⟨new, hnew, hframes, hframes', hrefused _ rfl []⟩

end Session

end SpectralCoding
