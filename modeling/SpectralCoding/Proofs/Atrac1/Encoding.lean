import Mathlib.Data.List.TakeWhile
import SpectralCoding.Proofs.Atrac1.Settling
import SpectralCoding.Proofs.Pipeline.Clearing
import SpectralCoding.Proofs.Results

/-!
# Frames of the ATRAC1 encoder

The number of channels and their windows are checked before a frame is heard, the length of a
spectrum only when the turn of its channel comes. By then the units of the channels ahead of it are
with the sink.

* `Atrac1.Encoder.refusal`, `Atrac1.Encoder.hearing` : why a frame is refused unheard; the encoder
  that has heard it.
* `Atrac1.comesLate` : the cause for which a frame that was heard is refused.
* `Atrac1.Encoder.cleared`, `Atrac1.Encoder.IsWhole` : nothing left of earlier frames; every channel
  with its stages.
* `Atrac1.Encoder.cleared_encodeFrame`, `Atrac1.Encoder.encodeFrame_of_cleared_eq` : a frame leaves
  nothing behind but what was heard, and what was left behind does not matter.
* `Atrac1.exists_encodeChannels` : the units that a frame hands over, and how it ends.
* `Atrac1.Encoder.encodeFrame_of_breaksOff`, `Atrac1.Encoder.isAllOrNothing_encodeFrame` : the case
  in which half a frame is handed over, and all the others.
-/

namespace SpectralCoding

namespace Atrac1

open Pipeline

variable {isAuto isFast : Bool}

/-- The cause for which a frame is refused though it was heard. -/
def comesLate : Error → Bool
  | .spectrumLength .. => true
  | _ => false

/-! ### Channels and what they remember -/

theorem forgets_budgeting {κ : Type} [Dial κ] :
    (budgeting : Stage κ Frame (List Nat)).Forgets where
  forget _ := rfl
  work frame _ _ _ _ := by
    simp only [budgeting]
    cases blockCounts[frame.index]? <;> rfl

theorem areForgetful_stages {κ : Type} [Dial κ] (isAuto isFast : Bool) :
    AreForgetful ((stages isAuto isFast).map (·.1) : List (Stage κ Frame (List Nat))) where
  begins := by
    intro stage hstage frame memory
    obtain rfl := Option.some.inj hstage
    simp only [budgeting]
    cases blockCounts[frame.index]? with
    | none => exact ⟨_, rfl⟩
    | some count => trivial
  forgets := by
    intro stage hstage
    simp only [stages, List.map_cons, List.map_nil, List.mem_cons, List.not_mem_nil, or_false]
      at hstage
    rcases hstage with rfl | rfl
    · exact forgets_budgeting
    · exact Stage.forgets_of_const [] fun _ => rfl

variable {p q : ChannelPipeline} {index : Nat} {loudness : Float32}

theorem IsChannelPipeline.areForgetful (hp : IsChannelPipeline isAuto isFast p) :
    AreForgetful p.stages := by
  have hstages : p.stages = (Atrac1.stages isAuto isFast).map (·.1) := hp
  rw [hstages]
  exact areForgetful_stages isAuto isFast

/-- What is left of earlier frames neither shows in a unit nor outlasts it. -/
theorem encodeUnit_of_cleared_eq (hp : IsChannelPipeline isAuto isFast p)
    (heq : p.cleared = q.cleared) (index : Nat) (loudness : Float32) (ch : ChannelSpectrum) :
    (encodeUnit index loudness p ch).1 = (encodeUnit index loudness q ch).1 := by
  unfold encodeUnit
  cases Layout.atrac1.scaleFrame ch.lines ch.windows with
  | error cause => rfl
  | ok blocks =>
    dsimp only
    rw [(encode_of_cleared_eq hp.areForgetful heq _).1]
    cases (q.encode _).emission.fault <;> rfl

theorem cleared_encodeUnit (hp : IsChannelPipeline isAuto isFast p) (index : Nat)
    (loudness : Float32) (ch : ChannelSpectrum) :
    (encodeUnit index loudness p ch).2.cleared = p.cleared := by
  unfold encodeUnit
  cases Layout.atrac1.scaleFrame ch.lines ch.windows with
  | error cause => rfl
  | ok blocks =>
    have hcleared := cleared_encode hp.areForgetful
      { blocks, windows := ch.windows, loudness, spread := spread blocks, index }
    dsimp only
    split <;> exact hcleared

/-! ### A channel at the head of a row -/

section

variable {ch : ChannelSpectrum} {rest : List (ChannelPipeline × ChannelSpectrum)}
  {sink sink' : Sink} {bytes : List UInt8} {cause : Error}

theorem encodeChannels_of_unit_error (hunit : encodeUnit index loudness p ch = (.error cause, q)) :
    encodeChannels index loudness ((p, ch) :: rest) sink =
      (.error cause, q :: rest.map (·.1), sink) := by
  rw [encodeChannels, hunit]

theorem encodeChannels_of_write_error (hunit : encodeUnit index loudness p ch = (.ok bytes, q))
    (hwrite : sink.write bytes = (.error cause, sink')) :
    encodeChannels index loudness ((p, ch) :: rest) sink =
      (.error cause, q :: rest.map (·.1), sink') := by
  rw [encodeChannels, hunit]
  simp only [hwrite]

theorem encodeChannels_of_ok (hunit : encodeUnit index loudness p ch = (.ok bytes, q))
    (hwrite : sink.write bytes = (.ok (), sink')) :
    encodeChannels index loudness ((p, ch) :: rest) sink =
      ((encodeChannels index loudness rest sink').1,
        q :: (encodeChannels index loudness rest sink').2.1,
        (encodeChannels index loudness rest sink').2.2) := by
  rw [encodeChannels, hunit]
  simp only [hwrite]

end

theorem encodeChannels_of_cleared_eq {ps qs : List ChannelPipeline}
    (hps : ∀ p ∈ ps, IsChannelPipeline isAuto isFast p)
    (heq : ps.map Pipeline.cleared = qs.map Pipeline.cleared) (channels : List ChannelSpectrum)
    (sink : Sink) :
    (encodeChannels index loudness (ps.zip channels) sink).1 =
        (encodeChannels index loudness (qs.zip channels) sink).1 ∧
      (encodeChannels index loudness (ps.zip channels) sink).2.2 =
        (encodeChannels index loudness (qs.zip channels) sink).2.2 := by
  induction ps generalizing qs channels sink with
  | nil =>
    obtain rfl : qs = [] := by simpa using heq.symm
    exact ⟨rfl, rfl⟩
  | cons p ps ih =>
    obtain ⟨q, qs, rfl⟩ : ∃ q rest, qs = q :: rest := by
      cases qs with
      | nil => cases heq
      | cons q qs => exact ⟨q, qs, rfl⟩
    obtain ⟨hhead, htail⟩ := List.cons.inj heq
    obtain ⟨hp, hps⟩ := List.forall_mem_cons.1 hps
    cases channels with
    | nil => exact ⟨rfl, rfl⟩
    | cons ch channels =>
      have hsame := encodeUnit_of_cleared_eq hp hhead index loudness ch
      rw [List.zip_cons_cons, List.zip_cons_cons]
      rcases hp' : encodeUnit index loudness p ch with ⟨made, p'⟩
      rcases hq' : encodeUnit index loudness q ch with ⟨made', q'⟩
      obtain rfl : made = made' := by rwa [hp', hq'] at hsame
      -- the same unit, so that both rows stop here or neither does
      cases made with
      | error cause =>
        rw [encodeChannels_of_unit_error hp', encodeChannels_of_unit_error hq']
        exact ⟨rfl, rfl⟩
      | ok bytes =>
        rcases hwrite : sink.write bytes with ⟨cause | ⟨⟩, sink'⟩
        · rw [encodeChannels_of_write_error hp' hwrite, encodeChannels_of_write_error hq' hwrite]
          exact ⟨rfl, rfl⟩
        · rw [encodeChannels_of_ok hp' hwrite, encodeChannels_of_ok hq' hwrite]
          exact ih hps htail channels sink'

theorem cleared_encodeChannels {ps : List ChannelPipeline} {channels : List ChannelSpectrum}
    (hps : ∀ p ∈ ps, IsChannelPipeline isAuto isFast p) (hcount : ps.length = channels.length)
    (sink : Sink) :
    (encodeChannels index loudness (ps.zip channels) sink).2.1.map Pipeline.cleared =
      ps.map Pipeline.cleared := by
  induction ps generalizing channels sink with
  | nil => rfl
  | cons p ps ih =>
    cases channels with
    | nil => cases hcount
    | cons ch channels =>
      obtain ⟨hp, hps⟩ := List.forall_mem_cons.1 hps
      have hcount : ps.length = channels.length := Nat.succ.inj hcount
      have hrest : (ps.zip channels).map (·.1) = ps := List.map_fst_zip (Nat.le_of_eq hcount)
      have hcleared := cleared_encodeUnit hp index loudness ch
      rw [List.zip_cons_cons]
      rcases hunit : encodeUnit index loudness p ch with ⟨cause | bytes, q⟩
      · rw [hunit] at hcleared
        rw [encodeChannels_of_unit_error hunit, hrest, List.map_cons, hcleared, List.map_cons]
      · rw [hunit] at hcleared
        rcases hwrite : sink.write bytes with ⟨cause | ⟨⟩, sink'⟩
        · rw [encodeChannels_of_write_error hunit hwrite, hrest, List.map_cons, hcleared,
            List.map_cons]
        · rw [encodeChannels_of_ok hunit hwrite, List.map_cons, hcleared, ih hps hcount,
            List.map_cons]

/-! ### The units of a frame -/

/-- A channel has as many lines as a frame. -/
def isFull (ch : ChannelSpectrum) : Bool := ch.lines.length == Layout.atrac1.frameLines

theorem isFull_iff {ch : ChannelSpectrum} : isFull ch = true ↔ ch.lines.length = 512 := beq_iff_eq

/-- The end of a frame: the failure of the first channel of another length. -/
def lengthRefusal (channels : List ChannelSpectrum) : Except Error Unit :=
  match channels.find? fun ch => !isFull ch with
  | none => .ok ()
  | some ch => .error (.spectrumLength ch.lines.length Layout.atrac1.frameLines)

/-- A frame hands over the units of the channels ahead of the first one that has another length, and
fails if there is one. -/
theorem exists_encodeChannels {ps : List ChannelPipeline} {channels : List ChannelSpectrum}
    (hps : ∀ p ∈ ps, IsChannelPipeline isAuto isFast p) (hindex : index ≤ lastIndex)
    (hwindows : ∀ ch ∈ channels, fitsWindowFields ch.windows = true)
    (hcount : ps.length = channels.length) (memory : PacketSink) :
    ∃ units : List (List UInt8),
      units.map List.length = (channels.takeWhile isFull).map (fun _ => unitBytes) ∧
      (encodeChannels index loudness (ps.zip channels) (.packets memory)).1 =
        lengthRefusal channels ∧
      (encodeChannels index loudness (ps.zip channels) (.packets memory)).2.2 =
        .packets (units.foldl PacketSink.write memory) := by
  induction ps generalizing channels memory with
  | nil =>
    obtain rfl : channels = [] := List.eq_nil_of_length_eq_zero hcount.symm
    exact ⟨[], rfl, rfl, rfl⟩
  | cons p ps ih =>
    cases channels with
    | nil => cases hcount
    | cons ch channels =>
      obtain ⟨hp, hps⟩ := List.forall_mem_cons.1 hps
      obtain ⟨hfits, hwindows⟩ := List.forall_mem_cons.1 hwindows
      cases hfull : isFull ch with
      | false =>
        -- the row stops here, whatever comes after
        have hlength : ch.lines.length ≠ Layout.atrac1.frameLines := by simpa [isFull] using hfull
        refine ⟨[], by simp [hfull], ?_⟩
        rw [List.zip_cons_cons, encodeChannels_of_unit_error (encodeUnit_of_length_ne hlength)]
        exact ⟨by simp [lengthRefusal, hfull], rfl⟩
      | true =>
        have hlength : ch.lines.length = Layout.atrac1.frameLines := by simpa [isFull] using hfull
        obtain ⟨bytes, p', hunit, hbytes⟩ := exists_encodeUnit hp hindex loudness hfits hlength
        obtain ⟨units, hsizes, hresult, hsink⟩ :=
          ih hps hwindows (Nat.succ.inj hcount) (memory.write bytes)
        refine ⟨bytes :: units, by simp [hfull, hbytes, hsizes], ?_⟩
        rw [List.zip_cons_cons, encodeChannels_of_ok hunit rfl, hresult, hsink]
        exact ⟨by simp [lengthRefusal, hfull], rfl⟩

theorem isFull_of_lengthRefusal {channels : List ChannelSpectrum}
    (h : lengthRefusal channels = .ok ()) : ∀ ch ∈ channels, isFull ch = true := by
  unfold lengthRefusal at h
  split at h
  · rename_i hfind
    simpa using hfind
  · cases h

theorem fitsWindowFields_of_find? {channels : List ChannelSpectrum}
    (h : (channels.find? fun ch => !fitsWindowFields ch.windows) = none) :
    ∀ ch ∈ channels, fitsWindowFields ch.windows = true := by
  simpa using h

/-- Beside a channel of another length only the sink can stop a frame. -/
theorem spectrumLength_or_io {ps : List ChannelPipeline} {channels : List ChannelSpectrum}
    (hps : ∀ p ∈ ps, IsChannelPipeline isAuto isFast p) (hindex : index ≤ lastIndex)
    (hwindows : ∀ ch ∈ channels, fitsWindowFields ch.windows = true) {sink : Sink} {cause : Error}
    (h : (encodeChannels index loudness (ps.zip channels) sink).1 = .error cause) :
    (∃ found, cause = .spectrumLength found Layout.atrac1.frameLines) ∨ cause.kind = .io := by
  induction ps generalizing channels sink with
  | nil => cases h
  | cons p ps ih =>
    cases channels with
    | nil => cases h
    | cons ch channels =>
      obtain ⟨hp, hps⟩ := List.forall_mem_cons.1 hps
      obtain ⟨hfits, hwindows⟩ := List.forall_mem_cons.1 hwindows
      rw [List.zip_cons_cons] at h
      by_cases hlength : ch.lines.length = Layout.atrac1.frameLines
      · obtain ⟨bytes, q, hunit, -⟩ := exists_encodeUnit hp hindex loudness hfits hlength
        rcases hwrite : sink.write bytes with ⟨cause' | ⟨⟩, sink'⟩
        · rw [encodeChannels_of_write_error hunit hwrite] at h
          obtain rfl := Except.error.inj h
          exact .inr (Sink.kind_of_write (congrArg Prod.fst hwrite))
        · rw [encodeChannels_of_ok hunit hwrite] at h
          exact ih hps hwindows h
      · rw [encodeChannels_of_unit_error (encodeUnit_of_length_ne hlength)] at h
        obtain rfl := Except.error.inj h
        exact .inl ⟨_, rfl⟩

/-! ### The encoder -/

namespace Encoder

variable {e e' : Encoder} {setup : Setup} {frame : SpectralFrame} {cause : Error}

/-- Why a frame is refused unheard, if it is. -/
def refusal (e : Encoder) (frame : SpectralFrame) : Option Error :=
  frame.refusal .atrac1 (e.setup.map (·.channels))
    ((frame.channels.find? fun ch => !fitsWindowFields ch.windows).map fun ch =>
      .windowMode ch.windows.toList)

/-- The encoder once it has heard a frame. -/
def hearing (e : Encoder) (frame : SpectralFrame) : Encoder :=
  { e with loudness := hear e.loudness frame }

/-- The encoder with nothing left of earlier frames but what was heard. -/
def cleared (e : Encoder) : Encoder := { e with pipelines := e.pipelines.map Pipeline.cleared }

/-- Every channel has its stages. -/
structure IsWhole (e : Encoder) : Prop where
  stages : ∃ isAuto isFast, ∀ p ∈ e.pipelines, IsChannelPipeline isAuto isFast p
  setup : ∀ setup, e.setup = some setup →
    e.pipelines.length = setup.channels ∧ setup.channels ≤ 2 ∧ setup.index ≤ lastIndex

/-- The encoder with nothing left of earlier frames. -/
def outline (e : Encoder) : Encoder := e.cleared.reset

theorem encodeFrame_of_refusal (h : e.refusal frame = some cause) (sink : Sink) :
    e.encodeFrame frame sink = (.error cause, e, sink) := by
  rcases SpectralFrame.refusal_eq_some h with
    ⟨hclosed, rfl⟩ | ⟨count, hopen, hcount, rfl⟩ | ⟨hopen, hcheck⟩
  · have hsetup : e.setup = none := Option.map_eq_none_iff.1 hclosed
    simp only [encodeFrame, hsetup]
  · obtain ⟨setup, hsetup, rfl⟩ := Option.map_eq_some_iff.1 hopen
    simp only [encodeFrame, hsetup, if_pos hcount]
  · obtain ⟨setup, hsetup, hcount⟩ := Option.map_eq_some_iff.1 hopen
    obtain ⟨ch, hch, rfl⟩ := Option.map_eq_some_iff.1 hcheck
    have hsame : ¬frame.channels.length ≠ setup.channels := Decidable.not_not.2 hcount.symm
    simp only [encodeFrame, hsetup, if_neg hsame, hch]

theorem not_comesLate_of_refusal (h : e.refusal frame = some cause) : comesLate cause = false := by
  rcases SpectralFrame.refusal_eq_some h with ⟨-, rfl⟩ | ⟨count, -, -, rfl⟩ | ⟨-, hcheck⟩
  · rfl
  · rfl
  · obtain ⟨ch, -, rfl⟩ := Option.map_eq_some_iff.1 hcheck
    rfl

theorem of_refusal_eq_none (h : e.refusal frame = none) :
    ∃ setup, e.setup = some setup ∧ frame.channels.length = setup.channels ∧
      (frame.channels.find? fun ch => !fitsWindowFields ch.windows) = none := by
  obtain ⟨hopen, hcheck⟩ := SpectralFrame.refusal_eq_none h
  obtain ⟨setup, hsetup, hcount⟩ := Option.map_eq_some_iff.1 hopen
  exact ⟨setup, hsetup, hcount.symm, Option.map_eq_none_iff.1 hcheck⟩

theorem encodeFrame_of_heard (hsetup : e.setup = some setup)
    (hcount : frame.channels.length = setup.channels)
    (hwindows : (frame.channels.find? fun ch => !fitsWindowFields ch.windows) = none)
    (sink : Sink) :
    e.encodeFrame frame sink =
      let done := encodeChannels setup.index (hear e.loudness frame).relative
        (e.pipelines.zip frame.channels) sink
      (done.1, { e.hearing frame with pipelines := done.2.1 }, done.2.2) := by
  have hsame : ¬frame.channels.length ≠ setup.channels := Decidable.not_not.2 hcount
  simp only [encodeFrame, hearing, hsetup, if_neg hsame, hwindows]

/-! ### Opening -/

theorem le_lastIndex_of_startIndex {n : Option Nat} {index : Nat} (h : startIndex n = .ok index) :
    index ≤ lastIndex := by
  unfold startIndex at h
  cases n with
  | none =>
    obtain rfl := Except.ok.inj h
    exact Nat.le_refl lastIndex
  | some n =>
    dsimp only at h
    split at h
    · obtain rfl := Except.ok.inj h
      have hlast : lastIndex = blockCounts.length - 1 := rfl
      omega
    · cases h

/-- What an encoder was opened with has passed every check. -/
def IsOpenedWith (p : Parameters) (opened : Encoder) : Prop :=
  ∃ options index, p.check .atrac1 = .ok () ∧ p.atrac1? = some options ∧
    startIndex options.blockIndex = .ok index ∧
    opened =
      { setup := some { channels := p.channels, index }
        pipelines := List.replicate p.channels
          (.ofStages (Atrac1.stages options.blockIndex.isNone options.isFast)) }

theorem isOpening_openWith (p : Parameters) : IsOpening (openWith · p) (IsOpenedWith p) := by
  simp only [openWith]
  cases hcheck : p.check .atrac1 with
  | error cause => exact .inl ⟨cause, fun _ => rfl⟩
  | ok =>
    cases hoptions : p.atrac1? with
    | none => exact .inl ⟨_, fun _ => rfl⟩
    | some options =>
      dsimp only
      cases hindex : startIndex options.blockIndex with
      | error cause => exact .inl ⟨cause, fun _ => rfl⟩
      | ok index =>
        exact .inr ⟨_, ⟨options, index, hcheck, hoptions, hindex, rfl⟩, fun _ => rfl⟩

theorem openWith_eq_ok {opened : Encoder} {p : Parameters} (h : e.openWith p = (.ok (), opened)) :
    IsOpenedWith p opened := (isOpening_openWith p).of_eq_ok h

theorem isWhole_closed : closed.IsWhole where
  stages := ⟨true, true, nofun⟩
  setup _ h := by cases h

theorem isWhole_opened {opened : Encoder} {p : Parameters} (h : e.openWith p = (.ok (), opened)) :
    opened.IsWhole := by
  obtain ⟨options, index, hcheck, -, hindex, rfl⟩ := openWith_eq_ok h
  refine ⟨⟨options.blockIndex.isNone, options.isFast, ?_⟩, ?_⟩
  · intro p hp
    obtain rfl := List.eq_of_mem_replicate hp
    rfl
  · intro setup hsetup
    obtain rfl := Option.some.inj hsetup
    exact ⟨List.length_replicate, (Parameters.check_eq_ok hcheck).2.2,
      le_lastIndex_of_startIndex hindex⟩

theorem outline_opened {opened : Encoder} {p : Parameters} (h : e.openWith p = (.ok (), opened)) :
    opened.outline = opened := by
  obtain ⟨options, index, -, -, -, rfl⟩ := openWith_eq_ok h
  simp only [outline, reset, cleared, List.map_replicate]
  rfl

theorem isWhole_of_outline (h : e.outline.IsWhole) : e.IsWhole := by
  obtain ⟨isAuto, isFast, hps⟩ := h.stages
  refine ⟨⟨isAuto, isFast, ?_⟩, ?_⟩
  · intro p hp
    have hcleared : p.cleared.stages = (Atrac1.stages isAuto isFast).map (·.1) :=
      hps p.cleared (List.mem_map_of_mem hp)
    rwa [stages_cleared] at hcleared
  · intro setup hsetup
    have hopen := h.setup setup hsetup
    rwa [show e.outline.pipelines.length = e.pipelines.length from List.length_map ..] at hopen

/-! ### Frames -/

theorem cleared_encodeFrame (he : e.IsWhole) (h : e.refusal frame = none) (sink : Sink) :
    (e.encodeFrame frame sink).2.1.cleared = (e.hearing frame).cleared := by
  obtain ⟨setup, hsetup, hcount, hwindows⟩ := of_refusal_eq_none h
  obtain ⟨isAuto, isFast, hps⟩ := he.stages
  have hlength : e.pipelines.length = frame.channels.length :=
    (he.setup setup hsetup).1.trans hcount.symm
  rw [encodeFrame_of_heard hsetup hcount hwindows]
  simp only [cleared, hearing, cleared_encodeChannels hps hlength]

/-- Encoders that differ in what is left of earlier frames deal with a frame alike. -/
theorem encodeFrame_of_cleared_eq (he : e.IsWhole) (heq : e.cleared = e'.cleared)
    (frame : SpectralFrame) (sink : Sink) :
    (e.encodeFrame frame sink).1 = (e'.encodeFrame frame sink).1 ∧
      (e.encodeFrame frame sink).2.2 = (e'.encodeFrame frame sink).2.2 := by
  obtain ⟨hsetup, hpipelines, hloudness⟩ := Encoder.mk.inj heq
  have hrefusal : e.refusal frame = e'.refusal frame := by simp only [refusal, hsetup]
  cases hheard : e.refusal frame with
  | some cause =>
    rw [encodeFrame_of_refusal hheard, encodeFrame_of_refusal (hrefusal ▸ hheard)]
    exact ⟨rfl, rfl⟩
  | none =>
    obtain ⟨setup, hopen, hcount, hwindows⟩ := of_refusal_eq_none hheard
    obtain ⟨isAuto, isFast, hps⟩ := he.stages
    rw [encodeFrame_of_heard hopen hcount hwindows,
      encodeFrame_of_heard (hsetup ▸ hopen) hcount hwindows, hloudness]
    exact encodeChannels_of_cleared_eq hps hpipelines frame.channels sink

theorem comesLate_of_refused (he : e.IsWhole) (h : e.refusal frame = none) {sink : Sink}
    (hrefused : (e.encodeFrame frame sink).1 = .error cause)
    (hkind : cause.kind = .invalidArgument) :
    comesLate cause = true := by
  obtain ⟨setup, hsetup, hcount, hwindows⟩ := of_refusal_eq_none h
  obtain ⟨isAuto, isFast, hps⟩ := he.stages
  rw [encodeFrame_of_heard hsetup hcount hwindows] at hrefused
  rcases spectrumLength_or_io hps (he.setup setup hsetup).2.2 (fitsWindowFields_of_find? hwindows)
    hrefused with ⟨found, rfl⟩ | hio
  · rfl
  · rw [hio] at hkind
    cases hkind

/-- The units that a frame hands over once it is heard, and how it ends. -/
theorem exists_encodeFrame (he : e.IsWhole) (h : e.refusal frame = none) (memory : PacketSink) :
    ∃ units : List (List UInt8),
      units.map List.length = (frame.channels.takeWhile isFull).map (fun _ => unitBytes) ∧
      (e.encodeFrame frame (.packets memory)).1 = lengthRefusal frame.channels ∧
      (e.encodeFrame frame (.packets memory)).2.2 =
        .packets (units.foldl PacketSink.write memory) := by
  obtain ⟨setup, hsetup, hcount, hwindows⟩ := of_refusal_eq_none h
  obtain ⟨isAuto, isFast, hps⟩ := he.stages
  obtain ⟨hlength, -, hindex⟩ := he.setup setup hsetup
  rw [encodeFrame_of_heard hsetup hcount hwindows]
  exact exists_encodeChannels hps hindex (fitsWindowFields_of_find? hwindows)
    (hlength.trans hcount.symm) memory

/-- If only the second of two channels has another length, the unit of the first is handed over
alone. -/
theorem encodeFrame_of_breaksOff (he : e.IsWhole) (h : e.refusal frame = none)
    {first second : ChannelSpectrum} (hchannels : frame.channels = [first, second])
    (hfull : isFull first = true) (hshort : isFull second = false) (memory : PacketSink) :
    ∃ unit : List UInt8, unit.length = unitBytes ∧
      (e.encodeFrame frame (.packets memory)).1 =
        .error (.spectrumLength second.lines.length Layout.atrac1.frameLines) ∧
      (e.encodeFrame frame (.packets memory)).2.2 = .packets (memory.write unit) := by
  obtain ⟨units, hsizes, hresult, hsink⟩ := exists_encodeFrame he h memory
  rw [hchannels] at hsizes hresult
  obtain ⟨unit, rfl, hunit⟩ : ∃ unit, units = [unit] ∧ unit.length = unitBytes := by
    simpa [hfull, hshort, List.map_eq_singleton_iff] using hsizes
  exact ⟨unit, hunit, by simpa [lengthRefusal, hfull, hshort] using hresult, hsink⟩

/-- In all other cases a frame hands over one unit for every channel, or nothing. -/
theorem isAllOrNothing_encodeFrame (he : e.IsWhole) (h : e.refusal frame = none)
    (hwhole : ∀ first second, frame.channels = [first, second] → isFull first = true →
      isFull second = true) (memory : PacketSink) :
    IsAllOrNothing (List.replicate frame.channels.length unitBytes) memory
      (e.encodeFrame frame (.packets memory)).1 (e.encodeFrame frame (.packets memory)).2.2 := by
  obtain ⟨units, hsizes, hresult, hsink⟩ := exists_encodeFrame he h memory
  rw [hresult, hsink]
  cases hend : lengthRefusal frame.channels with
  | ok =>
    refine ⟨units, ?_, rfl⟩
    rw [hsizes, List.takeWhile_eq_self_iff.2 (isFull_of_lengthRefusal hend), List.map_const']
  | error cause =>
    obtain ⟨setup, hsetup, hcount, -⟩ := of_refusal_eq_none h
    have htwo : frame.channels.length ≤ 2 := hcount ▸ (he.setup setup hsetup).2.1
    -- the first channel has another length, so that nothing is handed over
    have hshort : ∀ first ∈ frame.channels.head?, isFull first = false := by
      intro first hfirst
      by_contra hfull
      rw [Bool.not_eq_false] at hfull
      match hchannels : frame.channels, htwo with
      | [], _ => simp [hchannels] at hfirst
      | [a], _ =>
        obtain rfl : a = first := by simpa [hchannels] using hfirst
        simp [hchannels, lengthRefusal, hfull] at hend
      | [a, b], _ =>
        obtain rfl : a = first := by simpa [hchannels] using hfirst
        simp [hchannels, lengthRefusal, hfull, hwhole a b hchannels hfull] at hend
    have hnone : frame.channels.takeWhile isFull = [] := by
      cases hchannels : frame.channels with
      | nil => rfl
      | cons first rest =>
        rw [List.takeWhile_cons, hshort first (by rw [hchannels]; rfl)]
        rfl
    obtain rfl : units = [] := by simpa [hnone] using hsizes
    rfl

end Encoder

end Atrac1

end SpectralCoding
