import SpectralCoding.Proofs.Binary32.Magnitude
import SpectralCoding.Proofs.Encoder.Packets
import SpectralCoding.Proofs.Encoder.Refusals

/-!
# What an ATRAC1 encoder listens to

The loudness estimate follows the frames in which all windows are long. Frames with a short window
leave it alone, with one exception: of two channels the first is still listened to where only the
second has short windows.

* `Encoder.afterFrames` : the encoder after frames, one after the other.
* `Encoder.cleared_afterFrames` : of frames that are not refused unheard, it keeps what was heard.
* `SpectralFrame.heard` : the channels that the estimate follows.
* `Encoder.loudness_encodeFrame` : what a frame does to the estimate.
* `Session.loudness_afterFrames` : **the estimate is that of the frames with long windows only,
  unless in one of two channels only the second has short windows.**
* `Session.loudness_halfLongFrame` : a frame that is such an exception.
-/

namespace SpectralCoding

/-! ### Runs of an encoder -/

namespace Encoder

variable {e : Encoder} {frame : SpectralFrame} {frames : List SpectralFrame} {sink : Sink}

/-- The encoder after frames, one after the other. -/
def afterFrames : Encoder → List SpectralFrame → Sink → Encoder
  | e, [], _ => e
  | e, frame :: frames, sink =>
    let (_, e, sink) := e.encodeFrame frame sink
    e.afterFrames frames sink

theorem refusal_of_encodeFrame (h : (e.encodeFrame frame sink).1 = .ok ()) :
    e.refusal frame = none := by
  cases hrefusal : e.refusal frame with
  | none => rfl
  | some cause =>
    rw [encodeFrame_of_refusal hrefusal] at h
    cases h

theorem refusal_hearing (e : Encoder) (frame : SpectralFrame) :
    (e.hearing frame).refusal = e.refusal := by
  cases e <;> rfl

/-- What is refused unheard does not depend on what was heard before. -/
theorem refusal_encodeFrame (he : e.IsWhole) (frame : SpectralFrame) (sink : Sink) :
    (e.encodeFrame frame sink).2.1.refusal = e.refusal := by
  cases hrefusal : e.refusal frame with
  | some cause => rw [encodeFrame_of_refusal hrefusal]
  | none =>
    funext later
    rw [← refusal_cleared, cleared_encodeFrame he hrefusal, refusal_cleared, refusal_hearing]

theorem encodeFrame_of_encodeFrames
    (h : ∀ result ∈ (e.encodeFrames (frame :: frames) sink).1, result = .ok ()) :
    (e.encodeFrame frame sink).1 = .ok () :=
  (List.forall_mem_cons.1 h).1

theorem refusal_of_encodeFrames (he : e.outline.IsWhole)
    (h : ∀ result ∈ (e.encodeFrames frames sink).1, result = .ok ()) :
    ∀ frame ∈ frames, e.refusal frame = none := by
  induction frames generalizing e sink with
  | nil => exact nofun
  | cons frame frames ih =>
    obtain ⟨hframe, hframes⟩ := List.forall_mem_cons.1 h
    have hlater := ih (isWhole_encodeFrame he frame sink) hframes
    rw [refusal_encodeFrame (isWhole_of_outline he)] at hlater
    exact List.forall_mem_cons.2 ⟨refusal_of_encodeFrame hframe, hlater⟩

theorem cleared_foldl_hearing (e : Encoder) (frames : List SpectralFrame) :
    (frames.foldl hearing e).cleared = frames.foldl hearing e.cleared := by
  induction frames generalizing e with
  | nil => rfl
  | cons frame frames ih => rw [List.foldl_cons, ih, cleared_hearing, List.foldl_cons]

/-- **Frames that are not refused unheard leave nothing behind but what was heard.** -/
theorem cleared_afterFrames (he : e.outline.IsWhole)
    (hheard : ∀ frame ∈ frames, e.refusal frame = none) (sink : Sink) :
    (e.afterFrames frames sink).cleared = (frames.foldl hearing e).cleared := by
  induction frames generalizing e sink with
  | nil => rfl
  | cons frame frames ih =>
    obtain ⟨hframe, hframes⟩ := List.forall_mem_cons.1 hheard
    have hwhole := isWhole_of_outline he
    rw [← refusal_encodeFrame hwhole frame sink] at hframes
    show ((e.encodeFrame frame sink).2.1.afterFrames frames _).cleared = _
    rw [ih (isWhole_encodeFrame he frame sink) hframes, cleared_foldl_hearing,
      cleared_encodeFrame hwhole hframe, ← cleared_foldl_hearing, List.foldl_cons]

end Encoder

/-! ### What is listened to -/

namespace SpectralFrame

/-- All windows of all channels are long. -/
def isAllLong (frame : SpectralFrame) : Bool := frame.channels.all (·.windows.isAllLong)

/-- All windows of the first channel are long, but not all of the other. -/
def isHalfLong (frame : SpectralFrame) : Bool :=
  !frame.isAllLong && frame.channels.head?.any (·.windows.isAllLong)

/-- The channels that the loudness estimate of an ATRAC1 encoder follows. -/
def heard (frame : SpectralFrame) : List ChannelSpectrum :=
  if frame.isAllLong then frame.channels
  else if frame.isHalfLong then frame.channels.take 1
  else []

variable {frame : SpectralFrame}

theorem heard_of_short (hlong : frame.isAllLong = false) (hhalf : frame.isHalfLong = false) :
    frame.heard = [] := by
  simp [heard, hlong, hhalf]

theorem two_le_of_isHalfLong (h : frame.isHalfLong = true) : 2 ≤ frame.channels.length := by
  obtain ⟨channels⟩ := frame
  match channels with
  | [] => cases h
  | [ch] => simp [isHalfLong, isAllLong] at h
  | _ :: _ :: _ => simp

end SpectralFrame

namespace Atrac1

/-- The loudness of a channel. -/
def level (ch : ChannelSpectrum) : Float32 := frameLoudness ch.lines lineWeights

variable {frame : SpectralFrame}

/-- Of one or two channels the estimate follows those that are heard. -/
theorem hear_eq (h : frame.channels.length ≤ 2) (loudness : Loudness) :
    hear loudness frame = loudness.trackChannels (frame.heard.map level) := by
  obtain ⟨channels⟩ := frame
  match channels, h with
  | [], _ => rfl
  | [ch], _ =>
    cases hlong : ch.windows.isAllLong <;>
      simp [hear, SpectralFrame.heard, SpectralFrame.isAllLong, SpectralFrame.isHalfLong, hlong,
        Loudness.trackChannels, level]
  | [first, second], _ =>
    cases hfirst : first.windows.isAllLong <;> cases hsecond : second.windows.isAllLong <;>
      simp [hear, SpectralFrame.heard, SpectralFrame.isAllLong, SpectralFrame.isHalfLong, hfirst,
        hsecond, Loudness.trackChannels, level]

/-- Frames of which nothing is heard can be left out. -/
theorem foldl_hear_filter {frames : List SpectralFrame} {p : SpectralFrame → Bool}
    (hcount : ∀ frame ∈ frames, frame.channels.length ≤ 2)
    (hp : ∀ frame ∈ frames, p frame = false → frame.heard = []) (loudness : Loudness) :
    (frames.filter p).foldl hear loudness = frames.foldl hear loudness := by
  induction frames generalizing loudness with
  | nil => rfl
  | cons frame frames ih =>
    obtain ⟨hframe, hcount⟩ := List.forall_mem_cons.1 hcount
    obtain ⟨hneutral, hp⟩ := List.forall_mem_cons.1 hp
    cases hkept : p frame with
    | true => simp only [List.filter_cons, hkept, if_true, List.foldl_cons, ih hcount hp]
    | false =>
      have hsame : hear loudness frame = loudness := by
        rw [hear_eq hframe, hneutral hkept]
        rfl
      rw [List.filter_cons_of_neg (by simp [hkept]), ih hcount hp, List.foldl_cons, hsame]

end Atrac1

namespace Encoder

variable {e : Atrac1.Encoder} {frame : SpectralFrame} {frames : List SpectralFrame}

theorem loudness_foldl_hearing (e : Atrac1.Encoder) (frames : List SpectralFrame) :
    (frames.foldl hearing (atrac1 e)).loudness = frames.foldl Atrac1.hear e.loudness := by
  induction frames generalizing e with
  | nil => rfl
  | cons frame frames ih => exact ih (e.hearing frame)

theorem length_le_two (he : (atrac1 e).outline.IsWhole)
    (h : (atrac1 e).refusal frame = none) : frame.channels.length ≤ 2 := by
  obtain ⟨setup, hsetup, hcount, -⟩ := Atrac1.Encoder.of_refusal_eq_none h
  have hwhole := Atrac1.Encoder.isWhole_of_outline he
  exact hcount ▸ (hwhole.setup setup hsetup).2.1

/-- Frames that are not refused unheard are heard one after the other. -/
theorem loudness_of_heard (he : (atrac1 e).outline.IsWhole)
    (hheard : ∀ frame ∈ frames, (atrac1 e).refusal frame = none) (sink : Sink) :
    ((atrac1 e).afterFrames frames sink).loudness = frames.foldl Atrac1.hear e.loudness := by
  rw [loudness_of_cleared_eq (cleared_afterFrames he hheard sink), loudness_foldl_hearing]

/-- A frame that is not refused unheard changes the estimate by the channels that are heard in it. -/
theorem loudness_encodeFrame (he : (atrac1 e).outline.IsWhole)
    (hheard : (atrac1 e).refusal frame = none) (sink : Sink) :
    ((atrac1 e).encodeFrame frame sink).2.1.loudness =
      e.loudness.trackChannels (frame.heard.map Atrac1.level) := by
  rw [← Atrac1.hear_eq (length_le_two he hheard)]
  exact loudness_of_heard he (List.forall_mem_singleton.2 hheard) sink

/-- Frames that pass the checks and have all their lines are encoded. -/
theorem encodeFrames_of_isFull (he : (atrac1 e).outline.IsWhole)
    (hheard : ∀ frame ∈ frames, (atrac1 e).refusal frame = none)
    (hfull : ∀ frame ∈ frames, ∀ ch ∈ frame.channels, Atrac1.isFull ch = true)
    (memory : PacketSink) :
    ∀ result ∈ ((atrac1 e).encodeFrames frames (.packets memory)).1, result = .ok () := by
  induction frames generalizing e memory with
  | nil => exact nofun
  | cons frame frames ih =>
    obtain ⟨hframe, hframes⟩ := List.forall_mem_cons.1 hheard
    obtain ⟨hlines, hfull⟩ := List.forall_mem_cons.1 hfull
    obtain ⟨units, -, hresult, hsink⟩ := Atrac1.Encoder.exists_encodeFrame
      (Atrac1.Encoder.isWhole_of_outline he) hframe memory
    have hlater := isWhole_encodeFrame he frame (.packets memory)
    rw [← refusal_encodeFrame (isWhole_of_outline he) frame (.packets memory)] at hframes
    rintro result (_ | ⟨_, hmem⟩)
    · have hnone : (frame.channels.find? fun ch => !Atrac1.isFull ch) = none := by simpa using hlines
      show (e.encodeFrame frame (.packets memory)).1 = .ok ()
      rw [hresult, Atrac1.lengthRefusal, hnone]
    · refine ih hlater hframes hfull (units.foldl PacketSink.write memory) result ?_
      rw [← hsink]
      exact hmem

end Encoder

/-! ### Sums of zeros -/

namespace Binary32

/-- Zero of either sign, or not a number. -/
def IsNaught (x : Float32) : Prop := x = 0 ∨ x = -0.0 ∨ x = 0 / 0

open Float.Model (Format UnpackedFloat)

theorem zero_mul_unpacked (spec : Format) (u : UnpackedFloat) :
    (∃ s, UnpackedFloat.mul spec (.zero .positive) u = .zero s) ∨
      UnpackedFloat.mul spec (.zero .positive) u = .notANumber := by
  cases u with
  | notANumber | infinity s => exact .inr rfl
  | zero s | finite s m e hm => exact .inl ⟨.positive * s, rfl⟩

/-- Zero times any number, which may be infinite. -/
theorem isNaught_zero_mul (x : Float32) : IsNaught (0 * x) := by
  have hproduct : 0 * x = ofUnpacked (.mul .binary32 (.zero .positive) x.toModel.unpack) := rfl
  rw [hproduct]
  obtain ⟨s, h⟩ | h := zero_mul_unpacked .binary32 x.toModel.unpack <;> rw [h]
  · cases s with
    | positive => exact .inl rfl
    | negative => exact .inr (.inl rfl)
  · exact .inr (.inr rfl)

theorem IsNaught.add {x y : Float32} (hx : IsNaught x) (hy : IsNaught y) : IsNaught (x + y) := by
  unfold IsNaught
  rcases hx with rfl | rfl | rfl <;> rcases hy with rfl | rfl | rfl <;> decide +kernel

theorem isNaught_sum {xs : List Float32} (h : ∀ x ∈ xs, IsNaught x) : IsNaught (sum xs) :=
  List.foldlRecOn xs _ (.inr (.inl rfl)) fun _ hsum x hx => hsum.add (h x hx)

end Binary32

/-- Silence weighs nothing, and an infinite weight makes it no number at all. -/
theorem Atrac1.isNaught_level (n : Nat) (windows : WindowMode) :
    Binary32.IsNaught (level { lines := List.replicate n 0, windows }) := by
  refine Binary32.isNaught_sum fun x hx => ?_
  obtain ⟨i, hi, rfl⟩ := List.mem_iff_getElem.1 hx
  rw [List.getElem_zipWith, List.getElem_replicate]
  exact Binary32.isNaught_zero_mul _

/-! ### Sessions -/

namespace Session

variable {calls : List Call} {p : Parameters} {frame : SpectralFrame}

/-- An ATRAC1 encoder in use is open for the channels of the parameters last taken on. -/
theorem exists_of_opened (hopened : (after .atrac1 calls).parameters = some p) :
    ∃ (e : Atrac1.Encoder) (index : Nat), (after .atrac1 calls).encoder = .atrac1 e ∧
      (Encoder.atrac1 e).outline.IsWhole ∧ e.setup = some { channels := p.channels, index } := by
  have horigin := origin_after .atrac1 calls
  rw [hopened] at horigin
  obtain ⟨hcodec, hwhole, -⟩ := of_origin_eq_ok horigin
  cases he : (after .atrac1 calls).encoder with
  | atrac1 e =>
    rw [he] at horigin hwhole
    obtain ⟨-, index, -, hsetup⟩ := Encoder.exists_setup_of_opened horigin
    exact ⟨e, index, rfl, hwhole, hsetup⟩
  | atrac3 | atrac3Plus =>
    rw [he] at hcodec
    cases hcodec

theorem isHalfLong_eq_false (hopened : (after .atrac1 calls).parameters = some p)
    (hheard : (after .atrac1 calls).encoder.refusal frame = none)
    (h : p.channels = 2 → frame.isHalfLong = false) : frame.isHalfLong = false := by
  obtain ⟨e, index, he, hwhole, hsetup⟩ := exists_of_opened hopened
  rw [he] at hheard
  have htwo := Encoder.length_le_two hwhole hheard
  obtain ⟨setup, hsetup', hcount, -⟩ := Atrac1.Encoder.of_refusal_eq_none hheard
  obtain rfl := Option.some.inj (hsetup.symm.trans hsetup')
  refine Bool.eq_false_iff.2 fun hhalf => ?_
  have hleast := SpectralFrame.two_le_of_isHalfLong hhalf
  rw [h (hcount.symm.trans (Nat.le_antisymm htwo hleast))] at hhalf
  cases hhalf

/-- **A frame that is encoded changes the estimate by the channels that are heard in it. With short
windows in some channel it leaves the estimate alone, unless it has long windows in the first of two
channels only; and in a run without such frames the estimate is that of the frames with long windows
only.** -/
theorem loudness_afterFrames (hopened : (after .atrac1 calls).parameters = some p) (sink : Sink) :
    let e := (after .atrac1 calls).encoder
    (∀ frame, (e.encodeFrame frame sink).1 = .ok () →
      let later := (e.encodeFrame frame sink).2.1
      later.loudness = e.loudness.trackChannels (frame.heard.map Atrac1.level) ∧
        (frame.isAllLong = false → (p.channels = 2 → frame.isHalfLong = false) →
          later.loudness = e.loudness)) ∧
    ∀ frames, (∀ result ∈ (e.encodeFrames frames sink).1, result = .ok ()) →
      (p.channels = 2 → ∀ frame ∈ frames, frame.isHalfLong = false) → ∀ sink',
        (e.afterFrames frames sink).loudness =
          (e.afterFrames (frames.filter (·.isAllLong)) sink').loudness := by
  obtain ⟨e, index, he, hwhole, -⟩ := exists_of_opened hopened
  rw [he]
  refine ⟨fun frame hencoded => ?_, fun frames hencoded hhalf sink' => ?_⟩
  · have hheard := Encoder.refusal_of_encodeFrame hencoded
    have hlater := Encoder.loudness_encodeFrame hwhole hheard sink
    refine ⟨hlater, fun hlong hhalf => hlater.trans ?_⟩
    rw [SpectralFrame.heard_of_short hlong (isHalfLong_eq_false hopened (he ▸ hheard) hhalf)]
    rfl
  · have hheard := Encoder.refusal_of_encodeFrames hwhole hencoded
    have hneutral : ∀ frame ∈ frames, frame.isAllLong = false → frame.heard = [] := by
      intro frame hframe hlong
      exact SpectralFrame.heard_of_short hlong
        (isHalfLong_eq_false hopened (he ▸ hheard frame hframe) fun htwo => hhalf htwo frame hframe)
    have hkept : ∀ frame ∈ frames.filter (·.isAllLong), (Encoder.atrac1 e).refusal frame = none :=
      fun frame hframe => hheard frame (List.mem_of_mem_filter hframe)
    rw [Encoder.loudness_of_heard hwhole hheard, Encoder.loudness_of_heard hwhole hkept]
    exact (Atrac1.foldl_hear_filter
      (fun frame hframe => Encoder.length_le_two hwhole (hheard frame hframe)) hneutral _).symm

/-! ### Silence in short windows -/

/-- A channel of silence in short windows. -/
def shortChannel : ChannelSpectrum :=
  { silentChannel 512 with windows := .ofShortBands true true true }

/-- Two channels of silence in short windows. -/
def shortFrame : SpectralFrame := ⟨[shortChannel, shortChannel]⟩

/-- Two channels of silence, the second in short windows. -/
def halfLongFrame : SpectralFrame := ⟨[silentChannel 512, shortChannel]⟩

/-- An encoder that has been opened for two channels. -/
def stereoEncoder : Encoder := (after .atrac1 [.openWith stereo]).encoder

theorem encodeFrames_silent (frames : List SpectralFrame)
    (h : ∀ frame ∈ frames, frame ∈ [silentFrame, shortFrame, halfLongFrame]) :
    ∀ result ∈ (stereoEncoder.encodeFrames frames (.packets stereoMemory)).1, result = .ok () := by
  have hopened : (after .atrac1 [.openWith stereo]).parameters = some stereo := rfl
  obtain ⟨e, index, he, hwhole, -⟩ := exists_of_opened hopened
  have hchecks : ∀ frame ∈ [silentFrame, shortFrame, halfLongFrame],
      stereoEncoder.refusal frame = none := by
    rintro frame (_ | ⟨_, _ | ⟨_, _ | ⟨_, ⟨⟩⟩⟩⟩) <;> rfl
  have hlines : ∀ frame ∈ [silentFrame, shortFrame, halfLongFrame], ∀ ch ∈ frame.channels,
      Atrac1.isFull ch = true := by
    have hsilent : Atrac1.isFull (silentChannel 512) = true :=
      Atrac1.isFull_iff.2 (length_silentChannel 512)
    have hshort : Atrac1.isFull shortChannel = true := hsilent
    simp [silentFrame, shortFrame, halfLongFrame, hsilent, hshort]
  rw [show stereoEncoder = .atrac1 e from he] at hchecks ⊢
  exact Encoder.encodeFrames_of_isFull hwhole (fun frame hframe => hchecks frame (h frame hframe))
    (fun frame hframe => hlines frame (h frame hframe)) stereoMemory

theorem loudness_shortFrame :
    let e := stereoEncoder
    let sink := Sink.packets stereoMemory
    (∀ result ∈ (e.encodeFrames [silentFrame, shortFrame] sink).1, result = .ok ()) ∧
      (e.afterFrames [silentFrame, shortFrame] sink).loudness =
        (e.afterFrames [silentFrame] sink).loudness ∧
      (e.encodeFrame shortFrame sink).2.1.loudness = e.loudness := by
  have hopened : (after .atrac1 [.openWith stereo]).parameters = some stereo := rfl
  obtain ⟨hstep, hrun⟩ := loudness_afterFrames hopened (.packets stereoMemory)
  have hencoded := encodeFrames_silent [silentFrame, shortFrame] (by simp)
  have halone := encodeFrames_silent [shortFrame] (by simp)
  have hshort : shortFrame.isHalfLong = false := rfl
  unfold stereoEncoder at *
  refine ⟨hencoded, hrun _ hencoded (fun _ => ?_) _, ?_⟩
  · rintro frame (_ | ⟨_, _ | ⟨_, ⟨⟩⟩⟩) <;> rfl
  · exact (hstep shortFrame (Encoder.encodeFrame_of_encodeFrames halone)).2 rfl fun _ => hshort

/-- Though the second channel has short windows, the first one changes the estimate. -/
theorem loudness_halfLongFrame :
    let e := stereoEncoder
    let sink := Sink.packets stereoMemory
    (∀ result ∈ (e.encodeFrames [halfLongFrame] sink).1, result = .ok ()) ∧
      halfLongFrame.isAllLong = false ∧
      (e.afterFrames [halfLongFrame] sink).loudness ≠
        (e.afterFrames ([halfLongFrame].filter (·.isAllLong)) sink).loudness := by
  have hopened : (after .atrac1 [.openWith stereo]).parameters = some stereo := rfl
  obtain ⟨e, index, he, hwhole, -⟩ := exists_of_opened hopened
  have hinitial : stereoEncoder.loudness = .initial := rfl
  have hencoded := encodeFrames_silent [halfLongFrame] (by simp)
  have hheard := Encoder.refusal_of_encodeFrame (Encoder.encodeFrame_of_encodeFrames hencoded)
  refine ⟨hencoded, rfl, ?_⟩
  rw [show stereoEncoder = .atrac1 e from he] at hheard hinitial ⊢
  show ((Encoder.atrac1 e).encodeFrame halfLongFrame _).2.1.loudness ≠ (Encoder.atrac1 e).loudness
  rw [Encoder.loudness_encodeFrame hwhole hheard, show e.loudness = .initial from hinitial, hinitial]
  intro hsame
  have hvalue : 0.98 * Loudness.unit + 0.02 * Atrac1.level (silentChannel 512) = Loudness.unit :=
    congrArg Loudness.value hsame
  rcases Atrac1.isNaught_level 512 .long with hlevel | hlevel | hlevel <;>
    exact absurd (hlevel ▸ hvalue) (by decide +kernel)

end Session

end SpectralCoding
