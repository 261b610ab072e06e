import SpectralCoding.Proofs.Encoder.Sessions

/-!
# What a frame hands over

An ATRAC3 or ATRAC3+ frame is made as a whole before it is handed over. ATRAC1 hands over the unit
of a channel before it looks at the spectrum of the next one, so that a second channel of the wrong
length leaves half a frame behind.

* `Parameters.packetSizes` : the sizes of the packets of a frame.
* `Encoder.BreaksOff` : the frames that are refused half-way.
* `Session.isAllOrNothing_iff` : **a frame hands over all its packets or none, unless it breaks
  off.**
* `Session.breaksOff_halfFrame` : a frame that does.
-/

namespace SpectralCoding

/-- The sizes of the packets of a frame: for ATRAC1 a unit for each channel, else a single frame of
the size that was chosen. -/
def Parameters.packetSizes (p : Parameters) : List Nat :=
  match p.options with
  | .atrac1 _ => List.replicate p.channels Atrac1.unitBytes
  | .atrac3 _ => [((Atrac3.profileFor p.bitRate).map (·.frameSize)).getD 0]
  | .atrac3Plus options => [options.frameSize]

theorem Parameters.packetSizes_of_atrac1 {p : Parameters} {options : Atrac1Options}
    (h : p.atrac1? = some options) :
    p.packetSizes = List.replicate p.channels Atrac1.unitBytes := by
  unfold Parameters.atrac1? at h
  unfold Parameters.packetSizes
  cases hoptions : p.options with
  | atrac1 => rfl
  | atrac3 | atrac3Plus => simp [hoptions] at h

theorem Parameters.packetSizes_of_atrac3 {p : Parameters} {options : Atrac3Options}
    (h : p.atrac3? = some options) {profile : Atrac3.Profile}
    (hprofile : Atrac3.profileFor p.bitRate = some profile) :
    p.packetSizes = [profile.frameSize] := by
  unfold Parameters.atrac3? at h
  unfold Parameters.packetSizes
  cases hoptions : p.options with
  | atrac3 =>
    rw [hprofile]
    rfl
  | atrac1 | atrac3Plus => simp [hoptions] at h

theorem Parameters.packetSizes_of_atrac3Plus {p : Parameters} {options : Atrac3PlusOptions}
    (h : p.atrac3Plus? = some options) : p.packetSizes = [options.frameSize] := by
  unfold Parameters.atrac3Plus? at h
  unfold Parameters.packetSizes
  cases hoptions : p.options with
  | atrac3Plus =>
    rw [hoptions] at h
    obtain rfl := Option.some.inj h
    rfl
  | atrac1 | atrac3 => simp [hoptions] at h

namespace Encoder

/-- A frame that passes the checks of an ATRAC1 encoder, in which the second of two channels has
another length than a frame and the first has not. -/
def BreaksOff (e : Encoder) (frame : SpectralFrame) : Prop :=
  e.codec = .atrac1 ∧ e.refusal frame = none ∧ ∃ first second,
    frame.channels = [first, second] ∧ first.lines.length = 512 ∧ second.lines.length ≠ 512

variable {e : Encoder} {p : Parameters}

/-- An ATRAC1 encoder is open for the channels of the parameters that its outline was opened with. -/
theorem exists_setup_of_opened {e : Atrac1.Encoder}
    (hopened : (closed .atrac1).openWith p = (.ok (), (atrac1 e).outline)) :
    ∃ options index, p.atrac1? = some options ∧
      e.setup = some { channels := p.channels, index } := by
  obtain ⟨opened, hopen, houtline⟩ := of_map_id_eq hopened
  obtain ⟨options, index, -, hoptions, -, rfl⟩ := Atrac1.Encoder.openWith_eq_ok hopen
  exact ⟨options, index, hoptions, congrArg Atrac1.Encoder.setup (atrac1.inj houtline).symm⟩

/-- A frame that is heard is handed over as a whole or not at all, unless it breaks off. -/
theorem isAllOrNothing_encodeFrame (hopened : (closed e.codec).openWith p = (.ok (), e.outline))
    {frame : SpectralFrame} (hheard : e.refusal frame = none) (hwhole : ¬e.BreaksOff frame)
    (memory : PacketSink) :
    IsAllOrNothing p.packetSizes memory (e.encodeFrame frame (.packets memory)).1
      (e.encodeFrame frame (.packets memory)).2.2 := by
  have he := isWhole_of_outline (of_openWith_eq_ok hopened).2.1
  -- the outline has the setup of the encoder, which therefore is the one it was opened with
  cases e with
  | atrac1 e =>
    obtain ⟨options, index, hoptions, hsetup⟩ := exists_setup_of_opened hopened
    obtain ⟨setup, hsetup', hcount, -⟩ := Atrac1.Encoder.of_refusal_eq_none hheard
    obtain rfl := Option.some.inj (hsetup.symm.trans hsetup')
    have hchannels : frame.channels.length = p.channels := hcount
    rw [Parameters.packetSizes_of_atrac1 hoptions, ← hchannels]
    refine Atrac1.Encoder.isAllOrNothing_encodeFrame he hheard ?_ memory
    intro first second hchannels hfull
    by_contra hshort
    exact hwhole ⟨rfl, hheard, first, second, hchannels, Atrac1.isFull_iff.1 hfull,
      fun hlength => hshort (Atrac1.isFull_iff.2 hlength)⟩
  | atrac3 e =>
    obtain ⟨opened, hopen, houtline⟩ := of_map_id_eq hopened
    obtain ⟨options, profile, -, hoptions, hprofile, -, -, rfl⟩ :=
      Atrac3.Encoder.openWith_eq_ok hopen
    have hsetup : e.setup = some _ := congrArg Atrac3.Encoder.setup (atrac3.inj houtline).symm
    obtain ⟨setup, hsetup', hcount⟩ := Atrac3.Encoder.of_refusal_eq_none hheard
    obtain rfl := Option.some.inj (hsetup.symm.trans hsetup')
    rw [Parameters.packetSizes_of_atrac3 hoptions hprofile]
    exact Atrac3.Encoder.isAllOrNothing_encodeFrame he hsetup hcount memory
  | atrac3Plus e =>
    obtain ⟨opened, hopen, houtline⟩ := of_map_id_eq hopened
    obtain ⟨options, -, hoptions, rfl⟩ := Atrac3Plus.Encoder.openWith_eq_ok hopen
    have hsetup : e.setup = some ⟨p.channels, options.frameSize⟩ :=
      congrArg Atrac3Plus.Encoder.setup (atrac3Plus.inj houtline).symm
    rw [Parameters.packetSizes_of_atrac3Plus hoptions]
    exact Atrac3Plus.Encoder.isAllOrNothing_encodeFrame hheard hsetup memory

theorem encodeFrame_of_breaksOff (he : e.IsWhole) {frame : SpectralFrame} (h : e.BreaksOff frame)
    (memory : PacketSink) :
    ∃ (unit : List UInt8) (found : Nat), unit.length = 212 ∧
      (e.encodeFrame frame (.packets memory)).1 = .error (.spectrumLength found 512) ∧
      (e.encodeFrame frame (.packets memory)).2.2 = .packets (memory.write unit) := by
  obtain ⟨hcodec, hheard, first, second, hchannels, hfull, hshort⟩ := h
  cases e with
  | atrac1 e =>
    have hsecond : Atrac1.isFull second = false :=
      Bool.eq_false_iff.2 fun hfull => hshort (Atrac1.isFull_iff.1 hfull)
    obtain ⟨unit, hunit, hresult, hsink⟩ := Atrac1.Encoder.encodeFrame_of_breaksOff he hheard
      hchannels (Atrac1.isFull_iff.2 hfull) hsecond memory
    exact ⟨unit, second.lines.length, hunit, hresult, hsink⟩
  | atrac3 | atrac3Plus => cases hcodec

end Encoder

namespace Session

/-- **A frame hands over all its packets or none, unless it breaks off; then the unit of its first
channel is left behind.** -/
theorem isAllOrNothing_iff {codec : CodecId} {calls : List Call} {p : Parameters}
    (hopened : (after codec calls).parameters = some p) (frame : SpectralFrame)
    (memory : PacketSink) :
    let e := (after codec calls).encoder
    let done := e.encodeFrame frame (.packets memory)
    (IsAllOrNothing p.packetSizes memory done.1 done.2.2 ↔ ¬e.BreaksOff frame) ∧
      (e.BreaksOff frame → ∃ (unit : List UInt8) (found : Nat), unit.length = 212 ∧
        done.1 = .error (.spectrumLength found 512) ∧
        done.2.2 = .packets (memory.write unit)) := by
  intro e done
  have horigin := origin_after codec calls
  rw [hopened] at horigin
  obtain ⟨hcodec, hwhole, -⟩ := of_origin_eq_ok horigin
  have he : e.IsWhole := Encoder.isWhole_of_outline hwhole
  have hbreaks : e.BreaksOff frame → _ := fun h => Encoder.encodeFrame_of_breaksOff he h memory
  refine ⟨⟨?_, fun hunbroken => ?_⟩, hbreaks⟩
  · intro hall hbroken
    obtain ⟨unit, found, -, hresult, hsink⟩ := hbreaks hbroken
    rw [hresult, hsink] at hall
    exact not_isAllOrNothing_of_write _ _ _ _ hall
  · cases hheard : e.refusal frame with
    | some cause =>
      simp only [done, Encoder.encodeFrame_of_refusal hheard]
      rfl
    | none =>
      have hopen : (Encoder.closed e.codec).openWith p = (.ok (), e.outline) := by
        rw [← Encoder.codec_outline e, hcodec]
        exact horigin
      exact Encoder.isAllOrNothing_encodeFrame hopen hheard hunbroken memory

/-- An encoder for two channels. -/
def stereo : Parameters := .default .atrac1 2 292000

/-- An empty sink for two channels. -/
def stereoMemory : PacketSink := { name := "", channels := 2 }

/-- A channel of silence. -/
def silentChannel (lines : Nat) : ChannelSpectrum := { lines := List.replicate lines 0 }

theorem length_silentChannel (lines : Nat) : (silentChannel lines).lines.length = lines :=
  List.length_replicate

/-- Two channels of silence. -/
def silentFrame : SpectralFrame := ⟨[silentChannel 512, silentChannel 512]⟩

theorem isAllOrNothing_silentFrame :
    (after .atrac1 [.openWith stereo, .reset]).parameters = some stereo ∧
      stereo.packetSizes = [212, 212] ∧
      IsAllOrNothing [212, 212] stereoMemory
        ((after .atrac1 [.openWith stereo, .reset]).encoder.encodeFrame silentFrame
          (.packets stereoMemory)).1
        ((after .atrac1 [.openWith stereo, .reset]).encoder.encodeFrame silentFrame
          (.packets stereoMemory)).2.2 := by
  have hsizes : stereo.packetSizes = [212, 212] := rfl
  have hopened : (after .atrac1 [.openWith stereo, .reset]).parameters = some stereo := rfl
  have hunbroken : ¬(after .atrac1 [.openWith stereo, .reset]).encoder.BreaksOff silentFrame := by
    rintro ⟨-, -, first, second, hchannels, -, hshort⟩
    obtain ⟨-, hrest⟩ := List.cons.inj hchannels
    obtain ⟨rfl, -⟩ := List.cons.inj hrest
    exact hshort (length_silentChannel 512)
  refine ⟨hopened, hsizes, ?_⟩
  rw [← hsizes, (isAllOrNothing_iff hopened silentFrame stereoMemory).1]
  exact hunbroken

/-- Two channels, the second of which lacks a line. -/
def halfFrame : SpectralFrame := ⟨[silentChannel 512, silentChannel 511]⟩

theorem breaksOff_halfFrame :
    ((after .atrac1 [.openWith stereo]).encoder.encodeFrame halfFrame
        (.packets stereoMemory)).1 = .error (.spectrumLength 511 512) ∧
      ∃ unit : List UInt8, unit.length = 212 ∧
        ((after .atrac1 [.openWith stereo]).encoder.encodeFrame halfFrame
          (.packets stereoMemory)).2.2 =
            .packets { stereoMemory with packets := [⟨unit, 0⟩] } := by
  let opened : Atrac1.Encoder :=
    { setup := some { channels := 2, index := 7 }
      pipelines := List.replicate 2 (.ofStages (Atrac1.stages true false)) }
  have hopen : Atrac1.Encoder.closed.openWith stereo = (.ok (), opened) := rfl
  have he : (after .atrac1 [.openWith stereo]).encoder = .atrac1 opened := rfl
  have hheard : opened.refusal halfFrame = none := rfl
  have hfull : Atrac1.isFull (silentChannel 512) = true :=
    Atrac1.isFull_iff.2 (length_silentChannel 512)
  have hshort : Atrac1.isFull (silentChannel 511) = false := by
    rw [Atrac1.isFull, length_silentChannel]
    rfl
  obtain ⟨unit, hunit, hresult, hsink⟩ := Atrac1.Encoder.encodeFrame_of_breaksOff
    (Atrac1.Encoder.isWhole_opened hopen) hheard rfl hfull hshort stereoMemory
  rw [length_silentChannel] at hresult
  simp only [he, Encoder.encodeFrame, hresult, hsink]
  exact ⟨rfl, unit, hunit, rfl⟩

end Session

end SpectralCoding
