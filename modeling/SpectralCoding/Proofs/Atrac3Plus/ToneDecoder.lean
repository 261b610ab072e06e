import Mathlib.Data.List.Chain
import Mathlib.Order.Bounds.Basic
import SpectralCoding.Atrac3Plus.Tones
import SpectralCoding.Proofs.Atrac3Plus.FrequencyDecoder

/-!
# Reading tones back

A frame holds the tones of its channels column by column: the envelopes of all bands, the numbers of
their waves, and one parameter of all waves after the other. A decoder that has the numbers can put
the bands together again.

* `Atrac3Plus.StoredTones` : what a frame says of its tones.
* `Atrac3Plus.readTones` : the decoder.
* `Atrac3Plus.isLeast_codedToneBands` : behind the coded bands there is no wave.
* `ToneBand.IsCodable` : a tone band that fits its fields: `isCodable_of_checkTones`.
* `Atrac3Plus.readsBack_channelFields` : the decoder undoes the tones of one channel.
* `Atrac3Plus.readTones_packTones` : **tone bands that were accepted are packed without loss.**
-/

namespace SpectralCoding

namespace Atrac3Plus

/-! ### The decoder -/

/-- What a frame says of its tones. -/
structure StoredTones where
  isPresent : Bool
  /-- The number of coded bands. -/
  bands : Nat
  /-- The coded bands of every channel. -/
  channels : List (List ToneBand)
  deriving DecidableEq, Repr

/-- What the fields of the tones of all channels say. -/
def storedTones (channels : List (List ToneBand)) : StoredTones :=
  let bands := codedToneBands channels
  { isPresent := bands ≠ 0, bands, channels := channels.map (firstBands bands) }

/-- Read an envelope position behind its flag. -/
def readPosition : Decoder (Option Nat) := do
  if ← .flag then some <$> .field 5 else return none

/-- Read an envelope. -/
def readEnvelope : Decoder Envelope := do
  let start ← readPosition
  let stop ← readPosition
  return { start, stop }

/-- Read the frequencies of a band with `count` waves, behind their direction if there are
several. -/
def readBandFrequencies (count : Nat) : Decoder (List Nat) := do
  let isDown ← if 1 < count then .flag else pure false
  readFrequencies isDown count

/-- Read the mode that only the second channel has. -/
def readMode (channel : Nat) : Decoder Unit := if channel = 0 then pure () else .expect 1 0

/-- A band whose waves have the given parameters. -/
def bandOf (envelope : Envelope) (frequencies amplitudes phases : List Nat) : ToneBand where
  waves := (frequencies.zip (amplitudes.zip phases)).map fun (f, a, p) => ⟨f, a, p⟩
  envelope := envelope

/-- Bands from the columns of their parameters. -/
def bandsOf (envelopes : List Envelope) (frequencies amplitudes phases : List (List Nat)) :
    List ToneBand :=
  (envelopes.zip (frequencies.zip (amplitudes.zip phases))).map fun (e, fs, as, ps) =>
    bandOf e fs as ps

/-- Read the tones of channel `channel`, which has `bands` coded bands. -/
def readChannelTones (bands channel : Nat) : Decoder (List ToneBand) := do
  readMode channel
  let envelopes ← .times bands readEnvelope
  .expect (channel + 1) 0
  let counts ← .times bands (.field 4)
  readMode channel
  let frequencies ← counts.mapM readBandFrequencies
  .expect (channel + 1) 0
  let amplitudes ← counts.mapM fun count => .times count (.field 6)
  let phases ← counts.mapM fun count => .times count (.field 5)
  return bandsOf envelopes frequencies amplitudes phases

/-- Read the flags of shared, swapped and inverted bands, which two channels have. -/
def readSharing (channels : Nat) : Decoder Unit :=
  if channels = 2 then do
    .expect 1 0
    .expect 1 0
    .expect 1 0
  else pure ()

/-- Read the tones of all channels. -/
def readTones (channels : Nat) : Decoder StoredTones := do
  if ← .flag then
    .expect 1 1
    let place ← .word toneBandWords
    readSharing channels
    let rows ← (List.range channels).mapM (readChannelTones (place + 1))
    return { isPresent := true, bands := place + 1, channels := rows }
  else return { isPresent := false, bands := 0, channels := List.replicate channels [] }

/-! ### Coded bands -/

/-- Behind the coded bands no channel has a wave, and there are no more coded bands than that
takes. -/
theorem isLeast_codedToneBands (channels : List (List ToneBand)) :
    IsLeast {n | ∀ ts ∈ channels, ∀ band, n ≤ band → (ts.getD band {}).waves = []}
      (codedToneBands channels) := by
  constructor
  · intro ts hts
    exact sounding_le_iff.1 (le_foldl_max (.inr (List.mem_map_of_mem hts)))
  · intro n hn
    refine foldl_max_le (Nat.zero_le n) fun x hx => ?_
    obtain ⟨ts, hts, rfl⟩ := List.mem_map.1 hx
    exact sounding_le_iff.2 (hn ts hts)

end Atrac3Plus

/-- A tone band that fits its fields. -/
structure ToneBand.IsCodable (t : ToneBand) : Prop where
  few : t.waves.length < 2 ^ 4
  ascending : (t.waves.map (·.frequency)).Pairwise (· ≤ ·)
  frequency : ∀ w ∈ t.waves, w.frequency ≤ 1023
  amplitude : ∀ w ∈ t.waves, w.amplitude < 2 ^ 6
  phase : ∀ w ∈ t.waves, w.phase < 2 ^ 5
  start : Atrac3Plus.fitsEnvelopeField t.envelope.start = true
  stop : Atrac3Plus.fitsEnvelopeField t.envelope.stop = true

namespace Atrac3Plus

/-! ### Accepted bands -/

section Accepted

variable {t : ToneBand} {ts : List ToneBand}

theorem isCodable_silent : ToneBand.IsCodable {} where
  few := by decide
  ascending := .nil
  frequency _ h := absurd h List.not_mem_nil
  amplitude _ h := absurd h List.not_mem_nil
  phase _ h := absurd h List.not_mem_nil
  start := rfl
  stop := rfl

theorem pairwise_of_isAscending {waves : List Wave} (h : isAscending waves = true) :
    (waves.map (·.frequency)).Pairwise (· ≤ ·) := by
  rw [← List.isChain_iff_pairwise, List.isChain_map]
  induction waves using isAscending.induct with
  | case1 a b rest ih =>
    obtain ⟨hle, hrest⟩ := Bool.and_eq_true_iff.1 h
    exact .cons_cons (of_decide_eq_true hle) (ih hrest)
  | case2 waves hshort =>
    rcases waves with _ | ⟨w, _ | ⟨w', rest⟩⟩
    · exact .nil
    · exact .singleton w
    · exact absurd rfl (hshort w w' rest)

theorem isCodable_of_checkToneBand {band : Nat} (h : checkToneBand band t = .ok ()) :
    t.IsCodable := by
  unfold checkToneBand at h
  split at h
  · cases h
  split at h
  · cases h
  split at h
  · cases h
  split at h
  · cases h
  rename_i hfew hascending hwaves henvelope
  simp only [Bool.not_eq_true', Bool.not_eq_false] at hascending hwaves henvelope
  obtain ⟨hstart, hstop⟩ := Bool.and_eq_true_iff.1 henvelope
  have hfits (w : Wave) (hw : w ∈ t.waves) :
      w.frequency ≤ 1023 ∧ w.amplitude ≤ 63 ∧ w.phase ≤ 31 := by
    have hfits := List.all_eq_true.1 hwaves w hw
    simpa [fitsWaveFields, and_assoc] using hfits
  exact {
    few := Nat.lt_succ_of_le (Nat.not_lt.1 hfew)
    ascending := pairwise_of_isAscending hascending
    frequency := fun w hw => (hfits w hw).1
    amplitude := fun w hw => Nat.lt_succ_of_le (hfits w hw).2.1
    phase := fun w hw => Nat.lt_succ_of_le (hfits w hw).2.2
    start := hstart
    stop := hstop }

theorem isCodable_of_checkToneBands {band : Nat} (h : checkToneBands band ts = .ok ()) :
    ∀ t ∈ ts, t.IsCodable := by
  induction ts generalizing band with
  | nil => exact fun _ ht => absurd ht List.not_mem_nil
  | cons t ts ih =>
    rw [checkToneBands] at h
    cases hband : checkToneBand band t with
    | error cause =>
      rw [hband] at h
      cases h
    | ok =>
      rw [hband] at h
      exact List.forall_mem_cons.2 ⟨isCodable_of_checkToneBand hband, ih h⟩

theorem isCodable_of_checkTones (h : checkTones ts = .ok ()) : ∀ t ∈ ts, t.IsCodable := by
  unfold checkTones at h
  split at h
  · cases h
  cases hbands : checkToneBands 0 ts with
  | error cause =>
    rw [hbands] at h
    cases h
  | ok => exact isCodable_of_checkToneBands hbands

theorem isCodable_of_mem_firstBands (count : Nat) (h : ∀ t ∈ ts, t.IsCodable) :
    ∀ t ∈ firstBands count ts, t.IsCodable := by
  intro t ht
  obtain ⟨i, -, rfl⟩ := List.mem_map.1 ht
  rw [List.getD_eq_getElem?_getD]
  cases hget : ts[i]? with
  | none => exact isCodable_silent
  | some t => exact h t (List.mem_of_getElem? hget)

end Accepted

/-! ### One channel -/

section Channel

variable {t : ToneBand} {ts : List ToneBand}

theorem readsBack_position {position : Option Nat} (h : fitsEnvelopeField position = true) :
    ReadsBack readPosition (positionFields position) position := by
  cases position with
  | none => exact (readsBack_flag false).append (.pure none)
  | some p =>
    have hp : p < 2 ^ 5 := Nat.lt_succ_of_le (of_decide_eq_true h)
    exact (readsBack_flag true).cons ((readsBack_field (by decide) hp).map some)

theorem readsBack_envelope (ht : t.IsCodable) :
    ReadsBack readEnvelope (envelopeFields t.envelope) t.envelope := by
  refine (readsBack_position ht.start).append ?_
  exact (readsBack_position ht.stop).bind_pure (Envelope.mk t.envelope.start)

theorem frequencyFields_eq (waves : List Wave) :
    frequencyFields waves =
      (if 1 < waves.length then [.flag (packFrequencies (waves.map (·.frequency))).isDown]
        else []) ++ (packFrequencies (waves.map (·.frequency))).fields := by
  cases waves <;> rfl

theorem readsBack_frequencies (ht : t.IsCodable) :
    ReadsBack (readBandFrequencies t.waves.length) (frequencyFields t.waves)
      (t.waves.map (·.frequency)) := by
  have hback := readsBack_packFrequencies ht.ascending (List.forall_mem_map.2 ht.frequency)
  rw [List.length_map] at hback
  rw [readBandFrequencies, frequencyFields_eq]
  by_cases hmany : 1 < t.waves.length
  · rw [if_pos hmany, if_pos hmany]
    exact (readsBack_flag _).append hback
  · -- a single index is written upwards, and the decoder has no direction to read
    have hup : (packFrequencies (t.waves.map (·.frequency))).isDown = false := by
      rw [← Bool.not_eq_true, (packFrequencies_choice _).1, List.length_map]
      exact fun h => hmany h.1
    rw [if_neg hmany, if_neg hmany, List.nil_append]
    rwa [hup] at hback

theorem readsBack_mode (channel : Nat) :
    ReadsBack (readMode channel) (if channel = 0 then [] else [⟨0, 1⟩]) () := by
  unfold readMode
  split
  · exact .pure ()
  · exact readsBack_expect (by decide) (by decide)

theorem readsBack_column {width : Nat} {value : Wave → Nat} (hwidth : width ≤ 32)
    (h : ∀ t ∈ ts, ∀ w ∈ t.waves, value w < 2 ^ width) :
    ReadsBack ((ts.map (·.waves.length)).mapM fun count => .times count (.field width))
      ((ts.flatMap (·.waves)).map fun w => ⟨value w, width⟩)
      (ts.map fun t => t.waves.map value) := by
  rw [List.map_flatMap]
  exact .flatMap (fun t : ToneBand => t.waves.length) fun t ht => readsBack_row hwidth (h t ht)

theorem bandsOf_columns (ts : List ToneBand) :
    bandsOf (ts.map (·.envelope)) (ts.map fun t => t.waves.map (·.frequency))
      (ts.map fun t => t.waves.map (·.amplitude)) (ts.map fun t => t.waves.map (·.phase)) = ts := by
  have hband (t : ToneBand) : bandOf t.envelope (t.waves.map (·.frequency))
      (t.waves.map (·.amplitude)) (t.waves.map (·.phase)) = t := by
    rw [bandOf, List.zip_map', List.zip_map', List.map_map]
    exact congrArg (ToneBand.mk · t.envelope) (List.map_id t.waves)
  rw [bandsOf, List.zip_map', List.zip_map', List.zip_map', List.map_map]
  exact (List.map_congr_left fun t _ => hband t).trans (List.map_id ts)

theorem readsBack_channelFields {channel : Nat} (hchannel : channel < 2)
    (hts : ∀ t ∈ ts, t.IsCodable) :
    ReadsBack (readChannelTones ts.length channel) (channelFields channel ts) ts := by
  have henvelopes : ReadsBack (.times ts.length readEnvelope)
      (ts.flatMap (envelopeFields ·.envelope)) (ts.map (·.envelope)) :=
    .times fun t ht => readsBack_envelope (hts t ht)
  have hcounts : ReadsBack (.times ts.length (.field 4))
      (ts.map fun t => ⟨t.waves.length, 4⟩) (ts.map (·.waves.length)) :=
    readsBack_row (by decide) fun t ht => (hts t ht).few
  have hfrequencies : ReadsBack ((ts.map (·.waves.length)).mapM readBandFrequencies)
      (ts.flatMap (frequencyFields ·.waves)) (ts.map fun t => t.waves.map (·.frequency)) :=
    .flatMap (fun t : ToneBand => t.waves.length) fun t ht => readsBack_frequencies (hts t ht)
  have hamplitudes : ReadsBack
      ((ts.map (·.waves.length)).mapM fun count => .times count (.field 6))
      ((ts.flatMap (·.waves)).map fun w => ⟨w.amplitude, 6⟩)
      (ts.map fun t => t.waves.map (·.amplitude)) :=
    readsBack_column (by decide) fun t ht => (hts t ht).amplitude
  have hphases : ReadsBack
      ((ts.map (·.waves.length)).mapM fun count => .times count (.field 5))
      ((ts.flatMap (·.waves)).map fun w => ⟨w.phase, 5⟩) (ts.map fun t => t.waves.map (·.phase)) :=
    readsBack_column (by decide) fun t ht => (hts t ht).phase
  have hmode := readsBack_mode channel
  have hexpect : ReadsBack (.expect (channel + 1) 0) [⟨0, channel + 1⟩] () :=
    readsBack_expect (by omega) (Nat.two_pow_pos _)
  have hjoined := hphases.bind_pure (bandsOf (ts.map (·.envelope))
    (ts.map fun t => t.waves.map (·.frequency)) (ts.map fun t => t.waves.map (·.amplitude)))
  rw [bandsOf_columns] at hjoined
  unfold channelFields
  simp only [List.append_assoc, List.cons_append]
  exact hmode.append (henvelopes.append (hexpect.cons (hcounts.append
    (hmode.append (hfrequencies.append (hexpect.cons (hamplitudes.append hjoined)))))))

end Channel

/-! ### All channels -/

section Channels

variable {channels : List (List ToneBand)}

theorem readsBack_sharing (count : Nat) :
    ReadsBack (readSharing count)
      (if count = 2 then [.flag false, .flag false, .flag false] else []) () := by
  unfold readSharing
  split
  · have hexpect : ReadsBack (.expect 1 0) [.flag false] () :=
      readsBack_expect (by decide) (by decide)
    exact hexpect.cons (hexpect.cons hexpect)
  · exact .pure ()

theorem readsBack_toneBandWord {place : Nat} (hplace : place < mostToneBands) :
    ReadsBack (.word toneBandWords) [.ofWord (toneBandWords.getD place .none)] place := by
  have hwords : ∀ place < mostToneBands,
      toneBandWords[place]? = some (toneBandWords.getD place .none) ∧
        (toneBandWords.getD place .none).width ≠ 0 ∧
        (toneBandWords.getD place .none).code < 2 ^ (toneBandWords.getD place .none).width := by
    decide
  obtain ⟨hword, hwidth, hfits⟩ := hwords place hplace
  exact readsBack_word (by decide) hword hwidth hfits

theorem length_firstBands (count : Nat) (ts : List ToneBand) :
    (firstBands count ts).length = count := by
  rw [firstBands, List.length_map, List.length_range]

/-- The channels are told apart by their places. -/
theorem readsBack_channels (hcount : channels.length ≤ 2)
    (h : ∀ ts ∈ channels, checkTones ts = .ok ()) (bands : Nat) :
    ReadsBack ((List.range channels.length).mapM (readChannelTones bands))
      (channels.zipIdx.flatMap fun (ts, channel) => channelFields channel (firstBands bands ts))
      (channels.map (firstBands bands)) := by
  have hrow : ∀ row ∈ channels.zipIdx, ReadsBack (readChannelTones bands row.2)
      (channelFields row.2 (firstBands bands row.1)) (firstBands bands row.1) := by
    rintro ⟨ts, channel⟩ hrow
    have hchannel : channel < channels.length := List.snd_lt_of_mem_zipIdx hrow
    have hcodable := isCodable_of_checkTones (h ts (List.fst_mem_of_mem_zipIdx hrow))
    have hback := readsBack_channelFields (Nat.lt_of_lt_of_le hchannel hcount)
      (isCodable_of_mem_firstBands bands hcodable)
    rwa [length_firstBands] at hback
  have hback := ReadsBack.flatMap Prod.snd hrow
  have hplaces : channels.zipIdx.map Prod.snd = List.range channels.length := by
    rw [List.zipIdx_map_snd, List.range_eq_range']
  have hvalues : (channels.zipIdx.map fun row => firstBands bands row.1) =
      channels.map (firstBands bands) := by
    have hfirst := congrArg (List.map (firstBands bands)) (List.zipIdx_map_fst 0 channels)
    rwa [List.map_map] at hfirst
  rwa [hplaces, hvalues] at hback

theorem readsBack_packTones (hcount : channels.length ≤ 2)
    (h : ∀ ts ∈ channels, checkTones ts = .ok ()) :
    ReadsBack (readTones channels.length) (packTones channels) (storedTones channels) := by
  have hle := codedToneBands_le h
  rcases hbands : codedToneBands channels with _ | place
  · have hfields : packTones channels = [.flag false] := if_pos hbands
    have hsilent : channels.map (firstBands 0) = List.replicate channels.length [] :=
      List.map_const' ..
    have hstored : storedTones channels = ⟨false, 0, List.replicate channels.length []⟩ := by
      rw [storedTones, hbands, hsilent]
      rfl
    rw [hfields, hstored]
    exact (readsBack_flag false).append (.pure _)
  · have hfields : packTones channels =
        [.flag true, .flag true, .ofWord (toneBandWords.getD place .none)] ++
          ((if channels.length = 2 then [.flag false, .flag false, .flag false] else []) ++
            channels.zipIdx.flatMap fun (ts, channel) =>
              channelFields channel (firstBands (place + 1) ts)) := by
      rw [packTones, hbands, if_neg (Nat.succ_ne_zero place), List.append_assoc]
      rfl
    have hstored : storedTones channels =
        ⟨true, place + 1, channels.map (firstBands (place + 1))⟩ := by
      rw [storedTones, hbands]
      rfl
    have hmode : ReadsBack (.expect 1 1) [.flag true] () :=
      readsBack_expect (by decide) (by decide)
    have hword := readsBack_toneBandWord (Nat.lt_of_succ_le (hbands ▸ hle))
    have hrows := (readsBack_channels hcount h (place + 1)).bind_pure fun rows =>
      (⟨true, place + 1, rows⟩ : StoredTones)
    rw [hfields, hstored]
    exact (readsBack_flag true).cons (hmode.cons (hword.cons
      ((readsBack_sharing channels.length).append hrows)))

/-- **Tone bands that were accepted are packed without loss.** They can be packed, no value has more
bits than its field, the coded bands end with the last one that has a wave in any channel, and a
decoder that knows the number of channels takes exactly the bits of the fields, whatever follows
them, for what they say of every coded band. -/
theorem readTones_packTones (hcount : channels.length = 1 ∨ channels.length = 2)
    (h : ∀ ts ∈ channels, checkTones ts = .ok ()) :
    packTones? channels = .ok (packTones channels) ∧
      (∀ f ∈ packTones channels, f.value < 2 ^ f.width) ∧
      IsLeast {n | ∀ ts ∈ channels, ∀ band, n ≤ band → (ts.getD band {}).waves = []}
        (codedToneBands channels) ∧
      ∀ rest, (readTones channels.length).run ⟨0, (packTones channels).emit.bits ++ rest⟩ =
        some (storedTones channels, ⟨Fields.cost (packTones channels), rest⟩) := by
  have hback := readsBack_packTones (by omega) h
  exact ⟨if_pos (codedToneBands_le h), hback.fits, isLeast_codedToneBands channels, hback.run⟩

end Channels

/-- Two channels that sound in different bands. -/
def duet : List (List ToneBand) :=
  [[{ waves := [⟨100, 40, 7⟩, ⟨700, 30, 3⟩], envelope := { start := some 4 } }],
    [{}, { waves := [⟨1023, 63, 31⟩] }, {}]]

theorem readTones_packTones_duet : codedToneBands duet = 2 ∧ ∀ rest,
    (readTones 2).run ⟨0, (packTones duet).emit.bits ++ rest⟩ =
      some (⟨true, 2, [[{ waves := [⟨100, 40, 7⟩, ⟨700, 30, 3⟩], envelope := { start := some 4 } },
        {}], [{}, { waves := [⟨1023, 63, 31⟩] }]]⟩, ⟨109, rest⟩) := by
  have hcheck : ∀ ts ∈ duet, checkTones ts = .ok () :=
    List.forall_mem_cons.2 ⟨rfl, List.forall_mem_singleton.2 rfl⟩
  obtain ⟨-, -, -, hrun⟩ := readTones_packTones (.inr rfl) hcheck
  exact ⟨by decide, hrun⟩

end Atrac3Plus

end SpectralCoding
