import SpectralCoding.Atrac3Plus.FrequencyPack
import SpectralCoding.Spectrum

/-!
# Tones of an ATRAC3+ frame

    1       there are tones; if there are:
    1       amplitude mode
    2 to 6  number of tone bands
    1 1 1   bands shared, swapped and inverted, with two channels
            every channel, its bands in order; with a mode before envelopes and frequencies in the
            second one: envelopes, numbers of waves, frequencies, amplitudes, phases

* `Atrac3Plus.checkTones` : the checks on the tone bands of a channel, in the order in which they
  are reported.
* `Atrac3Plus.toneBandWords` : the code book of the number of tone bands.
* `Atrac3Plus.packTones` : the fields of the tones of all channels. No band is shared between
  channels.
-/

namespace SpectralCoding

namespace Atrac3Plus

/-- The most tone bands. -/
def mostToneBands : Nat := 16

/-- The most waves of a band. -/
def mostBandWaves : Nat := 15

/-- The most waves of a channel. -/
def mostChannelWaves : Nat := 48

/-! ### Checks -/

/-- The frequencies of a row of waves never fall. -/
def isAscending : List Wave → Bool
  | a :: b :: rest => a.frequency ≤ b.frequency && isAscending (b :: rest)
  | _ => true

/-- A wave fits its fields. -/
def fitsWaveFields (w : Wave) : Bool := w.frequency ≤ 1023 && w.amplitude ≤ 63 && w.phase ≤ 31

/-- An envelope position, if given, fits its field. -/
def fitsEnvelopeField (position : Option Nat) : Bool := position.all (· ≤ 31)

/-- A tone band is acceptable as the band with number `band`. -/
def checkToneBand (band : Nat) (t : ToneBand) : Except Error Unit :=
  if mostBandWaves < t.waves.length then .error (.bandWaves band t.waves.length)
  else if !isAscending t.waves then .error (.waveOrder band)
  else if !t.waves.all fitsWaveFields then .error (.waveRange band)
  else if !(fitsEnvelopeField t.envelope.start && fitsEnvelopeField t.envelope.stop) then
    .error (.envelopeRange band)
  else .ok ()

/-- Tone bands are acceptable as the bands from number `band` on. -/
def checkToneBands : (band : Nat) → List ToneBand → Except Error Unit
  | _, [] => .ok ()
  | band, t :: ts =>
    match checkToneBand band t with
    | .error e => .error e
    | .ok () => checkToneBands (band + 1) ts

/-- The number of waves of a channel. -/
def waveCount (ts : List ToneBand) : Nat := (ts.map (·.waves.length)).sum

/-- The tone bands of a channel are acceptable. -/
def checkTones (ts : List ToneBand) : Except Error Unit :=
  if mostToneBands < ts.length then .error (.toneBands ts.length mostToneBands)
  else match checkToneBands 0 ts with
    | .error e => .error e
    | .ok () =>
      if mostChannelWaves < waveCount ts then .error (.channelWaves (waveCount ts) mostChannelWaves)
      else .ok ()

/-! ### Packing -/

/-- How many words of each width the book of the number of tone bands has. -/
def toneBandCounts : List Nat := [0, 1, 2, 3, 6, 4, 0, 0, 0, 0, 0, 0]

/-- The words of the number of tone bands, one band first. -/
def toneBandWords : List Codeword := Codeword.canonical toneBandCounts

theorem book_toneBandCounts :
    Codeword.book toneBandCounts (List.range mostToneBands) mostToneBands = .ok toneBandWords := rfl

/-- The number of bands of a channel up to the last one with a wave. -/
def sounding (ts : List ToneBand) : Nat := (ts.reverse.dropWhile (·.waves.isEmpty)).length

/-- The number of bands that are coded for all channels. -/
def codedToneBands (channels : List (List ToneBand)) : Nat := (channels.map sounding).foldl max 0

/-- An envelope position, if given, behind a flag. -/
def positionFields : Option Nat → Fields
  | none => [.flag false]
  | some p => [.flag true, ⟨p, 5⟩]

/-- The fields of an envelope. -/
def envelopeFields (e : Envelope) : Fields := positionFields e.start ++ positionFields e.stop

/-- The frequencies of a band, behind their direction if there are several. -/
def frequencyFields (waves : List Wave) : Fields :=
  let pack := packFrequencies (waves.map (·.frequency))
  (if 1 < waves.length then [.flag pack.isDown] else []) ++ if waves.isEmpty then [] else pack.fields

/-- The fields of channel `channel`, whose coded bands are `ts`. -/
def channelFields (channel : Nat) (ts : List ToneBand) : Fields :=
  let mode : Fields := if channel = 0 then [] else [⟨0, 1⟩]
  let waves := ts.flatMap (·.waves)
  mode ++ ts.flatMap (envelopeFields ·.envelope)
    ++ ⟨0, channel + 1⟩ :: (ts.map fun t => ⟨t.waves.length, 4⟩)
    ++ mode ++ ts.flatMap (frequencyFields ·.waves)
    ++ ⟨0, channel + 1⟩ :: (waves.map fun w => ⟨w.amplitude, 6⟩)
    ++ waves.map fun w => ⟨w.phase, 5⟩

/-- The first `count` bands, silent where there are fewer. -/
def firstBands (count : Nat) (ts : List ToneBand) : List ToneBand :=
  (List.range count).map fun i => ts.getD i {}

/-- The fields of the tones of all channels. -/
def packTones (channels : List (List ToneBand)) : Fields :=
  let count := codedToneBands channels
  if count = 0 then [.flag false]
  else
    [.flag true, .flag true, .ofWord (toneBandWords.getD (count - 1) .none)]
      ++ (if channels.length = 2 then [.flag false, .flag false, .flag false] else [])
      ++ channels.zipIdx.flatMap fun (ts, channel) => channelFields channel (firstBands count ts)

/-- The fields of the tones of all channels, if the number of bands has a word. -/
def packTones? (channels : List (List ToneBand)) : Except Error Fields :=
  if codedToneBands channels ≤ mostToneBands then .ok (packTones channels) else .error .outOfRange

end Atrac3Plus

end SpectralCoding
