import SpectralCoding.Allocation
import SpectralCoding.Allocation.ShiftSearch
import SpectralCoding.Atrac1.Dequantised
import SpectralCoding.Atrac1.Encoder
import SpectralCoding.Atrac1.SoundUnit
import SpectralCoding.Atrac1.Stages
import SpectralCoding.Atrac1.WordLength
import SpectralCoding.Atrac3.Allocation
import SpectralCoding.Atrac3.Encoder
import SpectralCoding.Atrac3.Gain
import SpectralCoding.Atrac3.Mantissa
import SpectralCoding.Atrac3.SpectrumCoding
import SpectralCoding.Atrac3.TonalGroup
import SpectralCoding.Atrac3.TonalSearch
import SpectralCoding.Atrac3Plus.Encoder
import SpectralCoding.Atrac3Plus.Field
import SpectralCoding.Atrac3Plus.Frame
import SpectralCoding.Atrac3Plus.FrequencyPack
import SpectralCoding.Atrac3Plus.SpectrumFields
import SpectralCoding.Atrac3Plus.Stages
import SpectralCoding.Atrac3Plus.Tones
import SpectralCoding.Atrac3Plus.WordLengthFields
import SpectralCoding.Binary32
import SpectralCoding.Bits.Basic
import SpectralCoding.Bits.ByteReader
import SpectralCoding.Bits.ByteWriter
import SpectralCoding.Bits.Emission
import SpectralCoding.Bits.Reader
import SpectralCoding.Bits.Writer
import SpectralCoding.Block
import SpectralCoding.CodecId
import SpectralCoding.Codeword
import SpectralCoding.Encoder
import SpectralCoding.Error
import SpectralCoding.Hearing.Loudness
import SpectralCoding.Hearing.Threshold
import SpectralCoding.Layout
import SpectralCoding.Log.Calendar
import SpectralCoding.Log.Date
import SpectralCoding.Log.Retention
import SpectralCoding.Log.Settings
import SpectralCoding.Overflow
import SpectralCoding.Parameters
import SpectralCoding.Pipeline.Basic
import SpectralCoding.Pipeline.Negotiation
import SpectralCoding.Proofs.Allocation.Cutting
import SpectralCoding.Proofs.Allocation.LastAffordable
import SpectralCoding.Proofs.Allocation.Probing
import SpectralCoding.Proofs.Allocation.Searching
import SpectralCoding.Proofs.Allocation.Trimming
import SpectralCoding.Proofs.Atrac1.Acceptance
import SpectralCoding.Proofs.Atrac1.BlockCount
import SpectralCoding.Proofs.Atrac1.Boosting
import SpectralCoding.Proofs.Atrac1.Encoding
import SpectralCoding.Proofs.Atrac1.ReadBlocks
import SpectralCoding.Proofs.Atrac1.RoundTrip
import SpectralCoding.Proofs.Atrac1.Settling
import SpectralCoding.Proofs.Atrac1.UnitBits
import SpectralCoding.Proofs.Atrac1.UnitBudget
import SpectralCoding.Proofs.Atrac1.WordLengthBounds
import SpectralCoding.Proofs.Atrac3.Allotted
import SpectralCoding.Proofs.Atrac3.Encoding
import SpectralCoding.Proofs.Atrac3.Extraction
import SpectralCoding.Proofs.Atrac3.GainCost
import SpectralCoding.Proofs.Atrac3.GroupCounts
import SpectralCoding.Proofs.Atrac3.Grouping
import SpectralCoding.Proofs.Atrac3.MantissaCost
import SpectralCoding.Proofs.Atrac3.MantissaDecoder
import SpectralCoding.Proofs.Atrac3.Opened
import SpectralCoding.Proofs.Atrac3.Quantised
import SpectralCoding.Proofs.Atrac3.Rounds
import SpectralCoding.Proofs.Atrac3.SelectorCosts
import SpectralCoding.Proofs.Atrac3.SpectrumBudget
import SpectralCoding.Proofs.Atrac3.SpectrumCost
import SpectralCoding.Proofs.Atrac3.SpectrumDecoder
import SpectralCoding.Proofs.Atrac3.TonalCost
import SpectralCoding.Proofs.Atrac3.TonalDecoder
import SpectralCoding.Proofs.Atrac3.TonalLines
import SpectralCoding.Proofs.Atrac3.UnitBudget
import SpectralCoding.Proofs.Atrac3.UnitDecoder
import SpectralCoding.Proofs.Atrac3Plus.Encoding
import SpectralCoding.Proofs.Atrac3Plus.FieldDecoder
import SpectralCoding.Proofs.Atrac3Plus.FrameBudget
import SpectralCoding.Proofs.Atrac3Plus.FrequencyDecoder
import SpectralCoding.Proofs.Atrac3Plus.LengthDecoder
import SpectralCoding.Proofs.Atrac3Plus.PartCosts
import SpectralCoding.Proofs.Atrac3Plus.Settling
import SpectralCoding.Proofs.Atrac3Plus.SpectrumDecoder
import SpectralCoding.Proofs.Atrac3Plus.ToneDecoder
import SpectralCoding.Proofs.Binary32.Magnitude
import SpectralCoding.Proofs.Binary32.Product
import SpectralCoding.Proofs.Binary32.Sign
import SpectralCoding.Proofs.Bits.Bytes
import SpectralCoding.Proofs.Bits.Cursor
import SpectralCoding.Proofs.Bits.Decoder
import SpectralCoding.Proofs.Bits.EmissionParts
import SpectralCoding.Proofs.Bits.InBytes
import SpectralCoding.Proofs.Bits.Positions
import SpectralCoding.Proofs.Bits.Reading
import SpectralCoding.Proofs.Bits.RoundTrip
import SpectralCoding.Proofs.Codeword.Canonical
import SpectralCoding.Proofs.Codeword.Dealing
import SpectralCoding.Proofs.Encoder.Hearing
import SpectralCoding.Proofs.Encoder.Packets
import SpectralCoding.Proofs.Encoder.Refusals
import SpectralCoding.Proofs.Encoder.Sessions
import SpectralCoding.Proofs.Encoder.Settling
import SpectralCoding.Proofs.Layout.Blocks
import SpectralCoding.Proofs.Layout.Placement
import SpectralCoding.Proofs.Log.Calendar
import SpectralCoding.Proofs.Log.Cleanup
import SpectralCoding.Proofs.Log.DateText
import SpectralCoding.Proofs.Log.Settings
import SpectralCoding.Proofs.Pipeline.Clearing
import SpectralCoding.Proofs.Pipeline.Run
import SpectralCoding.Proofs.Pipeline.Turns
import SpectralCoding.Proofs.Pipeline.Visits
import SpectralCoding.Proofs.Results
import SpectralCoding.Proofs.Search.Closing
import SpectralCoding.Proofs.Search.Exact
import SpectralCoding.Proofs.Search.Protocol
import SpectralCoding.Proofs.Sink.Numbering
import SpectralCoding.Proofs.Text.Lossy
import SpectralCoding.Search.Bisection
import SpectralCoding.Search.Dial
import SpectralCoding.Sink
import SpectralCoding.Spectrum
import SpectralCoding.Text.Blank
import SpectralCoding.Text.Json
import SpectralCoding.Text.JsonReader
import SpectralCoding.Text.Lossy
import SpectralCoding.Window
