import SpectralCoding.CodecId

/-!
# Errors

An `Error` names the cause; its text is made in one place.

* `ErrorKind` : the classes a caller distinguishes.
* `Error` : the causes, each with the figures its text quotes.
* `Error.kind`, `Error.message` : the class of a cause and the text shown for it, which is the lead
  of the class followed by the detail of the cause.

`Error.outOfRange` stands apart: it is the caller's breach of an operation's precondition (a list or
a table is shorter than an index asks for) and has no text of its own.
-/

namespace SpectralCoding

/-- The class of an error. -/
inductive ErrorKind where
  /-- A parameter or an input frame is not acceptable. -/
  | invalidArgument
  /-- A request outside what is provided. -/
  | unsupported
  /-- A codec used in the wrong state. -/
  | codec
  /-- The output device failed. -/
  | io
  /-- The bit stream is exhausted. -/
  | endOfStream
  /-- A damaged bit stream. -/
  | invalidData
  /-- No encoder is registered for a codec. -/
  | codecNotFound
  /-- A result contradicts the budget it was made for. -/
  | internal
  /-- A precondition of the operation does not hold. -/
  | outOfRange
  deriving DecidableEq, Repr, Inhabited

/-- The words that open the text of an error of this class. -/
def ErrorKind.lead : ErrorKind → String
  | invalidArgument => "无效参数: "
  | unsupported => "不支持的操作: "
  | codec => "编解码器错误: "
  | io => "I/O 错误: "
  | endOfStream => "已到达码流末尾"
  | invalidData => "无效数据: "
  | codecNotFound => "未找到编解码器: "
  | internal => "内部错误: "
  | outOfRange => ""

/-- The cause of a failure. -/
inductive Error where
  /-- A read of more than 32 bits at once. -/
  | readWidth (width : Nat)
  /-- A read past the last bit. -/
  | endOfStream
  /-- A spectrum of the wrong length. -/
  | spectrumLength (found expected : Nat)
  /-- Parameters meant for another codec. -/
  | codecMismatch (expected found : CodecId)
  /-- A sampling rate other than the supported one. -/
  | sampleRate (codec : CodecId) (supported found : Nat)
  /-- A number of channels other than one or two. -/
  | channelSupport (codec : CodecId) (found : Nat)
  /-- Options of another codec. -/
  | missingOptions (codec : CodecId)
  /-- A frame before the encoder was opened. -/
  | notOpen (codec : CodecId)
  /-- A frame with more or fewer channels than the encoder was opened for. -/
  | channelCount (expected found : Nat)
  /-- An ATRAC1 table index for the number of blocks outside 1 to 8. -/
  | blockTableIndex (index : Nat)
  /-- An ATRAC1 window mode the sound unit cannot hold. -/
  | windowMode (counts : List Nat)
  /-- A fixed number of ATRAC3 blocks outside 1 to 32. -/
  | fixedBlockCount (count : Nat)
  /-- A bit rate above the fastest ATRAC3 profile. -/
  | noProfile (bitRate : Nat)
  /-- An ATRAC3 profile that asks for joint stereo. -/
  | jointStereo (bitRate : Nat)
  /-- Gain points for more bands than are coded. -/
  | gainBands (found limit : Nat)
  /-- Too many gain points in one band. -/
  | gainPoints (found : Nat)
  /-- A gain level or location too large for its field. -/
  | gainRange
  /-- An ATRAC3+ frame size outside the permitted range. -/
  | frameSize (size least most : Nat)
  /-- An ATRAC3+ frame too small for the fixed fields of its channels. -/
  | frameTooSmall (size channels : Nat)
  /-- Too many tone bands. -/
  | toneBands (found limit : Nat)
  /-- Too many waves in a tone band. -/
  | bandWaves (band found : Nat)
  /-- Waves out of ascending frequency order. -/
  | waveOrder (band : Nat)
  /-- A wave parameter too large for its field. -/
  | waveRange (band : Nat)
  /-- An envelope position too large for its field. -/
  | envelopeRange (band : Nat)
  /-- Too many waves in a channel. -/
  | channelWaves (found limit : Nat)
  /-- Tones that leave no room for the fixed fields of the frame. -/
  | toneOverflow (least size : Nat)
  /-- A sound unit with missing bytes. -/
  | unitTooShort (found expected : Nat)
  /-- A window field no window count is written as. -/
  | windowField (band field : Nat)
  /-- No encoder is registered for the codec. -/
  | noEncoder (codec : CodecId)
  /-- The stages of a frame did not settle. -/
  | unsettled (position : Nat)
  /-- An index past the table of ATRAC1 block counts. -/
  | blockIndex (index : Nat)
  /-- A window count above the maximum of its band. -/
  | windowCount (band count : Nat)
  /-- An ATRAC1 sound unit longer than its capacity. -/
  | unitOverflow (written capacity : Nat)
  /-- A number of ATRAC3 blocks outside 1 to 32. -/
  | blockCount (count : Nat)
  /-- Mantissas without a fixed-length code. -/
  | fixedLengthRange (mantissas : List Int)
  /-- A mantissa without a variable-length code. -/
  | variableLengthRange (selector : Nat)
  /-- An ATRAC3 sound unit longer than its share of the frame. -/
  | unitBudget (written budget : Nat)
  /-- An ATRAC3+ frame longer than its size. -/
  | frameBudget (written budget : Nat)
  /-- A code without a symbol. -/
  | symbolMissing (index : Nat)
  /-- A symbol past the end of the code book. -/
  | symbolRange (symbol size : Nat)
  /-- The output device refused data, with its own words. -/
  | device (text : String)
  /-- The output device took less than it was given. -/
  | shortWrite
  /-- A failure reported by a part that the caller supplied. -/
  | reported (kind : ErrorKind) (text : String)
  /-- A precondition of the operation does not hold. -/
  | outOfRange
  deriving DecidableEq, Repr, Inhabited

namespace Error

/-- The class of an error. -/
def kind : Error → ErrorKind
  | readWidth _ | spectrumLength .. | codecMismatch .. | channelSupport .. | missingOptions _
  | channelCount .. | blockTableIndex _ | windowMode _ | fixedBlockCount _ | gainBands ..
  | gainPoints _ | gainRange | frameSize .. | frameTooSmall .. | toneBands .. | bandWaves ..
  | waveOrder _ | waveRange _ | envelopeRange _ | channelWaves .. | toneOverflow .. =>
    .invalidArgument
  | sampleRate .. | noProfile _ | jointStereo _ => .unsupported
  | notOpen _ => .codec
  | device _ | shortWrite => .io
  | endOfStream => .endOfStream
  | unitTooShort .. | windowField .. => .invalidData
  | noEncoder _ => .codecNotFound
  | unsettled _ | blockIndex _ | windowCount .. | unitOverflow .. | blockCount _
  | fixedLengthRange _ | variableLengthRange _ | unitBudget .. | frameBudget .. | symbolMissing _
  | symbolRange .. => .internal
  | reported k _ => k
  | outOfRange => .outOfRange

/-- A list in brackets, its items parted by a comma and a space. -/
def bracketed (items : List String) : String :=
  "[" ++ String.intercalate ", " items ++ "]"

/-- What an error says beyond its class. -/
def detail : Error → String
  | readWidth n => s!"read_bits: n={n} 超过 32 位"
  | endOfStream => ""
  | spectrumLength found expected => s!"频谱长度 {found} 与帧长 {expected} 不符"
  | codecMismatch expected found =>
    "编解码器不匹配: 期望 " ++ expected.name ++ ", 实际 " ++ found.name
  | sampleRate c supported found => c.name ++ s!" 只支持 {supported} Hz, 实际 {found} Hz"
  | channelSupport c found => c.name ++ s!" 只支持 1 或 2 声道, 实际 {found}"
  | missingOptions c => "缺少 " ++ c.title ++ " 参数"
  | notOpen c => c.title ++ " 编码器未打开"
  | channelCount expected found => s!"声道数不匹配: 期望 {expected}, 实际 {found}"
  | blockTableIndex n => s!"BFU 数表索引必须在 1..=8 之间: {n}"
  | windowMode counts => "ATRAC1 窗长模式无效: " ++ bracketed (counts.map toString)
  | fixedBlockCount n => s!"BFU 数必须在 1..=32 之间: {n}"
  | noProfile rate => s!"没有不低于 {rate} bit/s 的 ATRAC3 档位"
  | jointStereo rate => s!"不支持联合立体声档位: {rate} bit/s"
  | gainBands found limit => s!"增益控制频带数 {found} 超过 {limit}"
  | gainPoints found => s!"增益控制点过多: {found}"
  | gainRange => "增益控制点越界"
  | frameSize size least most => s!"ATRAC3+ 帧长 {size} 不在 {least}..={most} 之内"
  | frameTooSmall size channels => s!"ATRAC3+ 帧长 {size} 字节放不下 {channels} 声道的固定开销"
  | toneBands found limit => s!"音调频带数 {found} 超过 {limit}"
  | bandWaves band found => s!"频带 {band} 的正弦分量过多: {found}"
  | waveOrder band => s!"频带 {band} 的频率未按升序排列"
  | waveRange band => s!"频带 {band} 的正弦参数越界"
  | envelopeRange band => s!"频带 {band} 的包络位置越界"
  | channelWaves found limit => s!"正弦分量总数 {found} 超过 {limit}"
  | toneOverflow least size => s!"正弦分量放不进帧: 至少 {least} 比特, 帧长 {size} 比特"
  | unitTooShort found expected => s!"声音单元过短: {found} < {expected}"
  | windowField band field => s!"频带 {band} 的窗长字段无效: {field}"
  | noEncoder c => "未找到 " ++ c.name ++ " 的编码器"
  | unsettled position => s!"码流阶段未收敛: pos={position}"
  | blockIndex index => s!"BFU 数表索引越界: {index}"
  | windowCount band count => s!"频带 {band} 的短窗数 {count} 越界"
  | unitOverflow written capacity => s!"声音单元溢出: {written} > {capacity} 比特"
  | blockCount count => s!"BFU 数越界: {count}"
  | fixedLengthRange mantissas => "CLC 尾数越界: " ++ bracketed (mantissas.map toString)
  | variableLengthRange selector => s!"VLC 尾数超出码表 (选择子 {selector})"
  | unitBudget written budget => s!"ATRAC3 声音单元超出预算: {written} > {budget}"
  | frameBudget written budget => s!"ATRAC3+ 帧超出预算: {written} > {budget}"
  | symbolMissing index => s!"Huffman 符号表长度不足: index={index}"
  | symbolRange symbol size => s!"Huffman 符号越界: {symbol} >= {size}"
  | device text => text
  | shortWrite => "failed to write whole buffer"
  | reported _ text => text
  | outOfRange => ""

/-- The text shown for an error. -/
def message (e : Error) : String := e.kind.lead ++ e.detail

end Error

end SpectralCoding
