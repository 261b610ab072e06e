import SpectralCoding.Bits.Basic
import SpectralCoding.CodecId

/-!
# Block layouts

A frame of spectral lines is cut into blocks, each with a scale factor and a word length of its own.
The bands of the filter bank hold whole blocks.

* `Layout` : the blocks and bands of a codec, and its scale factors.
* `Layout.bandOf` : the band of a block.
* `Layout.atrac1`, `Layout.atrac3`, `Layout.atrac3Plus` : the three layouts.
* `ScaleFactor.ofThirds`, `ScaleFactor.ofSixths` : the scale factors, a geometric series with three
  steps to the octave, as the binary32 numbers nearest to it.
-/

namespace SpectralCoding

/-! ### Scale factors -/

namespace ScaleFactor

/-- The number of scale factors; an index has six bits. -/
def count : Nat := 64

/-- The 24 leading binary digits, rounded to nearest, of two to the power of zero, one and two
thirds. -/
def thirds : List Nat := [0x800000, 0xA14518, 0xCB2FF5]

/-- The 24 leading binary digits, rounded to nearest, of two to the power of five, one and three
sixths. -/
def sixths : List Nat := [0xE411F0, 0x8FACD6, 0xB504F3]

/-- The number with 24 digits `digits` and biased exponent `exponent`. -/
def ofDigits (digits exponent : Nat) : Float32 :=
  Float32.ofBits (UInt32.ofNat (exponent * 2 ^ 23 + (digits - 2 ^ 23)))

/-- Scale factor `i` of ATRAC1 and ATRAC3: two to the power `i / 3 - 21`. -/
def ofThirds (i : Nat) : Float32 := ofDigits (thirds.getD (i % 3) 0) (106 + i / 3)

/-- Scale factor `i` of ATRAC3+: two to the power `(2 i - 31) / 6 - 15`. -/
def ofSixths (i : Nat) : Float32 := ofDigits (sixths.getD (i % 3) 0) (106 + (i + 2) / 3)

/-- `thirds` are the roots rounded to nearest: the cube of a half step up is above the power of two,
that of a half step down is below it. -/
theorem thirds_nearest (k : Fin 3) :
    (2 * thirds[k] - 1) ^ 3 < 8 * 2 ^ (69 + k.val) ∧ 8 * 2 ^ (69 + k.val) < (2 * thirds[k] + 1) ^ 3 := by
  revert k
  decide

/-- `sixths` are the roots rounded to nearest. -/
theorem sixths_nearest (k : Fin 3) :
    (2 * sixths[k] - 1) ^ 6 < 64 * 2 ^ (138 + [5, 1, 3][k]) ∧
      64 * 2 ^ (138 + [5, 1, 3][k]) < (2 * sixths[k] + 1) ^ 6 := by
  revert k
  decide

end ScaleFactor

/-! ### Layouts -/

/-- The blocks of a frame. -/
structure Layout where
  /-- Spectral lines of a frame. -/
  frameLines : Nat
  /-- The number of lines of each block. -/
  lines : List Nat
  /-- The first block of each band, and the number of blocks. -/
  bandStarts : List Nat
  /-- The first line of each block in a band with one long window. -/
  longStarts : List Nat
  /-- The first line of each block in a band with short windows. -/
  shortStarts : List Nat
  /-- The scale factors, ascending. -/
  scaleFactors : List Float32
  deriving Inhabited

namespace Layout

/-- The number of blocks. -/
def blocks (L : Layout) : Nat := L.lines.length

/-- The number of bands. -/
def bands (L : Layout) : Nat := L.bandStarts.length - 1

/-- The band that block `block` lies in; blocks past the last count as the last band. -/
def bandOf (L : Layout) (block : Nat) : Nat :=
  min ((L.bandStarts.drop 1).takeWhile (· ≤ block)).length (L.bands - 1)

/-- The scale factor of an index. -/
def scaleFactor (L : Layout) (index : Nat) : Float32 := L.scaleFactors.getD index 0

/-- The first lines of blocks that follow each other without a gap, and the line after the last. -/
def offsets : (first : Nat) → (sizes : List Nat) → List Nat
  | first, [] => [first]
  | first, n :: sizes => first :: offsets (first + n) sizes

/-- 512 lines in three bands and 52 blocks. With short windows the blocks of a band are dealt out
over the windows. -/
def atrac1 : Layout where
  frameLines := 512
  lines :=
    [8, 8, 8, 8, 4, 4, 4, 4, 8, 8, 8, 8, 6, 6, 6, 6, 6, 6, 6, 6,
     6, 6, 6, 6, 7, 7, 7, 7, 9, 9, 9, 9, 10, 10, 10, 10,
     12, 12, 12, 12, 12, 12, 12, 12, 20, 20, 20, 20, 20, 20, 20, 20]
  bandStarts := [0, 20, 36, 52]
  longStarts :=
    [0, 8, 16, 24, 32, 36, 40, 44, 48, 56, 64, 72, 80, 86, 92, 98, 104, 110, 116, 122,
     128, 134, 140, 146, 152, 159, 166, 173, 180, 189, 198, 207, 216, 226, 236, 246,
     256, 268, 280, 292, 304, 316, 328, 340, 352, 372, 392, 412, 432, 452, 472, 492]
  shortStarts :=
    [0, 32, 64, 96, 8, 40, 72, 104, 12, 44, 76, 108, 20, 52, 84, 116, 26, 58, 90, 122,
     128, 160, 192, 224, 134, 166, 198, 230, 141, 173, 205, 237, 150, 182, 214, 246,
     256, 288, 320, 352, 384, 416, 448, 480, 268, 300, 332, 364, 396, 428, 460, 492]
  scaleFactors := (List.range ScaleFactor.count).map ScaleFactor.ofThirds

/-- The first line of each ATRAC3 block. -/
def atrac3Starts : List Nat :=
  [0, 8, 16, 24, 32, 40, 48, 56, 64, 80, 96, 112, 128, 144, 160, 176,
   192, 224, 256, 288, 320, 352, 384, 416, 448, 480, 512, 576, 640, 704, 768, 896]

/-- 1024 lines in four bands and 32 blocks, long windows only. -/
def atrac3 : Layout where
  frameLines := 1024
  lines :=
    [8, 8, 8, 8, 8, 8, 8, 8, 16, 16, 16, 16, 16, 16, 16, 16,
     32, 32, 32, 32, 32, 32, 32, 32, 32, 32, 64, 64, 64, 64, 128, 128]
  bandStarts := [0, 18, 26, 30, 32]
  longStarts := atrac3Starts
  shortStarts := atrac3Starts
  scaleFactors := (List.range ScaleFactor.count).map ScaleFactor.ofThirds

/-- The first line of each ATRAC3+ block. -/
def atrac3PlusStarts : List Nat :=
  [0, 16, 32, 48, 64, 80, 96, 112, 128, 160, 192, 224, 256, 288, 320, 352,
   384, 448, 512, 576, 640, 704, 768, 896, 1024, 1152, 1280, 1408, 1536, 1664, 1792, 1920]

/-- 2048 lines in 16 bands and 32 blocks, which are called quantisation units; long windows only. -/
def atrac3Plus : Layout where
  frameLines := 2048
  lines :=
    [16, 16, 16, 16, 16, 16, 16, 16, 32, 32, 32, 32, 32, 32, 32, 32,
     64, 64, 64, 64, 64, 64, 128, 128, 128, 128, 128, 128, 128, 128, 128, 128]
  bandStarts := [0, 8, 12, 16, 18, 20, 22, 23, 24, 25, 26, 27, 28, 29, 30, 31, 32]
  longStarts := atrac3PlusStarts
  shortStarts := atrac3PlusStarts
  scaleFactors := (List.range ScaleFactor.count).map ScaleFactor.ofSixths

/-- The layout of a codec. -/
def ofCodec : CodecId → Layout
  | .atrac1 => atrac1
  | .atrac3 => atrac3
  | .atrac3Plus => atrac3Plus

theorem longStarts_atrac1 : atrac1.longStarts ++ [512] = offsets 0 atrac1.lines := by decide

theorem longStarts_atrac3 : atrac3.longStarts ++ [1024] = offsets 0 atrac3.lines := by decide

theorem longStarts_atrac3Plus : atrac3Plus.longStarts ++ [2048] = offsets 0 atrac3Plus.lines := by decide

end Layout

end SpectralCoding
