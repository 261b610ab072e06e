/-!
# Bytes as text

* `Text.encode` : a text in UTF-8.
* `Text.lossy` : the text that bytes are, whatever they are.

Bytes that are no character are replaced. Those that begin a character and do not end it are
replaced together.
-/

namespace SpectralCoding

namespace Text

/-- A text in UTF-8. -/
def encode (s : String) : List UInt8 := s.toList.flatMap String.utf8EncodeChar

/-- What stands for bytes that are no character. -/
def replacement : Char := '\uFFFD'

/-- The character that bytes begin with. -/
def first? (bytes : List UInt8) : Option Char := bytes.toByteArray.utf8DecodeChar? 0

/-- The byte is one of those that end a character. -/
def isTail (b : UInt8) : Bool := 0x80 ≤ b && b ≤ 0xBF

/-- The two bytes begin a character of three or four. -/
def isOpening (first second : UInt8) : Bool :=
  if first = 0xE0 then 0xA0 ≤ second && second ≤ 0xBF
  else if first = 0xED then 0x80 ≤ second && second ≤ 0x9F
  else if first = 0xF0 then 0x90 ≤ second && second ≤ 0xBF
  else if first = 0xF4 then 0x80 ≤ second && second ≤ 0x8F
  else 0xE1 ≤ first && first ≤ 0xF3 && isTail second

/-- The number of bytes that are replaced together. -/
def brokenLength : List UInt8 → Nat
  | first :: second :: third :: _ =>
    if isOpening first second then if 0xF0 ≤ first && isTail third then 3 else 2 else 1
  | [first, second] => if isOpening first second then 2 else 1
  | _ => 1

/-- The characters that bytes are, with replacements for what is none. -/
def lossyChars (bytes : List UInt8) : List Char :=
  match bytes with
  | [] => []
  | b :: rest =>
    match first? (b :: rest) with
    | some c => c :: lossyChars (rest.drop (c.utf8Size - 1))
    | none => replacement :: lossyChars (rest.drop (brokenLength (b :: rest) - 1))
termination_by bytes.length
decreasing_by all_goals simp only [List.length_drop, List.length_cons]; omega

/-- The text that bytes are, with replacements for what is none. -/
def lossy (bytes : List UInt8) : String := String.ofList (lossyChars bytes)

end Text

end SpectralCoding
