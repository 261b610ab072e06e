import SpectralCoding.Text.Json

/-!
# JSON texts

* `Json.parse?` : the value of a JSON text, if it is one.

All readers take the characters ahead and return those they leave.
-/

namespace SpectralCoding

namespace Json

/-- White space between the parts of a text. -/
def isBlank (c : Char) : Bool := c == ' ' || c == '\n' || c == '\t' || c == '\r'

/-- The characters after any white space. -/
def skipBlank (cs : List Char) : List Char := cs.dropWhile isBlank

/-! ### Strings -/

/-- The value of a hexadecimal digit. -/
def hexDigit (c : Char) : Option Nat :=
  if '0' ≤ c ∧ c ≤ '9' then some (c.toNat - '0'.toNat)
  else if 'a' ≤ c ∧ c ≤ 'f' then some (c.toNat - 'a'.toNat + 10)
  else if 'A' ≤ c ∧ c ≤ 'F' then some (c.toNat - 'A'.toNat + 10)
  else none

/-- Four hexadecimal digits. -/
def hexUnit (a b c d : Char) : Option Nat := do
  return (((← hexDigit a) * 16 + (← hexDigit b)) * 16 + (← hexDigit c)) * 16 + (← hexDigit d)

/-- The character of an escape of one letter. -/
def shortEscape : Char → Option Char
  | '"' => some '"'
  | '\\' => some '\\'
  | '/' => some '/'
  | 'b' => some '\x08'
  | 'f' => some '\x0c'
  | 'n' => some '\n'
  | 'r' => some '\r'
  | 't' => some '\t'
  | _ => none

/-- A piece of a string: a character, or a sixteen-bit unit given by its number. -/
inductive Piece where
  | char (c : Char)
  | unit (value : Nat)
  deriving DecidableEq, Repr, Inhabited

/-- The pieces of a string up to its closing quote, put before the reversed `done`. -/
def readPieces : (done : List Piece) → List Char → Option (List Piece × List Char)
  | done, '"' :: cs => some (done.reverse, cs)
  | done, '\\' :: 'u' :: a :: b :: c :: d :: cs =>
    match hexUnit a b c d with
    | some n => readPieces (.unit n :: done) cs
    | none => none
  | done, '\\' :: c :: cs =>
    match shortEscape c with
    | some c => readPieces (.char c :: done) cs
    | none => none
  | done, c :: cs => if c.toNat < 32 then none else readPieces (.char c :: done) cs
  | _, [] => none

/-- The first unit of a surrogate pair. -/
def isHighSurrogate (n : Nat) : Bool := 0xD800 ≤ n && n < 0xDC00

/-- The second unit of a surrogate pair. -/
def isLowSurrogate (n : Nat) : Bool := 0xDC00 ≤ n && n < 0xE000

/-- The text of pieces, surrogate pairs joined. -/
def joinPieces : List Piece → Option (List Char)
  | [] => some []
  | .char c :: ps => (joinPieces ps).map (c :: ·)
  | .unit hi :: .unit lo :: ps =>
    if isHighSurrogate hi && isLowSurrogate lo then
      (joinPieces ps).map (Char.ofNat (0x10000 + (hi - 0xD800) * 0x400 + (lo - 0xDC00)) :: ·)
    else if isHighSurrogate hi || isLowSurrogate hi then none
    else (joinPieces (.unit lo :: ps)).map (Char.ofNat hi :: ·)
  | .unit n :: ps =>
    if isHighSurrogate n || isLowSurrogate n then none else (joinPieces ps).map (Char.ofNat n :: ·)

/-- A string after its opening quote. -/
def readString (cs : List Char) : Option (Option String × List Char) :=
  match readPieces [] cs with
  | none => none
  | some (pieces, cs) => some ((joinPieces pieces).map String.ofList, cs)

/-! ### Numbers -/

/-- A decimal digit. -/
def isDigit (c : Char) : Bool := '0' ≤ c && c ≤ '9'

/-- The digits ahead, and what follows them. -/
def readDigits (cs : List Char) : List Char × List Char :=
  (cs.takeWhile isDigit, cs.dropWhile isDigit)

/-- The number that decimal digits stand for. -/
def digitsValue (ds : List Char) : Nat := ds.foldl (fun n d => 10 * n + (d.toNat - '0'.toNat)) 0

/-- The digits of the whole part: a zero alone, or digits that do not begin with zero. -/
def readWhole (cs : List Char) : Option (List Char × List Char) :=
  match readDigits cs with
  | ([], _) => none
  -- a zero ahead of further digits
  | ('0' :: _ :: _, _) => none
  | (ds, cs) => some (ds, cs)

/-- The digits after a point, if there is one. -/
def readFraction : List Char → Option (Option (List Char) × List Char)
  | '.' :: cs =>
    match readDigits cs with
    | ([], _) => none
    | (ds, cs) => some (some ds, cs)
  | cs => some (none, cs)

/-- The digits of an exponent after its sign. -/
def readExponentDigits (isNegative : Bool) (cs : List Char) : Option (Option Int × List Char) :=
  match readDigits cs with
  | ([], _) => none
  | (ds, cs) =>
    let n : Int := digitsValue ds
    some (some (if isNegative then -n else n), cs)

/-- An exponent, if there is one. -/
def readExponent : List Char → Option (Option Int × List Char)
  | c :: cs =>
    if c == 'e' || c == 'E' then
      match cs with
      | '+' :: cs => readExponentDigits false cs
      | '-' :: cs => readExponentDigits true cs
      | cs => readExponentDigits false cs
    else some (none, c :: cs)
  | [] => some (none, [])

/-- A number after its sign. -/
def readNumeral (isNegative : Bool) (cs : List Char) : Option (Numeral × List Char) := do
  let (whole, cs) ← readWhole cs
  let (fraction, cs) ← readFraction cs
  let (exponent, cs) ← readExponent cs
  let places := fraction.getD []
  let numeral : Numeral :=
    { isNegative
      digits := digitsValue (whole ++ places)
      exponent := exponent.getD 0 - places.length
      isWhole := fraction.isNone && exponent.isNone }
  return (numeral, cs)

/-! ### Values -/

/-- The characters after `word`, if it is ahead. -/
def readWord (word : String) (cs : List Char) : Option (List Char) :=
  if word.toList.isPrefixOf cs then some (cs.drop word.length) else none

mutual

/-- A value, in at most `depth` steps inward. -/
def readValue : (depth : Nat) → List Char → Option (Json × List Char)
  | 0, _ => none
  | depth + 1, cs =>
    match skipBlank cs with
    | 'n' :: cs => (readWord "ull" cs).map (null, ·)
    | 't' :: cs => (readWord "rue" cs).map (bool true, ·)
    | 'f' :: cs => (readWord "alse" cs).map (bool false, ·)
    | '"' :: cs => (readString cs).map fun (s, cs) => (string s, cs)
    | '-' :: cs => (readNumeral true cs).map fun (n, cs) => (number n, cs)
    | '[' :: cs =>
      match skipBlank cs with
      | ']' :: cs => some (array [], cs)
      | cs => (readItems depth [] cs).map fun (items, cs) => (array items, cs)
    | '\x7b' :: cs =>
      match skipBlank cs with
      | '\x7d' :: cs => some (object [], cs)
      | cs => (readMembers depth [] cs).map fun (members, cs) => (object members, cs)
    | cs => (readNumeral false cs).map fun (n, cs) => (number n, cs)

/-- The items of an array up to its closing bracket, put behind the reversed `done`. -/
def readItems : (depth : Nat) → (done : List Json) → List Char → Option (List Json × List Char)
  | 0, _, _ => none
  | depth + 1, done, cs =>
    match readValue depth cs with
    | none => none
    | some (item, cs) =>
      match skipBlank cs with
      | ',' :: cs => readItems depth (item :: done) cs
      | ']' :: cs => some ((item :: done).reverse, cs)
      | _ => none

/-- The members of an object up to its closing brace, put behind the reversed `done`. -/
def readMembers : (depth : Nat) → (done : List (Option String × Json)) → List Char →
    Option (List (Option String × Json) × List Char)
  | 0, _, _ => none
  | depth + 1, done, cs =>
    match skipBlank cs with
    | '"' :: cs =>
      match readString cs with
      | none => none
      | some (name, cs) =>
        match skipBlank cs with
        | ':' :: cs =>
          match readValue depth cs with
          | none => none
          | some (value, cs) =>
            match skipBlank cs with
            | ',' :: cs => readMembers depth ((name, value) :: done) cs
            | '\x7d' :: cs => some (((name, value) :: done).reverse, cs)
            | _ => none
        | _ => none
    | _ => none

end

/-- The value of a JSON text. Going inward and going on take at most two steps a character. -/
def parse? (text : String) : Option Json :=
  match readValue (2 * text.length + 2) text.toList with
  | some (value, cs) => if (skipBlank cs).isEmpty then some value else none
  | none => none

end Json

end SpectralCoding
