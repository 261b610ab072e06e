/-!
# JSON values

* `Json`, `Json.Numeral` : a JSON value; numbers keep their decimal digits.

An escape of half a surrogate pair is well-formed but stands for no text, so a string is an optional
text.
-/

namespace SpectralCoding

namespace Json

/-- A decimal number `± digits * 10 ^ exponent`. -/
structure Numeral where
  isNegative : Bool
  digits : Nat
  exponent : Int
  /-- The number is written without a point and without an exponent. -/
  isWhole : Bool
  deriving DecidableEq, Repr, Inhabited

end Json

/-- A JSON value. -/
inductive Json where
  | null
  | bool (value : Bool)
  | number (value : Json.Numeral)
  /-- A string, without a text if it has half a surrogate pair. -/
  | string (value : Option String)
  | array (items : List Json)
  | object (members : List (Option String × Json))
  deriving Inhabited

end SpectralCoding
