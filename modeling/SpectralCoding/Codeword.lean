import SpectralCoding.Error

/-!
# Code words

* `Codeword` : a variable-length code word.
* `Codeword.canonical` : the canonical code words for given numbers of words of each length.
* `Codeword.book` : the canonical code words dealt out to symbols.

Canonical words of one length are consecutive numbers; the first word of the next length is the next
number with a zero appended. The numbers have sixteen bits.
-/

namespace SpectralCoding

/-- A code word: the low `width` bits of `code`. -/
structure Codeword where
  code : Nat
  width : Nat
  deriving DecidableEq, Repr, Inhabited

namespace Codeword

/-- The word of no symbol. -/
def none : Codeword := ⟨0, 0⟩

/-- `count` consecutive words of one width. -/
def row (code : UInt16) (width : Nat) : (count : Nat) → List Codeword
  | 0 => []
  | count + 1 => ⟨code.toNat, width⟩ :: row (code + 1) width count

/-- The words of widths `width` and up, the first of them `code`; `counts` are their numbers by
width. -/
def canonicalFrom (code : UInt16) (width : Nat) : (counts : List Nat) → List Codeword
  | [] => []
  | n :: counts =>
    row code (width % 256) n ++ canonicalFrom ((code + UInt16.ofNat n) * 2) (width + 1) counts

/-- The canonical words, in order; `counts` are their numbers by width from one up. -/
def canonical (counts : List Nat) : List Codeword := canonicalFrom 0 1 counts

/-- Deal out `words`, the first of which has place `place`, to `symbols` in order. -/
def deal (symbols : List Nat) : (place : Nat) → (words book : List Codeword) → Except Error (List Codeword)
  | _, [], book => .ok book
  | place, word :: words, book =>
    match symbols[place]? with
    | .none => .error (.symbolMissing place)
    | some symbol =>
      if symbol < book.length then deal symbols (place + 1) words (book.set symbol word)
      else .error (.symbolRange symbol book.length)

/-- The code book of `size` symbols in which the canonical words go to `symbols` in order; other
symbols have the word of no symbol. -/
def book (counts symbols : List Nat) (size : Nat) : Except Error (List Codeword) :=
  deal symbols 0 (canonical counts) (List.replicate size none)

end Codeword

end SpectralCoding
