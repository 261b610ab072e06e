import Mathlib.Data.List.Basic
import SpectralCoding.Text.Lossy

/-!
# Which bytes are text

* `Text.lossy_encode` : a text in UTF-8 is read back.
* `Text.encode_lossy` : bytes are the text they are read as, if nothing had to be replaced.
* `Text.mem_of_mem_encode` : a byte of seven bits is in a text only as a character.
-/

namespace SpectralCoding

namespace Text

variable {bytes : List UInt8} {c : Char}

theorem first?_encodeChar (c : Char) (rest : List UInt8) :
    first? (String.utf8EncodeChar c ++ rest) = some c := by
  rw [first?, List.toByteArray_append]
  exact ByteArray.utf8DecodeChar?_utf8EncodeChar_append

/-- Bytes that begin with a character begin with its encoding. -/
theorem eq_encodeChar_append (h : first? bytes = some c) :
    bytes = String.utf8EncodeChar c ++ bytes.drop c.utf8Size := by
  have hencode := String.toByteArray_utf8EncodeChar_of_utf8DecodeChar?_eq_some h
  have hfront : String.utf8EncodeChar c = bytes.take c.utf8Size := by
    have hlist := congrArg (fun b : ByteArray => b.data.toList) hencode
    simpa using hlist
  rw [hfront, List.take_append_drop]

theorem lossyChars_encodeChar_append (c : Char) (rest : List UInt8) :
    lossyChars (String.utf8EncodeChar c ++ rest) = c :: lossyChars rest := by
  have hfirst := first?_encodeChar c rest
  have hbehind : (String.utf8EncodeChar c ++ rest).drop c.utf8Size = rest :=
    List.drop_left' (String.length_utf8EncodeChar c)
  have hsize := c.utf8Size_pos
  generalize String.utf8EncodeChar c ++ rest = all at hfirst hbehind
  cases all with
  | nil => cases hfirst
  | cons b tail =>
    rw [← Nat.sub_add_cancel hsize, List.drop_succ_cons] at hbehind
    rw [lossyChars, hfirst]
    exact congrArg (fun rest => c :: lossyChars rest) hbehind

/-- A text in UTF-8 is read back. -/
theorem lossy_encode (s : String) : lossy (encode s) = s := by
  have hchars : ∀ cs : List Char, lossyChars (cs.flatMap String.utf8EncodeChar) = cs := by
    intro cs
    induction cs with
    | nil => rw [List.flatMap_nil, lossyChars]
    | cons c cs ih => rw [List.flatMap_cons, lossyChars_encodeChar_append, ih]
  rw [lossy, encode, hchars, String.ofList_toList]

/-- Bytes are the text they are read as, if nothing had to be replaced. -/
theorem encode_lossy (h : replacement ∉ (lossy bytes).toList) : encode (lossy bytes) = bytes := by
  rw [lossy, String.toList_ofList] at h
  rw [encode, lossy, String.toList_ofList]
  fun_induction lossyChars bytes with
  | case1 => rfl
  | case2 b rest c hfirst ih =>
    have hbytes := eq_encodeChar_append hfirst
    rw [← Nat.sub_add_cancel c.utf8Size_pos, List.drop_succ_cons] at hbytes
    rw [List.flatMap_cons, ih (List.not_mem_of_not_mem_cons h)]
    exact hbytes.symm
  | case3 b rest hnone ih => exact absurd List.mem_cons_self h

/-- The bytes of a character that takes more than one have eight bits. -/
theorem mem_encodeChar {b : UInt8} (hb : b.toNat < 128) (h : b ∈ String.utf8EncodeChar c) :
    c = Char.ofNat b.toNat := by
  have hwide (n : Nat) (hleast : 128 ≤ n) (hmost : n < 256) : b ≠ UInt8.ofNat n := by
    rintro rfl
    rw [UInt8.toNat_ofNat_of_lt' hmost] at hb
    omega
  unfold String.utf8EncodeChar at h
  dsimp only at h
  split at h
  · rename_i hsmall
    have hsame : b.toNat = c.toNat := by
      rw [List.mem_singleton.1 h]
      exact UInt8.toNat_ofNat_of_lt' (Nat.lt_of_le_of_lt hsmall (by decide))
    rw [hsame, Char.ofNat_toNat]
  · -- every byte is at least 128, whatever the number of bytes
    exfalso
    split at h
    · obtain h | h := by simpa only [List.mem_cons, List.not_mem_nil, or_false] using h
      all_goals exact hwide _ (by omega) (by omega) h
    · split at h
      · obtain h | h | h := by simpa only [List.mem_cons, List.not_mem_nil, or_false] using h
        all_goals exact hwide _ (by omega) (by omega) h
      · obtain h | h | h | h := by simpa only [List.mem_cons, List.not_mem_nil, or_false] using h
        all_goals exact hwide _ (by omega) (by omega) h

/-- A byte of seven bits is in a text only as a character. -/
theorem mem_of_mem_encode {s : String} {b : UInt8} (hb : b.toNat < 128) (h : b ∈ encode s) :
    Char.ofNat b.toNat ∈ s.toList := by
  obtain ⟨c, hc, hmem⟩ := List.mem_flatMap.1 h
  rwa [← mem_encodeChar hb hmem]

end Text

end SpectralCoding
