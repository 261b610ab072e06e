import SpectralCoding.Error

/-!
# Numbers without room in their word

A sum or a difference may have no room in the word that it is kept in. Whether a program then stops
or goes on without the high bits is settled when it is built, and not by the program.

* `Overflow` : what becomes of such a number.
* `Overflow.word` : the word that a number is kept in, if there is one.
-/

namespace SpectralCoding

/-- What becomes of a number that has no room in its word. -/
inductive Overflow where
  /-- The program stops. -/
  | stops
  /-- The high bits are lost. -/
  | wraps
  deriving DecidableEq, Repr

/-- The low bits of a number, unless it has no room and the program stops there. -/
def Overflow.word {α : Type} (o : Overflow) (hasRoom : Prop) [Decidable hasRoom] (low : α) :
    Except Error α :=
  if o = .stops ∧ ¬hasRoom then .error .outOfRange else .ok low

theorem Overflow.word_of_room {α : Type} (o : Overflow) {hasRoom : Prop} [Decidable hasRoom]
    (h : hasRoom) (low : α) : o.word hasRoom low = .ok low :=
  if_neg fun ⟨_, hno⟩ => hno h

end SpectralCoding
