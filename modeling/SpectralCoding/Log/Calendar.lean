/-!
# What a log asks of a calendar

* `Calendar` : dates that have a text and an order, and from which days can be counted back.
-/

namespace SpectralCoding

/-- Dates as a log knows them. -/
structure Calendar (δ : Type) where
  year : δ → Int
  month : δ → Nat
  day : δ → Nat
  /-- The date as `YYYY-MM-DD`. -/
  text : δ → String
  /-- The date that a text of this form is. -/
  parse? : String → Option δ
  /-- The date comes before the other. -/
  precedes : δ → δ → Bool
  /-- The date so many days before, if it is one that is reckoned with. -/
  back? : δ → Int → Option δ

end SpectralCoding
