import Mathlib.Data.List.Perm.Basic
import SpectralCoding.Log.Settings

/-!
# Which settings a value gives

* `Log.Settings.ofMembers?_perm` : **the order of the members makes no difference.**
* `Log.Settings.ofMembers?_cons_unknown` : nor does a member of another name.
-/

namespace SpectralCoding

namespace Log.Settings

variable {members others : List (Option String × Json)} {name : String} {value : Json}

theorem member?_perm (h : members.Perm others) : member? name members = member? name others := by
  have hpicked := h.filter (·.1 == some name)
  unfold member?
  generalize members.filter (·.1 == some name) = picked at hpicked
  generalize others.filter (·.1 == some name) = picked' at hpicked
  rcases picked with _ | ⟨m, _ | ⟨n, rest⟩⟩
  · rw [hpicked.nil_eq]
  · rw [List.singleton_perm.1 hpicked]
  · obtain _ | ⟨m', _ | ⟨n', rest'⟩⟩ := picked'
    · cases hpicked.length_eq
    · cases hpicked.length_eq
    · rfl

/-- **The order of the members makes no difference.** -/
theorem ofMembers?_perm (h : members.Perm others) : ofMembers? members = ofMembers? others := by
  simp only [ofMembers?, h.any_eq, member?_perm h]

/-- The names of the settings. -/
def names : List String := ["level", "directory", "file_prefix", "retention_days"]

theorem member?_cons_of_ne {other : String} (h : other ≠ name) :
    member? name ((some other, value) :: members) = member? name members := by
  rw [member?, List.filter_cons_of_neg (by simpa using h), member?]

/-- Members of other names are passed over. -/
theorem ofMembers?_cons_unknown (h : name ∉ names) :
    ofMembers? ((some name, value) :: members) = ofMembers? members := by
  have hother : ∀ known ∈ names, name ≠ known := fun known hknown heq => h (heq ▸ hknown)
  simp only [ofMembers?, List.any_cons, Option.isNone_some, Bool.false_or,
    member?_cons_of_ne (hother _ (by simp [names] : "level" ∈ names)),
    member?_cons_of_ne (hother _ (by simp [names] : "directory" ∈ names)),
    member?_cons_of_ne (hother _ (by simp [names] : "file_prefix" ∈ names)),
    member?_cons_of_ne (hother _ (by simp [names] : "retention_days" ∈ names))]

end Log.Settings

end SpectralCoding
