/-!
# ASCII case

`upper` and `lower` change the case of the 26 ASCII letters and leave every other character alone;
`same` compares texts that way, as names in SQL are compared.
-/

namespace RecordQuery.Text.Ascii

/-- The ASCII letters in upper case. -/
def upper (s : String) : String :=
  String.ofList (s.toList.map Char.toUpper)

/-- The ASCII letters in lower case. -/
def lower (s : String) : String :=
  String.ofList (s.toList.map Char.toLower)

/-- Equal up to the case of ASCII letters. -/
def same (s t : String) : Bool := lower s == lower t

theorem same_iff {s t : String} : same s t = true ↔ lower s = lower t := by simp [same]

@[simp] theorem same_refl (s : String) : same s s = true := by simp [same]

theorem same_comm (s t : String) : same s t = same t s := by
  rw [Bool.eq_iff_iff, same_iff, same_iff, eq_comm]

end RecordQuery.Text.Ascii
