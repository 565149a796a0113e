/-!
# Comparison ignoring case

Names of commands, parameters and primitive types, and the terminator of a
block, are compared without regard to the case of the 26 English letters.
Every other character stands for itself only: `É` and `é` differ.
-/

namespace CommandScript

namespace Text

/-- The text with its English letters in lower case: two texts are the same
name exactly when their keys are equal. -/
def caseKey (s : String) : List Char :=
  s.toList.map Char.toLower

/-- Whether two texts are the same name. -/
def sameName (a b : String) : Bool :=
  caseKey a == caseKey b

theorem sameName_iff {a b : String} : sameName a b = true ↔ caseKey a = caseKey b := by
  simp [sameName]

theorem sameName_refl (a : String) : sameName a a = true := by
  simp [sameName]

theorem sameName_comm (a b : String) : sameName a b = sameName b a := by
  rw [Bool.eq_iff_iff, sameName_iff, sameName_iff, eq_comm]

end Text

end CommandScript
