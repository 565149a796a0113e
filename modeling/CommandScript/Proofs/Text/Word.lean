import CommandScript.Kind
import CommandScript.Proofs.Number.Integral
import CommandScript.Text.Alphanumeric

/-!
# Words

A run of word characters can stand in a script or a signature without
quotes. What a number or a truth value is written in is such a run
(`isRun_of_reads`), so the one kind of scalar that may need quotes is the
string. No mark of either language is a word character, and so none ends up
inside a run.
-/

namespace CommandScript

namespace Text

/-- Whether characters are a run of word characters. -/
def IsRun (w : List Char) : Prop :=
  w ≠ [] ∧ ∀ c ∈ w, isWordChar c = true

instance (w : List Char) : Decidable (IsRun w) :=
  decidable_of_iff (w ≠ [] ∧ w.all isWordChar = true) (and_congr_right' List.all_eq_true)

/-- A word character is none of the marks. -/
theorem ne_of_isWordChar {c d : Char} (h : isWordChar c = true)
    (hd : d ∈ ['"', '#', ';', '(', ')', ':', ',', '=']) : c ≠ d := by
  have hall : ['"', '#', ';', '(', ')', ':', ',', '='].all (!isWordChar ·) = true := by decide
  rintro rfl
  have hno := List.all_eq_true.1 hall c hd
  rw [h] at hno
  cases hno

/-- A run holds no quote. -/
theorem IsRun.quote_notMem {w : List Char} (h : IsRun w) : '"' ∉ w :=
  fun hm => ne_of_isWordChar (h.2 _ hm) (by decide) rfl

/-! ## Word characters -/

/-- Letters and digits of English are word characters. -/
theorem isWordChar_of_isAlphanum {c : Char} (h : c.isAlphanum = true) : isWordChar c = true := by
  have hlt : c.toNat < 128 := by
    have hranges : ((c.val ≥ 'A'.val ∧ c.val ≤ 'Z'.val : Bool) ||
        (c.val ≥ 'a'.val && c.val ≤ 'z'.val) || (c.val ≥ '0'.val && c.val ≤ '9'.val)) = true := h
    simp only [Bool.or_eq_true, Bool.and_eq_true, decide_eq_true_eq, ge_iff_le,
      UInt32.le_iff_toNat_le] at hranges
    have hc : c.toNat = c.val.toNat := rfl
    have hupper : 'Z'.val.toNat = 90 := rfl
    have hlower : 'z'.val.toNat = 122 := rfl
    have hdigit : '9'.val.toNat = 57 := rfl
    omega
  unfold isWordChar isAlphanumeric
  rw [if_pos hlt, h]
  rfl

theorem isWordChar_of_isDigit {c : Char} (h : c.isDigit = true) : isWordChar c = true := by
  refine isWordChar_of_isAlphanum ?_
  unfold Char.isAlphanum
  rw [h]
  exact Bool.or_true _

/-- A letter is a word character in either case. -/
theorem isWordChar_of_toLower {c : Char} (h : isWordChar c.toLower = true) :
    isWordChar c = true := by
  by_cases hup : c.isUpper = true
  · refine isWordChar_of_isAlphanum ?_
    unfold Char.isAlphanum Char.isAlpha
    rw [hup]
    rfl
  · have hsame : c.toLower = c := by
      unfold Char.isUpper at hup
      unfold Char.toLower
      simp at hup
      rw [dif_neg]
      rintro ⟨hge, hle⟩
      exact absurd (hup hge) (by simpa using hle)
    rwa [hsame] at h

end Text

/-! ## Numbers and truth values -/

namespace Number

open Text (isWordChar isWordChar_of_isDigit IsRun)

/-- A sign is a word character. -/
theorem isWordChar_of_splitSign {cs : List Char} (h : ∀ c ∈ (splitSign cs).2, isWordChar c = true) :
    ∀ c ∈ cs, isWordChar c = true := by
  have hsigns : isWordChar '-' = true ∧ isWordChar '+' = true := by decide
  intro c hc
  unfold splitSign at h
  split at h
  · rcases List.mem_cons.1 hc with rfl | hc
    · exact hsigns.1
    · exact h c hc
  · rcases List.mem_cons.1 hc with rfl | hc
    · exact hsigns.2
    · exact h c hc
  · exact h c hc

/-- Splitting a sign off leaves characters only where there were some. -/
theorem ne_nil_of_splitSign {cs : List Char} (h : (splitSign cs).2 ≠ []) : cs ≠ [] := by
  rintro rfl
  exact h rfl

/-- A signed run of digits is a run. -/
theorem isRun_of_digits {cs : List Char} (hne : (splitSign cs).2 ≠ [])
    (hall : (splitSign cs).2.all Char.isDigit = true) : IsRun cs := by
  refine ⟨ne_nil_of_splitSign hne, isWordChar_of_splitSign fun c hc => ?_⟩
  exact isWordChar_of_isDigit (List.all_eq_true.1 hall c hc)

/-- An integer is written in a run. -/
theorem isRun_of_readInteger {s : String} (h : (readInteger s).isSome = true) :
    IsRun s.toList := by
  obtain ⟨n, hn⟩ := Option.isSome_iff_exists.1 h
  obtain ⟨hne, hall, -⟩ := readInteger_eq_some hn
  exact isRun_of_digits hne hall

namespace Decimal

/-- An exponent is written in word characters. -/
theorem isWordChar_of_readExponent {cs : List Char} (h : (readExponent cs).isSome = true) :
    ∀ c ∈ cs, isWordChar c = true := by
  have hmarks : isWordChar 'e' = true ∧ isWordChar 'E' = true := by decide
  cases cs with
  | nil =>
    intro c hc
    cases hc
  | cons m rest =>
    by_cases hm : m = 'e' ∨ m = 'E'
    · by_cases hd : (splitSign rest).2 = [] ∨ ¬ (splitSign rest).2.all Char.isDigit = true
      · simp only [readExponent, if_pos hm, if_pos hd] at h
        cases h
      · obtain ⟨hne, hall⟩ := not_or.1 hd
        intro c hc
        rcases List.mem_cons.1 hc with rfl | hc
        · rcases hm with rfl | rfl
          · exact hmarks.1
          · exact hmarks.2
        · exact (isRun_of_digits hne (by simpa using hall)).2 c hc
    · simp only [readExponent, if_neg hm] at h
      cases h

/-- A fraction and what follows it are word characters if what follows is. -/
theorem isWordChar_of_splitFraction {cs : List Char}
    (h : ∀ c ∈ (splitFraction cs).2, isWordChar c = true) : ∀ c ∈ cs, isWordChar c = true := by
  have hpoint : isWordChar '.' = true := by decide
  intro c hc
  unfold splitFraction at h
  split at h
  · rename_i rest
    rcases List.mem_cons.1 hc with rfl | hc
    · exact hpoint
    · rw [← List.takeWhile_append_dropWhile (p := Char.isDigit) (l := rest), List.mem_append] at hc
      rcases hc with hc | hc
      · exact isWordChar_of_isDigit (List.all_eq_true.1 List.all_takeWhile c hc)
      · exact h c hc
  · exact h c hc

/-- A decimal is written in a run. -/
theorem isRun_of_read {s : String} (h : (read s).isSome = true) : IsRun s.toList := by
  let body := (splitSign s.toList).2
  let parts := splitFraction (body.dropWhile Char.isDigit)
  have hread : read s = if body.takeWhile Char.isDigit ++ parts.1 = [] then none
      else (readExponent parts.2).map fun e =>
        ⟨(splitSign s.toList).1, ofDigits (body.takeWhile Char.isDigit ++ parts.1),
          e - parts.1.length⟩ := rfl
  rw [hread] at h
  split at h
  · cases h
  · rename_i hdigits
    rw [Option.isSome_map] at h
    have hrest : ∀ c ∈ body.dropWhile Char.isDigit, isWordChar c = true :=
      isWordChar_of_splitFraction (isWordChar_of_readExponent h)
    refine ⟨ne_nil_of_splitSign fun hbody => ?_, isWordChar_of_splitSign fun c hc => ?_⟩
    · -- without characters there are no digits on either side of the point
      refine hdigits ?_
      change (splitSign s.toList).2.takeWhile Char.isDigit ++
        (splitFraction ((splitSign s.toList).2.dropWhile Char.isDigit)).1 = []
      rw [hbody]
      rfl
    · rw [← List.takeWhile_append_dropWhile (p := Char.isDigit) (l := (splitSign s.toList).2),
        List.mem_append] at hc
      rcases hc with hc | hc
      · exact isWordChar_of_isDigit (List.all_eq_true.1 List.all_takeWhile c hc)
      · exact hrest c hc

end Decimal

/-- A finite number is written in a run. -/
theorem Binary64.isRun_of_read {s : String} (h : (Binary64.read s).isSome = true) :
    IsRun s.toList := by
  refine Decimal.isRun_of_read ?_
  unfold Binary64.read at h
  cases hd : Decimal.read s with
  | none =>
    rw [hd] at h
    cases h
  | some d => rfl

end Number

namespace Scalar

open Text (isWordChar isWordChar_of_toLower IsRun)

/-- A text that is the same name as a word of English letters is a run. -/
theorem isRun_of_sameName {s w : String} (hw : IsRun (Text.caseKey w))
    (h : Text.sameName s w = true) : IsRun s.toList := by
  rw [Text.sameName_iff] at h
  rw [← h] at hw
  refine ⟨fun hnil => hw.1 ?_, fun c hc => isWordChar_of_toLower (hw.2 _ ?_)⟩
  · unfold Text.caseKey
    rw [hnil]
    rfl
  · exact List.mem_map_of_mem hc

/-- A truth value is written in a run. -/
theorem isRun_of_readBool {s : String} (h : (readBool s).isSome = true) : IsRun s.toList := by
  have htrue : IsRun (Text.caseKey "true") := by decide
  have hfalse : IsRun (Text.caseKey "false") := by decide
  unfold readBool at h
  split at h
  · exact isRun_of_sameName htrue (by assumption)
  · split at h
    · exact isRun_of_sameName hfalse (by assumption)
    · cases h

end Scalar

/-- **Only strings need quotes.** A text that can be read as any other kind is
a run. -/
theorem ScalarKind.isRun_of_reads {k : ScalarKind} {s : String} (h : k.reads s = true)
    (hk : k ≠ .string) : Text.IsRun s.toList := by
  cases k with
  | string => exact absurd rfl hk
  | int => exact Number.isRun_of_readInteger h
  | float => exact Number.Binary64.isRun_of_read h
  | bool => exact Scalar.isRun_of_readBool h

end CommandScript
