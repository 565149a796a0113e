import CommandScript.Number.Binary64
import Mathlib.Algebra.Group.Nat.Defs
import Mathlib.Data.List.TakeWhile

/-!
# Integers as floats

Whatever writes an integer writes a finite float as well
(`Binary64.read_isSome_of_readInteger`). As a decimal an integer is all digits,
with neither point nor exponent, however many zeros it begins with
(`Decimal.read_of_readInteger`). And a natural number is rounded to no more than
53 bits (`roundQuotient_le_two_pow`), in a unit far from the end of the range
for all that fit a word (`magnitude_one_lt_infinite`).
-/

namespace CommandScript

namespace Number

variable {s : String} {n : Int} {m : Nat}

/-! ## The decimal that an integer is -/

/-- **What an integer is written with**: digits, behind a sign perhaps, whose
number fits a word. -/
theorem readInteger_eq_some (h : readInteger s = some n) :
    (splitSign s.toList).2 ≠ [] ∧ (splitSign s.toList).2.all Char.isDigit = true ∧
      n.natAbs = ofDigits (splitSign s.toList).2 ∧ FitsWord n := by
  unfold readInteger at h
  by_cases hd : (splitSign s.toList).2 = [] ∨ ¬ (splitSign s.toList).2.all Char.isDigit = true
  · simp only [if_pos hd] at h
    cases h
  · obtain ⟨hne, hall⟩ := not_or.1 hd
    simp only [if_neg hd, Option.ite_none_right_eq_some, Option.some.injEq] at h
    obtain ⟨hfits, rfl⟩ := h
    refine ⟨hne, by simpa using hall, ?_, hfits⟩
    split
    · rw [Int.natAbs_neg, Int.natAbs_natCast]
    · exact Int.natAbs_natCast _

/-- **An integer is a decimal** without a point or an exponent. -/
theorem Decimal.read_of_readInteger (h : readInteger s = some n) :
    Decimal.read s = some ⟨(splitSign s.toList).1, n.natAbs, 0⟩ := by
  obtain ⟨hne, hall, hn, -⟩ := readInteger_eq_some h
  have hdigits : ∀ c ∈ (splitSign s.toList).2, c.isDigit = true := List.all_eq_true.1 hall
  have htake : (splitSign s.toList).2.takeWhile Char.isDigit = (splitSign s.toList).2 :=
    List.takeWhile_eq_self_iff.2 hdigits
  have hdrop : (splitSign s.toList).2.dropWhile Char.isDigit = [] :=
    List.dropWhile_eq_nil_iff.2 hdigits
  rw [hn]
  unfold Decimal.read
  simp only [htake, hdrop, splitFraction, List.append_nil, if_neg hne, readExponent]
  rfl

/-! ## The size of what is rounded -/

/-- Rounding adds at most one. -/
theorem roundQuotient_le (num den : Nat) : roundQuotient num den ≤ num / den + 1 := by
  unfold roundQuotient
  dsimp only
  split
  · exact Nat.le_succ _
  · split
    · exact Nat.le_refl _
    · exact Nat.add_le_add_left (Nat.le_of_lt_succ (Nat.mod_lt _ Nat.two_pos)) _

/-- Over one, the highest power of two is that of the numerator. -/
theorem floorLog2_one (hm : m ≠ 0) : floorLog2 m 1 = m.log2 := by
  have hone : Nat.log2 1 = 0 := by decide
  have hup : ((m.log2 : Int) - (0 : Nat)).toNat = m.log2 := by omega
  have hdown : (-((m.log2 : Int) - (0 : Nat))).toNat = 0 := by omega
  unfold floorLog2
  dsimp only
  rw [hone, hup, hdown, Nat.one_shiftLeft, Nat.shiftLeft_zero, if_pos (Nat.log2_self_le hm)]
  exact Int.sub_zero _

/-- **A natural number keeps 53 bits** when it is rounded in its unit. -/
theorem roundQuotient_le_two_pow (m : Nat) :
    roundQuotient (m <<< (52 - m.log2)) (1 <<< (m.log2 - 52)) ≤ 2 ^ 53 := by
  have hm : m < 2 ^ (m.log2 + 1) := Nat.lt_log2_self
  have hquotient : m <<< (52 - m.log2) / 1 <<< (m.log2 - 52) < 2 ^ 53 := by
    rw [Nat.shiftLeft_eq, Nat.one_shiftLeft, Nat.div_lt_iff_lt_mul (Nat.two_pow_pos _),
      ← Nat.pow_add]
    calc m * 2 ^ (52 - m.log2)
        < 2 ^ (m.log2 + 1) * 2 ^ (52 - m.log2) := Nat.mul_lt_mul_of_pos_right hm (Nat.two_pow_pos _)
      _ = 2 ^ (53 + (m.log2 - 52)) := by
        rw [← Nat.pow_add]
        congr 1
        omega
  exact Nat.le_trans (roundQuotient_le _ _) hquotient

namespace Binary64

/-- **A natural number below `2 ^ 1023` is finite.** -/
theorem magnitude_one_lt_infinite (hm : m ≠ 0) (hlog : m.log2 < 1023) :
    magnitude m 1 < infinite := by
  have hunit : max (floorLog2 m 1 - 52) (-1074) = (m.log2 : Int) - 52 := by
    rw [floorLog2_one hm]
    omega
  have hup : (-((m.log2 : Int) - 52)).toNat = 52 - m.log2 := by omega
  have hdown : ((m.log2 : Int) - 52).toNat = m.log2 - 52 := by omega
  have hfield : ((m.log2 : Int) - 52 + 1074).toNat = m.log2 + 1022 := by omega
  have hrounded := roundQuotient_le_two_pow m
  unfold magnitude infinite
  simp only [hunit, hup, hdown, hfield]
  calc (m.log2 + 1022) <<< 52 + roundQuotient (m <<< (52 - m.log2)) (1 <<< (m.log2 - 52))
      ≤ (m.log2 + 1022) <<< 52 + 2 ^ 53 := Nat.add_le_add_left hrounded _
    _ = (m.log2 + 1024) * 2 ^ 52 := by
      rw [Nat.shiftLeft_eq]
      omega
    _ < 2047 <<< 52 := by
      rw [Nat.shiftLeft_eq]
      omega

/-- The size of a word is finite as a decimal without an exponent. -/
theorem decimalMagnitude_lt_infinite (hm : m < 2 ^ 64) : decimalMagnitude m 0 < infinite := by
  by_cases hzero : m = 0
  · rw [hzero]
    decide
  · have hlarge : ¬ (0 : Int) < -(400 + m.log2 : Int) := by omega
    have hsmall : ¬ (310 : Int) < 0 := by decide
    have hone : decimalMagnitude m 0 = magnitude m 1 := by
      unfold decimalMagnitude
      rw [if_neg hzero, if_neg hsmall, if_neg hlarge]
      exact congrArg₂ magnitude (Nat.mul_one m) rfl
    have hlog : m.log2 < 64 := (Nat.log2_lt hzero).2 hm
    rw [hone]
    exact magnitude_one_lt_infinite hzero (by omega)

/-- **Whatever writes an integer writes a finite float.** -/
theorem read_isSome_of_readInteger (h : (readInteger s).isSome = true) :
    (Binary64.read s).isSome = true := by
  obtain ⟨n, hn⟩ := Option.isSome_iff_exists.1 h
  obtain ⟨-, -, -, hlow, hhigh⟩ := readInteger_eq_some hn
  have hfinite : decimalMagnitude n.natAbs 0 < infinite :=
    decimalMagnitude_lt_infinite (by omega)
  unfold Binary64.read
  rw [Decimal.read_of_readInteger hn, Option.bind_some]
  unfold ofDecimal
  simp only [if_pos hfinite, Option.isSome_some]

end Binary64

end Number

end CommandScript
