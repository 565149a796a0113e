import CommandScript.Number.Decimal

/-!
# Finite binary64 numbers

A decimal is read as the binary64 number nearest to it, a tie going to the
even significand; one that lies beyond the finite range is no number here.
The rounding is exact integer arithmetic on a fraction `num / den`: a
significand below `2 ^ 53` in a unit `2 ^ unit`, where the unit is the
largest power of two that keeps 53 significant bits, and never less than
`2 ^ -1074`.
-/

namespace CommandScript

namespace Number

/-- A finite binary64 number, as its 64-bit encoding. -/
structure Binary64 where
  /-- Sign, biased exponent and fraction, from the high bit down. -/
  bits : UInt64
deriving DecidableEq

/-- `num / den` to the nearest natural number, a tie to the even one. -/
def roundQuotient (num den : Nat) : Nat :=
  let q := num / den
  let r := num % den
  if 2 * r < den then q
  else if den < 2 * r then q + 1
  else q + q % 2

/-- The exponent of the highest power of two that is at most `num / den`. -/
def floorLog2 (num den : Nat) : Int :=
  let b : Int := (num.log2 : Int) - den.log2
  if den <<< b.toNat ≤ num <<< (-b).toNat then b else b - 1

namespace Binary64

/-- The encoding of infinity: a magnitude is finite when it lies below. -/
def infinite : Nat := 2047 <<< 52

/-- The encoding of the magnitude nearest to `num / den`. Adding the
significand to its unit's field carries into the exponent exactly when
rounding reaches the next power of two. -/
def magnitude (num den : Nat) : Nat :=
  let unit := max (floorLog2 num den - 52) (-1074)
  let significand := roundQuotient (num <<< (-unit).toNat) (den <<< unit.toNat)
  (unit + 1074).toNat <<< 52 + significand

/-- The magnitude of `digits · 10 ^ exponent`. A power of ten far outside
the range settles the answer before any large number is built. -/
def decimalMagnitude (digits : Nat) (exponent : Int) : Nat :=
  if digits = 0 then 0
  else if 310 < exponent then infinite
  else if exponent < -(400 + digits.log2 : Int) then 0
  else magnitude (digits * Nat.pow 10 exponent.toNat) (Nat.pow 10 (-exponent).toNat)

/-- The number nearest to a decimal, unless that is infinite. -/
def ofDecimal (d : Decimal) : Option Binary64 :=
  let m := decimalMagnitude d.digits d.exponent
  if m < infinite then some ⟨UInt64.ofNat (if d.negative then 1 <<< 63 + m else m)⟩ else none

/-- The finite number that a text writes, if it writes one. -/
def read (s : String) : Option Binary64 :=
  (Decimal.read s).bind ofDecimal

/-- Zero, as read from `0`. -/
def zero : Binary64 := ⟨0⟩

end Binary64

end Number

end CommandScript
