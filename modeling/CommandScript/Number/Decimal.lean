import CommandScript.Number.Integer

/-!
# Decimal numerals

A decimal numeral is an optional sign, digits with at most one point among
them, and an optional exponent after `e` or `E`. It needs a digit before its
exponent and, where there is an exponent, a digit in that. Its value is
exact: a sign, a natural number and a power of ten.
-/

namespace CommandScript

namespace Number

/-- An exact decimal: `digits · 10 ^ exponent`, with a sign that a zero keeps. -/
structure Decimal where
  /-- Whether a minus sign was written. -/
  negative : Bool
  /-- All digits before the exponent, read as one number. -/
  digits : Nat
  /-- The written exponent less the number of digits after the point. -/
  exponent : Int
deriving DecidableEq

namespace Decimal

/-- The exponent that follows the digits: none, or a mark and an integer. -/
def readExponent : List Char → Option Int
  | [] => some 0
  | c :: rest =>
    if c = 'e' ∨ c = 'E' then
      let (negative, digits) := splitSign rest
      if digits = [] ∨ ¬ digits.all Char.isDigit then none
      else some (if negative then -(ofDigits digits : Int) else ofDigits digits)
    else none

/-- The digits after a point, and what follows them. -/
def splitFraction : List Char → List Char × List Char
  | '.' :: rest => (rest.takeWhile Char.isDigit, rest.dropWhile Char.isDigit)
  | rest => ([], rest)

/-- The decimal that a text writes, if it writes one. -/
def read (s : String) : Option Decimal :=
  let (negative, body) := splitSign s.toList
  let whole := body.takeWhile Char.isDigit
  let (fraction, rest) := splitFraction (body.dropWhile Char.isDigit)
  if whole ++ fraction = [] then none
  else (readExponent rest).map fun e => ⟨negative, ofDigits (whole ++ fraction), e - fraction.length⟩

end Decimal

end Number

end CommandScript
