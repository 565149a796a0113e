/-!
# Integers in text

An integer is an optional sign and one or more digits, and must fit a signed
64-bit word. There is no other form: no blanks, no separators, no base.
-/

namespace CommandScript

namespace Number

/-- Splits an optional sign off; the flag says whether it was a minus. -/
def splitSign : List Char → Bool × List Char
  | '-' :: rest => (true, rest)
  | '+' :: rest => (false, rest)
  | rest => (false, rest)

/-- The number that a run of digits writes in base ten. -/
def ofDigits (digits : List Char) : Nat :=
  digits.foldl (fun n c => 10 * n + (c.toNat - '0'.toNat)) 0

/-- The range of a signed 64-bit word. -/
def FitsWord (n : Int) : Prop :=
  -0x8000000000000000 ≤ n ∧ n < 0x8000000000000000

instance (n : Int) : Decidable (FitsWord n) :=
  inferInstanceAs (Decidable (_ ∧ _))

/-- The integer that a text writes, if it writes one. -/
def readInteger (s : String) : Option Int :=
  let (negative, digits) := splitSign s.toList
  if digits = [] ∨ ¬ digits.all Char.isDigit then none
  else
    let n : Int := if negative then -(ofDigits digits : Int) else ofDigits digits
    if FitsWord n then some n else none

end Number

end CommandScript
