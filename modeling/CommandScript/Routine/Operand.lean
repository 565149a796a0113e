import CommandScript.Diagnostic
import CommandScript.Value

/-!
# Operands

A text in a routine may refer to an argument of the call, by a dollar sign
and the argument's name; it then stands for the text of that argument.
-/

namespace CommandScript

namespace Routine

/-- The text that an operand stands for: an argument's, if it refers to one,
and otherwise itself. What is no scalar argument has no text. -/
def operandText (arguments : Value) (operand : String) : String :=
  match operand.toList with
  | '$' :: name => ((arguments.named? (String.ofList name)).bind Value.text?).getD ""
  | _ => operand

/-- A mode, given or to be read from an operand. -/
inductive ModeOperand where
  | number (mode : Int)
  | text (operand : String)
deriving DecidableEq

/-- The mode that an integer stands for: the one of 32 bits congruent to it. -/
def wrapMode (n : Int) : Int :=
  n.bmod 0x100000000

/-- The mode that an operand stands for; a text that is no integer stands for
zero. -/
def ModeOperand.mode (arguments : Value) : ModeOperand → Int
  | number n => wrapMode n
  | text operand => wrapMode ((Number.readInteger (operandText arguments operand)).getD 0)

/-- A diagnostic with each name and message in its cause changed. -/
def mapTexts (f : String → String) : Cause → Cause
  | .illFormed message => .illFormed (f message)
  | .signature source column (.stated message) => .signature (f source) column (.stated (f message))
  | .unknownCommand name => .unknownCommand (f name)
  | .wrongMode name mode => .wrongMode (f name) mode
  | .noMatchingOverload command signatures => .noMatchingOverload (f command) signatures
  | .content message => .content (f message)
  | .rejected message => .rejected (f message)
  | .duplicateResource name => .duplicateResource (f name)
  | .missingResource name => .missingResource (f name)
  | .resourceType name expected => .resourceType (f name) expected
  | .duplicateRegistration name => .duplicateRegistration (f name)
  | .emptyRegistration name => .emptyRegistration (f name)
  | .unreadable path (.stated message) => .unreadable (f path) (.stated (f message))
  | .internal message => .internal (f message)
  | cause => cause

end Routine

end CommandScript
