import CommandScript.Value

/-!
# Statements

A script is a sequence of statements. A statement is a command word and the
arguments after it, up to a semicolon.
-/

namespace CommandScript

/-- A command word and its arguments. -/
structure Statement where
  /-- The command word as written. -/
  name : String
  /-- Where the command word starts. -/
  position : Position
  /-- The arguments, as one array without a name. It starts where the first
  argument does, or at the semicolon if there is none. -/
  arguments : Value
deriving DecidableEq

end CommandScript
