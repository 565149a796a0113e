/-!
# Resources

What commands leave behind for one another and for the host: values of
whatever types the host has, each under a name. A value knows its type, and
is asked for by it.
-/

namespace CommandScript

/-- **The resources that a host may have.** -/
structure ResourceUniverse where
  /-- The values. -/
  Value : Type
  /-- Their types. -/
  Code : Type
  /-- The type of a value. -/
  type : Value → Code
  /-- A type as diagnostics spell it: the storage that it takes. -/
  storage : Code → String
  /-- Types can be told apart. -/
  [decidableEq : DecidableEq Code]

attribute [instance] ResourceUniverse.decidableEq

end CommandScript
