/-!
# Settings

What a host decides about an interpreter before it reads any script.
-/

namespace CommandScript

/-- The choices of a host. -/
structure Settings where
  /-- What the names of temporary resources start with. -/
  temporaryMark : String := "temp_"
  /-- The line that ends a block of raw lines. -/
  blockTerminator : String := "END;"
  /-- Whether diagnostics mark their column. -/
  showCaret : Bool := true
  /-- The mode of scripts that are run without one. -/
  initialMode : Int := 0
  /-- The name of the command that includes a script, if there is to be one. -/
  loadCommand : Option String := some "LOAD"
deriving DecidableEq

end CommandScript
