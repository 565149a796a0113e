import CommandScript.Diagnostic.Cause
import CommandScript.Position

/-!
# Diagnostics

A diagnostic is a cause and what is known of its place. The place grows as
the diagnostic travels outwards: the script where it arose adds its name, the
position and the line once, and every script that included that one adds a
frame. The report puts all of it before the user.
-/

namespace CommandScript

/-- What is known of the place of a diagnostic. -/
structure Context where
  /-- The script. -/
  source : Option String := none
  /-- Its line. -/
  line : Option Nat := none
  /-- The column in the line. -/
  column : Option Nat := none
  /-- The text of the line. -/
  lineText : Option String := none
  /-- Whether to mark the column under the line. -/
  caret : Bool := false
  /-- The scripts on the way here, the innermost includer first. -/
  frames : List String := []
deriving DecidableEq, Inhabited

/-- A cause, and its place as far as known. -/
structure Diagnostic where
  /-- What went wrong. -/
  cause : Cause
  /-- Where. -/
  context : Option Context := none
deriving DecidableEq

/-! ## Places -/

namespace Context

/-- The place with this position. -/
def withPosition (c : Context) (p : Position) : Context :=
  { c with line := some p.line, column := some p.column }

/-- The place with the text of its line. -/
def withLineText (c : Context) (text : String) (caret : Bool) : Context :=
  { c with lineText := some text, caret }

/-- The position, when both parts of it are known. -/
def position? (c : Context) : Option Position :=
  match c.line, c.column with
  | some line, some column => some ⟨line, column⟩
  | _, _ => none

/-- Whether script and line are known. -/
def isLocated (c : Context) : Bool :=
  c.source.isSome && c.line.isSome

/-- `:line:column`, or nothing while one of them is unknown. -/
def positionText (c : Context) : String :=
  match c.position? with
  | some p => ":" ++ p.text
  | none => ""

/-- **The mark under a column**: blanks up to it, with the tabs of the line
kept, so that the mark stands under its character however wide a tab is. -/
def caretLine (lineText : String) (column : Nat) : String :=
  let width := column - 1
  let line := lineText.toList.take width
  String.ofList (line.map fun c => if c = '\t' then '\t' else ' ')
    ++ String.ofList (List.replicate (width - line.length) ' ') ++ "^"

/-- The lines above the message: place, text of the line, mark. -/
def header (c : Context) : String :=
  match c.source with
  | none => ""
  | some source =>
    source ++ c.positionText ++ "\n" ++
      match c.lineText with
      | none => ""
      | some text =>
        text ++ "\n" ++
          match c.caret, c.column with
          | true, some column => caretLine text column ++ "\n"
          | _, _ => ""

/-- The lines below the message: the scripts on the way. -/
def trail (c : Context) : String :=
  if c.frames = [] then ""
  else "\nscript stack:" ++ String.join (c.frames.map fun f => "\n  loaded from " ++ f)

/-- The place on its own, without the text of the line. -/
def text (c : Context) : String :=
  (match c.source with
    | none => ""
    | some source => "at " ++ source ++ c.positionText) ++
    if c.frames = [] then ""
    else "\n" ++ String.join (c.frames.map fun f => "  loaded from " ++ f ++ "\n")

end Context

namespace Diagnostic

/-- The diagnostic with this place instead of its own. -/
def withContext (d : Diagnostic) (c : Context) : Diagnostic :=
  { d with context := some c }

/-- The diagnostic with one more script on its way. -/
def withFrame (d : Diagnostic) (frame : String) : Diagnostic :=
  let c := d.context.getD {}
  d.withContext { c with frames := c.frames ++ [frame] }

/-- The wording of the cause. -/
def message (d : Diagnostic) : String :=
  d.cause.message

/-- Whether the cause is fatal. -/
def isFatal (d : Diagnostic) : Bool :=
  d.cause.isFatal

/-- Whether script and line are known. -/
def isLocated (d : Diagnostic) : Bool :=
  d.context.any Context.isLocated

/-- **The diagnostic as shown to a user**: place, line and mark, message, and
the scripts on the way. -/
def report (d : Diagnostic) : String :=
  match d.context with
  | none => d.message
  | some c => c.header ++ d.message ++ c.trail

end Diagnostic

end CommandScript
