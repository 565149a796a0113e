import CommandScript.Statement.Scanner
import CommandScript.Text.Lines

/-!
# The statements of a text

A text is read line by line with one scanner, each line scanned again behind
every statement that ends on it. The statements are those of all lines in
order, unless there is a fault: then it is the first one that counts.
-/

namespace CommandScript

namespace Scanner

/-- The statements that end on a line, from a character index on, in at most
the given number of scans. -/
def statementsFrom (text : String) (line : Nat) : Nat → Nat → ScanM (List Statement)
  | 0, _ => pure []
  | rounds + 1, start => do
    match ← scan text line start with
    | .endOfLine => pure []
    | .statement s resume => do
      let more ← statementsFrom text line rounds resume
      pure (s :: more)

/-- The statements that end on a line. A scan that ends a statement reads a
character at least, so one scan more than there are characters is enough. -/
def statementsOf (text : String) (line : Nat) : ScanM (List Statement) :=
  statementsFrom text line (text.length + 1) 0

/-- The statements of the lines, the first of which has the index given. -/
def statementsOfLines : List String → Nat → ScanM (List Statement)
  | [], _ => do
    finish
    pure []
  | text :: rest, index => do
    let here ← statementsOf text (Position.ordinal index)
    let more ← statementsOfLines rest (index + 1)
    pure (here ++ more)

end Scanner

namespace Statement

/-- **The statements of a script**, or the first fault in it. -/
def readAll (source : String) : Except ScanError (List Statement) :=
  match (Scanner.statementsOfLines (Text.lines source) 0).run {} with
  | .ok statements _ => .ok statements
  | .error e _ => .error e

end Statement

end CommandScript
