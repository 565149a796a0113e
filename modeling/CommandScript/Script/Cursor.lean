import CommandScript.Position
import CommandScript.Text.Blank
import CommandScript.Text.Case
import CommandScript.Text.Lines

/-!
# The lines of a script

A script is read line by line, by the interpreter and by the commands in it,
which may take lines for themselves. Both take them from one cursor, so that
each line is taken once.
-/

namespace CommandScript

/-- The lines of a script, and how many of them have been taken. -/
structure Cursor where
  /-- All lines. -/
  lines : List String
  /-- The number of lines taken. -/
  taken : Nat := 0
deriving DecidableEq

namespace Cursor

/-- The lines of a text, none of them taken. -/
def ofText (text : String) : Cursor :=
  { lines := Text.lines text }

/-- The lines that have not been taken. -/
def rest (c : Cursor) : List String :=
  c.lines.drop c.taken

/-- The number of the line taken last, or zero before the first. -/
def number (c : Cursor) : Nat :=
  min c.taken Position.last

/-- Whether every line has been taken. -/
def isFinished (c : Cursor) : Bool :=
  c.lines.length ≤ c.taken

/-- The line of a number, taken or not. -/
def line? (c : Cursor) (number : Nat) : Option String :=
  if number = 0 then none else c.lines[number - 1]?

/-- Takes the next line. -/
def next (c : Cursor) : Option String × Cursor :=
  match c.lines[c.taken]? with
  | none => (none, c)
  | some line => (some line, { c with taken := c.taken + 1 })

/-- The line taken is the first of those that were left. -/
theorem rest_of_next {c : Cursor} {line : String} (h : c.next.1 = some line) :
    c.rest = line :: c.next.2.rest := by
  unfold next at h ⊢
  unfold rest
  split at h
  · cases h
  · rename_i l hl
    cases h
    exact List.drop_eq_getElem?_toList_append.trans (by simp [hl])

theorem next_of_isFinished {c : Cursor} (h : c.isFinished = true) : c.next = (none, c) := by
  unfold isFinished at h
  unfold next
  rw [List.getElem?_eq_none (by simpa using h)]

/-- Whether a line ends a block: without the blanks around it, it is the
terminator, ignoring case. -/
def isTerminator (terminator line : String) : Bool :=
  (Text.trimBlanks line.toList).map Char.toLower == Text.caseKey terminator

/-- **Takes the lines of a block** and the terminator behind them. Where no
terminator follows, all lines are taken and there is no block. -/
def takeBlock (c : Cursor) (terminator : String) : Option (List String) × Cursor :=
  let block := c.rest.takeWhile fun line => !isTerminator terminator line
  if block.length < c.rest.length then
    (some block, { c with taken := c.taken + block.length + 1 })
  else (none, { c with taken := c.lines.length })

end Cursor

end CommandScript
