import CommandScript.Diagnostic
import CommandScript.Statement
import CommandScript.Text.Alphanumeric
import CommandScript.Text.Blank

/-!
# The scanner

Statements are read character by character, and a statement may go on over
line ends, so what has been read of it is a state between lines. A scan of a
line stops behind each semicolon that ends a statement, which lets the
statement run before the rest of its line is read. A quoted text is the one
thing that must end on its line.

The state survives a fault just as the fault left it. At the outset, and
whenever a statement has ended, it is the empty state.
-/

namespace CommandScript

/-- A text with the place where it starts. -/
structure Lexeme where
  /-- The characters. -/
  text : String
  /-- The place of the first. -/
  start : Position
deriving DecidableEq, Inhabited

/-- Values that are being read one after the other: those of an open array, or
those of the statement itself. -/
structure Frame where
  /-- The place of the opening parenthesis, and the name before it. A statement
  has neither. -/
  tag : Tag := {}
  /-- The values so far, latest first. -/
  items : List Value := []
  /-- Whether one of them has a name. -/
  named : Bool := false
deriving DecidableEq

/-- What has been read of a statement. -/
structure Scanner where
  /-- The open arrays, innermost first, and last the root, which is the frame of
  the statement. -/
  frames : List Frame := [{}]
  /-- The bare word being read, which has a character at least. -/
  word : Option Lexeme := none
  /-- The name that the next value is passed under. -/
  label : Option Lexeme := none
  /-- Where the statement started. -/
  started : Option Position := none
deriving DecidableEq

/-- A fault and its place in the line. -/
structure ScanError where
  /-- What is wrong. -/
  fault : ScanFault
  /-- Where. -/
  position : Position
deriving DecidableEq

namespace ScanError

/-- The fault as a diagnostic that knows its position but no script. A defect
has no position in the line. -/
def diagnostic (e : ScanError) : Diagnostic :=
  if e.fault.isDefect then ⟨.internal e.fault.message, none⟩
  else ⟨.scan e.fault, some (Context.withPosition {} e.position)⟩

end ScanError

/-- How a scan of a line ends. -/
inductive Scan where
  /-- A semicolon ended a statement; the rest starts at the index. -/
  | statement (statement : Statement) (resume : Nat)
  /-- The line is read, and no further statement ended on it. -/
  | endOfLine
deriving DecidableEq

/-- A step of the scanner; a fault keeps the state it arose in. -/
abbrev ScanM := EStateM ScanError Scanner

/-- What a character means outside quotes. -/
inductive CharClass where
  | quote
  | comment
  | terminator
  | openParen
  | closeParen
  | colon
  | separator
  | word
  | other
deriving DecidableEq

/-- The meaning of a character outside quotes. -/
def CharClass.of (c : Char) : CharClass :=
  if c = '"' then quote
  else if c = '#' then comment
  else if c = ';' then terminator
  else if c = '(' then openParen
  else if c = ')' then closeParen
  else if c = ':' then colon
  else if Text.isBlank c || c == ',' then separator
  else if Text.isWordChar c then word
  else other

namespace Frame

/-- One more value. -/
def push (f : Frame) (v : Value) : Frame :=
  { f with items := v :: f.items, named := v.name.isSome || f.named }

/-- The frame without its values. -/
def clear (f : Frame) : Frame :=
  { f with items := [], named := false }

end Frame

namespace Scanner

/-- Whether a statement has started and not ended. -/
def inStatement (s : Scanner) : Bool :=
  s.started.isSome

/-! ## Steps -/

/-- Marks where the statement starts, if nothing of it was read before. -/
def markStarted (p : Position) : ScanM Unit :=
  modify fun s => { s with started := s.started.or (some p) }

/-- Adds a finished value to the innermost frame. Once a value of it has a
name, all that follow need one. -/
def attach (v : Value) : ScanM Unit := do
  let s ← get
  match s.frames with
  -- the scanner is at fault, not the text
  | [] => throw ⟨.lostRoot, v.position⟩
  | f :: rest =>
    if v.name.isNone && f.named then throw ⟨.positionalAfterNamed, v.position⟩
    else set { s with frames := f.push v :: rest }

/-- Adds a finished scalar under the name that waits for it. -/
def attachScalar (v : Value) : ScanM Unit := do
  let s ← get
  set { s with label := none }
  attach (v.rename (s.label.map Lexeme.text))

/-- Ends the bare word being read, if there is one. -/
def completeWord : ScanM Unit := do
  let s ← get
  match s.word with
  | none => pure ()
  | some w =>
    set { s with word := none }
    attachScalar (Value.word w.text w.start)

/-- Reads one more character of a bare word. -/
def extendWord (c : Char) (p : Position) : ScanM Unit := do
  let s ← get
  match s.word with
  | some w => set { s with word := some { w with text := w.text.push c } }
  | none =>
    set { s with word := some ⟨c.toString, p⟩ }
    markStarted p

/-- Reads an opening parenthesis. The root is no array that the script opened. -/
def openArray (p : Position) : ScanM Unit := do
  let s ← get
  if maxNesting < s.frames.length then throw ⟨.nestedTooDeep, p⟩
  else
    markStarted p
    modify fun t =>
      { t with frames := { tag := ⟨t.label.map Lexeme.text, p⟩ } :: t.frames, label := none }

/-- Reads a closing parenthesis. -/
def closeArray (p : Position) : ScanM Unit := do
  let s ← get
  match s.frames with
  | [] | [_] => throw ⟨.unbalancedClose, p⟩
  | f :: g :: rest =>
    match s.label with
    | some l =>
      set { s with label := none }
      throw ⟨.nameWithoutValue l.text, l.start⟩
    | none =>
      set { s with frames := g :: rest }
      attach (Value.array f.tag f.items.reverse)

/-- Reads a colon: the word before it is the name of the next value. -/
def takeLabel (p : Position) : ScanM Unit := do
  let s ← get
  match s.label, s.word with
  | some l, _ => throw ⟨.alreadyNamed l.text, p⟩
  | none, none => throw ⟨.colonWithoutName, p⟩
  | none, some w => set { s with word := none, label := some w }

/-- The statement made of its values: a command word and arguments. -/
def toStatement (terminator : Position) : Value → List Value → Except ScanError Statement
  | .scalar ⟨none, p⟩ _ name, arguments =>
    .ok ⟨name, p, Value.list arguments ((arguments.head?.map Value.position).getD terminator)⟩
  | command, _ => .error ⟨.noCommandWord, command.position⟩

/-- Reads a semicolon. It ends a statement unless nothing stands before it.
The frame right above the root is the outermost open array. -/
def completeStatement (p : Position) : ScanM (Option Statement) := do
  let s ← get
  match s.frames.dropLast.getLast?, s.label with
  | some outermost, _ => throw ⟨.arrayLeftOpen, outermost.tag.position⟩
  | none, some l => throw ⟨.nameWithoutValue l.text, l.start⟩
  | none, none =>
    -- the statement is over even if its values make none
    set { s with started := none }
    match s.frames with
    | [] => throw ⟨.rootOutOfBounds, p⟩
    | root :: rest =>
      set { s with started := none, frames := root.clear :: rest }
      match root.items.reverse with
      | [] => pure none
      | command :: arguments =>
        match toStatement p command arguments with
        | .ok statement => pure (some statement)
        | .error e => throw e

/-! ## Lines -/

/-- **Reads characters of a line** until a statement ends or the line does.
The index counts the characters before, and a quoted text that is being read
is carried along. -/
def scanChars (line : Nat) : List Char → Nat → Option Lexeme → ScanM Scan
  | [], _, some q => throw ⟨.unterminatedText, q.start⟩
  | [], _, none => do
    completeWord
    pure .endOfLine
  | c :: rest, i, some q =>
    if c = '"' then do
      attachScalar (Value.quoted q.text q.start)
      scanChars line rest (i + 1) none
    else scanChars line rest (i + 1) (some { q with text := q.text.push c })
  | c :: rest, i, none =>
    let p : Position := ⟨line, Position.ordinal i⟩
    match CharClass.of c with
    | .quote => do
      completeWord
      markStarted p
      scanChars line rest (i + 1) (some ⟨"", p⟩)
    | .comment => do
      completeWord
      pure .endOfLine
    | .terminator => do
      completeWord
      match ← completeStatement p with
      | some statement => pure (.statement statement (i + 1))
      | none => scanChars line rest (i + 1) none
    | .openParen => do
      completeWord
      openArray p
      scanChars line rest (i + 1) none
    | .closeParen => do
      completeWord
      closeArray p
      scanChars line rest (i + 1) none
    | .colon => do
      takeLabel p
      scanChars line rest (i + 1) none
    | .separator => do
      completeWord
      scanChars line rest (i + 1) none
    | .word => do
      extendWord c p
      scanChars line rest (i + 1) none
    | .other => throw ⟨.unexpectedCharacter c p.column, p⟩

/-- Scans a line from a character index on. -/
def scan (text : String) (line start : Nat) : ScanM Scan :=
  scanChars line (text.toList.drop start) start none

/-- Ends the script: an open statement is a fault, and is dropped. -/
def finish : ScanM Unit := do
  let s ← get
  match s.started with
  | none => pure ()
  | some p =>
    set ({} : Scanner)
    throw ⟨.unterminatedStatement, p⟩

end Scanner

end CommandScript
