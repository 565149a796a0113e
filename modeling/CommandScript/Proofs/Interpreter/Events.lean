import CommandScript.Interpreter.Run
import CommandScript.Proofs.Result
import CommandScript.Proofs.Script.Cursor
import CommandScript.Proofs.Statement.Resume

/-!
# The events of a run

A run of a script yields its last state; what it did on the way is kept here
as events, in the order in which they happen. The loop takes a line, a
statement runs once it has been read, and its command may take lines and
include scripts before it ends. The functions follow the run step by step
and take every state from it, so that they add nothing but the record.

The edited lines are what the scanner has seen of the script: a line taken by
a command is empty, and the line of that command's statement ends behind it.
-/

namespace CommandScript

namespace Interpreter

variable {σ : Host}

/-- What a command asks of the interpreter, besides state. -/
inductive Request (σ : Host) where
  /-- Takes a line of the script. -/
  | taken (text : String)
  /-- Includes a script, in this state. -/
  | load (path : String) (share : Bool) (before : Interpreter σ)

/-- What happens in a run of a script. -/
inductive Event (σ : Host) where
  /-- The loop takes a line. -/
  | line (text : String)
  /-- A statement runs. The rest of its line starts at the index, and its
  command asks for these. -/
  | statement (statement : Statement) (resume : Nat) (requests : List (Request σ))
  /-- The scanner stops at a fault. -/
  | fault (error : ScanError)

/-! ## Recording -/

/-- The requests of a handler's program. -/
def programRequests (load : Loader σ) (call : Invocation) :
    Program σ → Reading σ → List (Request σ)
  | .finish _, _ => []
  | .getMode next, r => programRequests load call (next r.interpreter.mode) r
  | .setMode mode next, r =>
    programRequests load call next { r with interpreter := { r.interpreter with mode } }
  | .getStore next, r => programRequests load call (next r.interpreter.store) r
  | .setStore store next, r =>
    programRequests load call next { r with interpreter := { r.interpreter with store } }
  | .getHost next, r => programRequests load call (next r.interpreter.host) r
  | .setHost host next, r =>
    programRequests load call next { r with interpreter := { r.interpreter with host } }
  | .nextLine next, r =>
    r.cursor.next.1.toList.map .taken ++
      programRequests load call (next r.cursor.next.1) { r with cursor := r.cursor.next.2 }
  | .takeBlock next, r =>
    let terminator := r.interpreter.settings.blockTerminator
    let (block, cursor) := r.cursor.takeBlock terminator
    let answer :=
      match block with
      | some lines => .ok lines
      | none => .error ⟨.unterminatedBlock call.command terminator, none⟩
    (r.cursor.blockLines terminator).map .taken ++
      programRequests load call (next answer) { r with cursor }
  | .load path share next, r =>
    .load path share r.interpreter ::
      match load path share r.interpreter with
      | .ok () interpreter =>
        programRequests load call (next (.ok ())) { r with interpreter }
      | .error d interpreter =>
        programRequests load call (next (.error d)) { r with interpreter }

/-- The state in which the command of a statement is looked up. -/
def announced (script : Script) (s : Statement) (r : Reading σ) : Reading σ :=
  { r with interpreter := r.interpreter.noted (.statement script.path s) }

/-- The call that a statement makes. -/
def invocation (script : Script) (s : Statement) (i : Interpreter σ)
    (call : Call (Handler σ)) : Invocation :=
  ⟨s.name, s.position, script.path, call.arguments, i.settings⟩

/-- The requests of a statement. -/
def requests (load : Loader σ) (script : Script) (s : Statement) (r : Reading σ) :
    List (Request σ) :=
  let i := (announced script s r).interpreter
  match i.commands.resolve s.name s.arguments i.mode with
  | .error _ => []
  | .ok call =>
    let invocation := invocation script s i call
    programRequests load invocation (call.handler invocation)
      { r with interpreter := i.noted (.matched s.name call.index call.signature) }

/-- The events on a line, from a character index on. -/
def lineEvents (load : Loader σ) (script : Script) (text : String) (line : Nat) :
    Nat → Nat → Reading σ → List (Event σ)
  | 0, _, _ => []
  | rounds + 1, start, r =>
    match Scanner.scan text line start r.scanner with
    | .error e _ => [.fault e]
    | .ok .endOfLine _ => []
    | .ok (.statement s resume) scanner =>
      .statement s resume (requests load script s { r with scanner }) ::
        match dispatch load script s { r with scanner } with
        | .error _ _ => []
        | .ok () t =>
          if t.cursor.taken = r.cursor.taken then lineEvents load script text line rounds resume t
          else []

/-- The events of the lines that are left, of which there are at most so
many. -/
def linesEvents (load : Loader σ) (script : Script) : Nat → Reading σ → List (Event σ)
  | 0, _ => []
  | left + 1, r =>
    match r.cursor.next with
    | (none, _) => []
    | (some text, cursor) =>
      .line text ::
        (lineEvents load script text cursor.number (text.length + 1) 0 { r with cursor } ++
          match runLine load script text cursor.number (text.length + 1) 0 { r with cursor } with
          | .error _ _ => []
          | .ok () t => linesEvents load script left t)

/-- The events at the end of a script. -/
def finishEvents (s : Scanner) : List (Event σ) :=
  match Scanner.finish s with
  | .error e _ => [.fault e]
  | .ok () _ => []

/-- **The events of a run**, from the first line of a script to its end. -/
def events (load : Loader σ) (script : Script) (r : Reading σ) : List (Event σ) :=
  linesEvents load script r.cursor.lines.length r ++
    match runLines load script r.cursor.lines.length r with
    | .error _ _ => []
    | .ok () t => finishEvents t.scanner

/-! ## Reading the record -/

/-- The line that a request takes. -/
def Request.line? : Request σ → Option String
  | .taken text => some text
  | .load _ _ _ => none

/-- The lines that requests take. -/
def linesTaken (rs : List (Request σ)) : List String :=
  rs.filterMap Request.line?

/-- The lines that are taken in an event. -/
def Event.lines : Event σ → List String
  | .line text => [text]
  | .statement _ _ rs => linesTaken rs
  | .fault _ => []

/-- **The lines taken**, by the loop and by commands, in order. -/
def fetched (es : List (Event σ)) : List String :=
  es.flatMap Event.lines

/-- The statement that runs in an event. -/
def Event.statement? : Event σ → Option Statement
  | .statement s _ _ => some s
  | _ => none

/-- **The statements that ran**, in order. -/
def dispatched (es : List (Event σ)) : List Statement :=
  es.filterMap Event.statement?

/-- A line as far as it counts, given what happens behind it: up to the
statement whose command takes lines, if there is one. -/
def seen (text : String) : List (Event σ) → String
  | .statement _ resume rs :: es =>
    if linesTaken rs = [] then seen text es else Scanner.cut text resume
  | _ => text

/-- **The edited lines** of those taken. -/
def edit : List (Event σ) → List String
  | [] => []
  | .line text :: es => seen text es :: edit es
  | .statement _ _ rs :: es => (linesTaken rs).map (fun _ => "") ++ edit es
  | .fault _ :: es => edit es

/-- **The edited lines of a script**: those taken, edited, and the rest as it
stands. -/
def editedLines (lines : List String) (es : List (Event σ)) : List String :=
  edit es ++ lines.drop (fetched es).length

end Interpreter

end CommandScript
