import CommandScript.Interpreter.Dispatch

/-!
# Running scripts

The lines of a script are scanned in order, and a statement runs as soon as
its semicolon has been read, before the rest of its line. A script stays on
the stack while it runs. As no script can be on the stack twice, the number
of files bounds how deep scripts can lie inside one another, and with it the
recursion.
-/

namespace CommandScript

namespace Interpreter

variable {σ : Host}

/-! ## Scripts -/

/-- A step of the scanner as one of reading a script. -/
def scanning {α : Type} (step : ScanM α) : ReadM σ α := fun r =>
  match step r.scanner with
  | .ok a scanner => .ok a { r with scanner }
  | .error e scanner => .error e.diagnostic { r with scanner }

/-- Takes the next line of the script. -/
def takeLine : ReadM σ (Option String) :=
  modifyGet fun r => (r.cursor.next.1, { r with cursor := r.cursor.next.2 })

/-- Runs the statements that end on a line, from a character index on, in at
most the given number of scans. Where a command takes lines for itself, the
rest of its own line is skipped. -/
def runLine (load : Loader σ) (script : Script) (text : String) (line : Nat) :
    Nat → Nat → ReadM σ Unit
  | 0, _ => pure ()
  | rounds + 1, start => do
    match ← located script ⟨line, 1⟩ (scanning (Scanner.scan text line start)) with
    | .endOfLine => pure ()
    | .statement s resume =>
      let before := (← get).cursor.taken
      located script s.position (dispatch load script s)
      if (← get).cursor.taken = before then runLine load script text line rounds resume
      else pure ()

/-- Runs the lines that are left, of which there are at most so many. -/
def runLines (load : Loader σ) (script : Script) : Nat → ReadM σ Unit
  | 0 => pure ()
  | left + 1 => do
    match ← takeLine with
    | none => pure ()
    | some text =>
      let line := (← get).cursor.number
      runLine load script text line (text.length + 1) 0
      runLines load script left

/-- Runs a script from its first line to its end. -/
def runAll (load : Loader σ) (script : Script) : ReadM σ Unit := do
  runLines load script (← get).cursor.lines.length
  located script ⟨(← get).cursor.number, 1⟩ (scanning Scanner.finish)

/-- Runs the text of a script that is on the stack, and logs how it ends. -/
def runText (load : Loader σ) (script : Script) (text : String) : InterpretM σ Unit := fun i =>
  let i := i.noted (.reading script.path i.mode)
  match runAll load script { interpreter := i, cursor := Cursor.ofText text } with
  | .ok () r => .ok () (r.interpreter.noted (.finished script.path))
  | .error d r => .error d (r.interpreter.noted (.aborted script.path d.cause))

/-- A step during which a script is on the stack. -/
def within (script : Script) (step : InterpretM σ Unit) : InterpretM σ Unit := fun i =>
  match i.stack.start script with
  | .error d => .error d i
  | .ok (stack, notes) =>
    match step { i with stack, log := i.log ++ notes } with
    | .ok () i => .ok () { i with stack := i.stack.finish script }
    | .error d i => .error d { i with stack := i.stack.finish script }

/-- Reads the file of a script and runs its text. -/
def readFile (run : Script → String → InterpretM σ Unit) (script : Script) : InterpretM σ Unit :=
  within script do
    match (← get).files.read script.path with
    | .error fault => throw ⟨.unreadable script.path fault, none⟩
    | .ok text => run script text

/-- **Includes a script in another.** Afterwards the mode is as before, and
so are the temporary resources, unless they are shared. -/
def loadFrom (run : Script → String → InterpretM σ Unit) (includer : Script) : Loader σ :=
  fun path share i =>
    let script := Script.ofPath i.files (includer.resolve path)
    let (scope, emptied) := i.store.takeTemporary
    let restore (j : Interpreter σ) : Interpreter σ :=
      { j with mode := i.mode, store := if share then j.store else j.store.restoreTemporary scope }
    match readFile run script { i with store := if share then i.store else emptied } with
    | .ok () j => .ok () (restore j)
    | .error d j => .error d (restore j)

/-- Runs the text of a script, with at most so many scripts inside one
another. -/
def runScript : Nat → Script → String → InterpretM σ Unit
  | 0, _, _ => throw ⟨.internal "too many scripts inside one another", none⟩
  | depth + 1, script, text => runText (loadFrom (runScript depth) script) script text

/-- How many scripts can be inside one another: each file once, a text that
is no file, and a path that leads to none. -/
def maxDepth (i : Interpreter σ) : Nat :=
  i.files.files.length + 2

/-! ## Runs from outside -/

/-- **A run as a whole**, in a mode of its own. -/
def transaction (mode : Int) (step : InterpretM σ Unit) : InterpretM σ Unit := fun i =>
  match step { i with stack := i.stack.clearCompleted, mode } with
  | .ok () j => .ok () { j with mode := i.mode }
  | .error d j => .error d { j with mode := i.mode, store := i.store }

/-- Reads a script file and runs it. -/
def runFile (path : String) (mode : Int) : InterpretM σ Unit := do
  let i ← get
  transaction mode (readFile (runScript i.maxDepth) (Script.ofPath i.files path))

/-- Runs the text of a script that goes by a path, whether or not there is a
file. -/
def runSource (path text : String) (mode : Int) : InterpretM σ Unit := do
  let i ← get
  let script := Script.ofPath i.files path
  transaction mode (within script (runScript i.maxDepth script text))

/-- Whether a script was read in the last run. -/
def wasRead (i : Interpreter σ) (path : String) : Bool :=
  i.stack.wasRead (Script.ofPath i.files path)

end Interpreter

end CommandScript
