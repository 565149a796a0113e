import CommandScript.Interpreter

/-!
# Running a statement

A statement runs in three steps: its command is found, the handler of the
command answers the call with a program, and the program is carried out. A
diagnostic leaves everything as the program had it by then; taking changes
back is left to the run as a whole.
-/

namespace CommandScript

namespace Interpreter

variable {σ : Host}

/-- How scripts are included: by path, and whether the temporary resources
are shared. -/
abbrev Loader (σ : Host) := String → Bool → InterpretM σ Unit

/-- A step of the interpreter as one of reading a script. -/
def lift {α : Type} (step : InterpretM σ α) : ReadM σ α := fun r =>
  match step r.interpreter with
  | .ok a interpreter => .ok a { r with interpreter }
  | .error d interpreter => .error d { r with interpreter }

/-- **Runs the program of a handler.** -/
def runProgram (load : Loader σ) (call : Invocation) : Program σ → ReadM σ Unit
  | .finish (.ok ()) => pure ()
  | .finish (.error d) => throw d
  | .getMode next => fun r => runProgram load call (next r.interpreter.mode) r
  | .setMode mode next => fun r =>
    runProgram load call next { r with interpreter := { r.interpreter with mode } }
  | .getStore next => fun r => runProgram load call (next r.interpreter.store) r
  | .setStore store next => fun r =>
    runProgram load call next { r with interpreter := { r.interpreter with store } }
  | .getHost next => fun r => runProgram load call (next r.interpreter.host) r
  | .setHost host next => fun r =>
    runProgram load call next { r with interpreter := { r.interpreter with host } }
  | .nextLine next => fun r =>
    runProgram load call (next r.cursor.next.1) { r with cursor := r.cursor.next.2 }
  | .takeBlock next => fun r =>
    let terminator := r.interpreter.settings.blockTerminator
    let (block, cursor) := r.cursor.takeBlock terminator
    let answer :=
      match block with
      | some lines => .ok lines
      | none => .error ⟨.unterminatedBlock call.command terminator, none⟩
    runProgram load call (next answer) { r with cursor }
  | .load path share next => fun r =>
    match load path share r.interpreter with
    | .ok () interpreter => runProgram load call (next (.ok ())) { r with interpreter }
    | .error d interpreter => runProgram load call (next (.error d)) { r with interpreter }

/-- Finds the command of a statement and runs it. -/
def dispatch (load : Loader σ) (script : Script) (s : Statement) : ReadM σ Unit := do
  lift (note (.statement script.path s))
  let i := (← get).interpreter
  match i.commands.resolve s.name s.arguments i.mode with
  | .error d => throw d
  | .ok call =>
    lift (note (.matched s.name call.index call.signature))
    let invocation : Invocation := ⟨s.name, s.position, script.path, call.arguments, i.settings⟩
    runProgram load invocation (call.handler invocation)

end Interpreter

end CommandScript
