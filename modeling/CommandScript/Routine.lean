import CommandScript.Handler
import CommandScript.Routine.Request

/-!
# Routines

A routine is a handler written as data: a list of actions, run in order until
one of them fails. What the actions find is kept in a journal, together with
the temporary resources that were set aside.
-/

namespace CommandScript

namespace Routine

/-- An action of a routine. -/
inductive Action where
  /-- Notes the call. -/
  | record
  /-- Notes the call as it is written. -/
  | show
  | setMode (mode : ModeOperand)
  | nextLine
  | takeBlock
  | load (path : String) (share : Bool)
  /-- Fails with a diagnostic, whose names and messages are operands. -/
  | fail (diagnostic : Diagnostic)
  /-- Runs actions, and goes on where they fail. -/
  | attempt (actions : List Action)
  /-- Notes the state of the interpreter. -/
  | state
  | request (request : Request)
deriving Inhabited

/-- What an action found. -/
inductive Answer where
  | call (call : Invocation) (mode : Int)
  | text (text : String)
  | mode (mode : Int)
  | line (line : Option String)
  | lines (lines : List String)
  | done
  | outcome (outcome : Except Diagnostic Unit)
  | state (mode : Int) (names : List String) (terminator : String)
  | finding (finding : Finding)

/-- An action that succeeded, and what it found. -/
structure Event where
  /-- The action's word. -/
  action : String
  /-- What it found. -/
  answer : Answer

/-- What routines keep between calls. -/
structure Notebook where
  /-- What happened, the earliest first. -/
  events : Array Event := #[]
  /-- The temporary resources set aside, the latest first. -/
  aside : List (ResourceStore.Scope Resource.plain) := []

/-- **The host of routines**: it keeps a notebook, and plain resources. -/
abbrev Journal : Host where
  State := Notebook
  resources := Resource.plain

/-- Notes an event and ends. -/
def emit (action : String) (answer : Answer) : Program Journal :=
  .modifyHost (fun j => { j with events := j.events.push ⟨action, answer⟩ }) .done

/-- Carries out a request to the store. -/
def requestProgram (r : Request) : Program Journal :=
  .getStore fun store => .getHost fun j =>
    match r.run ⟨store, j.aside⟩ with
    | .error d => .fail d
    | .ok (finding, shelf) =>
      .setStore shelf.store (.setHost { j with aside := shelf.aside } (emit r.label (.finding finding)))

mutual

/-- What one action does in a call. -/
def Action.program (call : Invocation) : Action → Program Journal
  | .record => .getMode fun mode => emit "record" (.call call mode)
  | .show => emit "show" (.text (call.command ++ " " ++ call.arguments.render))
  | .setMode operand =>
    let mode := operand.mode call.arguments
    .setMode mode (emit "set_mode" (.mode mode))
  | .nextLine => .nextLine fun line => emit "next_line" (.line line)
  | .takeBlock => .takeBlock fun
    | .ok lines => emit "read_block" (.lines lines)
    | .error d => .fail d
  | .load path share => .load (operandText call.arguments path) share fun
    | .ok () => emit "load" .done
    | .error d => .fail d
  | .fail d => .fail { d with cause := mapTexts (operandText call.arguments) d.cause }
  | .attempt actions => (programOf call actions).followedBy fun outcome =>
    emit "try" (.outcome outcome)
  | .state => .getMode fun mode => .getStore fun store =>
    emit "state" (.state mode store.names call.settings.blockTerminator)
  | .request r => requestProgram (r.fill call.arguments)

/-- What actions do in a call, one after another. -/
def programOf (call : Invocation) : List Action → Program Journal
  | [] => .done
  | a :: rest => (a.program call).andThen (programOf call rest)

end

/-- **The handler that runs a routine.** -/
def handler (actions : List Action) : Handler Journal :=
  fun call => programOf call actions

end Routine

end CommandScript
