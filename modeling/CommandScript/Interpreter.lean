import CommandScript.Handler
import CommandScript.Script.Cursor
import CommandScript.Script.Stack
import CommandScript.Statement.Scanner
import CommandScript.Vocabulary.CommandTable
import CommandScript.Vocabulary.TypeTable

/-!
# The interpreter

An interpreter reads scripts and runs each statement when its semicolon has
been read. It holds the vocabulary, the resources, the mode and the scripts
being read. A run of a script from outside is all or nothing: where it ends
with a diagnostic the resources are as they were before, and in any case the
mode is. A script that another includes starts in the mode of the other and
gives it back; so it does with the temporary resources, unless they are
shared.
-/

namespace CommandScript

/-- An interpreter that works for a host. -/
structure Interpreter (σ : Host) where
  /-- The choices of the host. -/
  settings : Settings
  /-- The files that scripts are read from. -/
  files : FileTree
  /-- The named types. -/
  types : TypeTable := {}
  /-- The commands. -/
  commands : CommandTable (Handler σ) := {}
  /-- The resources. -/
  store : ResourceStore σ.resources
  /-- The scripts being read. -/
  stack : ScriptStack := {}
  /-- The mode. -/
  mode : Int
  /-- The state that the host keeps for its handlers. -/
  host : σ.State
  /-- What happened, the earliest first. -/
  log : Array LogEntry := #[]

/-- The state of reading one script. -/
structure Reading (σ : Host) where
  /-- The interpreter. -/
  interpreter : Interpreter σ
  /-- The lines of the script. -/
  cursor : Cursor
  /-- What has been read of a statement. -/
  scanner : Scanner := {}

/-- A step of an interpreter; a diagnostic keeps the state it arose in. -/
abbrev InterpretM (σ : Host) := EStateM Diagnostic (Interpreter σ)

/-- A step of reading one script. -/
abbrev ReadM (σ : Host) := EStateM Diagnostic (Reading σ)

namespace Interpreter

variable {σ : Host}

/-! ## Vocabulary -/

/-- **A fresh interpreter**, which knows the command that includes a script,
if the settings name it. -/
def new (settings : Settings) (files : FileTree) (host : σ.State) : Interpreter σ where
  settings
  files
  commands :=
    match settings.loadCommand with
    | none => {}
    | some name => CommandTable.register {} ⟨name, [], [Handler.loadSignature], Handler.load⟩
  store := { mark := settings.temporaryMark }
  mode := settings.initialMode
  host

/-- The interpreter with one more entry in its log. -/
def noted (i : Interpreter σ) (e : LogEntry) : Interpreter σ :=
  { i with log := i.log.push e }

/-- Writes an entry into the log. -/
def note (e : LogEntry) : InterpretM σ Unit :=
  modify (·.noted e)

/-- Names a type. -/
def registerType (name : String) (formats : List String) : InterpretM σ Unit := do
  let i ← get
  match i.types.register name formats with
  | .error d => throw d
  | .ok (types, overloads) =>
    note (.registeredType name overloads)
    modify fun i => { i with types }

/-- The overloads that the texts stand for; no text at all stands for one
without parameters. -/
def overloads (i : Interpreter σ) (name : String) (formats : List String) :
    Except Diagnostic (List Signature) :=
  if formats.isEmpty then .ok [{}]
  else do
    let signatures ← i.types.parseAll formats
    if signatures.isEmpty then .error ⟨.emptyRegistration name, none⟩ else .ok signatures

/-- Adds a command. -/
def registerCommand (name : String) (modes : List Int) (formats : List String)
    (handler : Handler σ) : InterpretM σ Unit := do
  let i ← get
  match i.overloads name formats with
  | .error d => throw d
  | .ok signatures =>
    note (.registeredCommand name signatures.length modes)
    modify fun i => { i with commands := i.commands.register ⟨name, modes, signatures, handler⟩ }

/-! ## Places -/

/-- **A diagnostic with its place in a script.** A fatal one has none. One
that is placed already comes from an included script and takes a frame. Any
other is placed where it says it arose, or else at the position given. -/
def locate (settings : Settings) (cursor : Cursor) (script : Script) (position : Position)
    (d : Diagnostic) : Diagnostic :=
  if d.isFatal then d
  else if d.isLocated then d.withFrame (script.path ++ ":" ++ position.text)
  else
    let c := d.context.getD {}
    let p := c.position?.getD position
    let c := Context.withPosition { c with source := some script.path } p
    match cursor.line? p.line with
    | some text => d.withContext (c.withLineText text settings.showCaret)
    | none => d.withContext c

/-- A step whose diagnostics are placed in the script. -/
def located {α : Type} (script : Script) (position : Position) (step : ReadM σ α) : ReadM σ α :=
  fun r =>
    match step r with
    | .ok a r => .ok a r
    | .error d r => .error (locate r.interpreter.settings r.cursor script position d) r

end Interpreter

end CommandScript
