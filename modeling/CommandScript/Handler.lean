import CommandScript.Diagnostic
import CommandScript.Settings
import CommandScript.Signature
import CommandScript.Store
import CommandScript.Value

/-!
# Handlers

A handler runs a command. It is given the call and answers with a program: a
finite tree of requests to the interpreter, each going on with what was
answered. A handler can read and change the mode, the resources and a state
that the host keeps, take lines of the script it stands in, and include
another script. A diagnostic from an included script comes back to the
program, which may pass it on, put another in its place or go on.
-/

namespace CommandScript

/-- **What an interpreter works for**, besides its scripts. -/
structure Host where
  /-- What it keeps for its handlers. -/
  State : Type
  /-- The resources it may have. -/
  resources : ResourceUniverse

/-- What a handler is given. -/
structure Invocation where
  /-- The command word as written. -/
  command : String
  /-- Where the command word starts. -/
  position : Position
  /-- The path of the script. -/
  file : String
  /-- The arguments, one for each parameter. -/
  arguments : Value
  /-- The settings of the interpreter. -/
  settings : Settings

/-- What a handler of a host does. -/
inductive Program (σ : Host) where
  /-- Ends the command, with a diagnostic or without. -/
  | finish (outcome : Except Diagnostic Unit)
  /-- Asks for the mode. -/
  | getMode (next : Int → Program σ)
  /-- Sets the mode of the statements that follow. -/
  | setMode (mode : Int) (next : Program σ)
  /-- Asks for the resources. -/
  | getStore (next : ResourceStore σ.resources → Program σ)
  /-- Puts other resources in their place. -/
  | setStore (store : ResourceStore σ.resources) (next : Program σ)
  /-- Asks for the state of the host. -/
  | getHost (next : σ.State → Program σ)
  /-- Sets the state of the host. -/
  | setHost (host : σ.State) (next : Program σ)
  /-- Takes the next line of the script. -/
  | nextLine (next : Option String → Program σ)
  /-- Takes the lines up to the block terminator. -/
  | takeBlock (next : Except Diagnostic (List String) → Program σ)
  /-- Includes the script that a path means here, with the temporary
  resources shared or set aside. -/
  | load (path : String) (share : Bool) (next : Except Diagnostic Unit → Program σ)

/-- What runs a command. -/
abbrev Handler (σ : Host) := Invocation → Program σ

namespace Program

variable {σ : Host}

/-- Does nothing. -/
def done : Program σ :=
  finish (.ok ())

/-- Ends the command with a diagnostic. -/
def fail (d : Diagnostic) : Program σ :=
  finish (.error d)

/-- **A program and what follows its end**, whichever end that is. -/
def followedBy (p : Program σ) (next : Except Diagnostic Unit → Program σ) : Program σ :=
  match p with
  | finish outcome => next outcome
  | getMode k => getMode fun m => (k m).followedBy next
  | setMode m k => setMode m (k.followedBy next)
  | getStore k => getStore fun s => (k s).followedBy next
  | setStore s k => setStore s (k.followedBy next)
  | getHost k => getHost fun h => (k h).followedBy next
  | setHost h k => setHost h (k.followedBy next)
  | nextLine k => nextLine fun l => (k l).followedBy next
  | takeBlock k => takeBlock fun b => (k b).followedBy next
  | load path share k => load path share fun r => (k r).followedBy next

theorem followedBy_finish (p : Program σ) : p.followedBy finish = p := by
  induction p <;> simp_all [followedBy]

theorem followedBy_followedBy (p : Program σ) (k l : Except Diagnostic Unit → Program σ) :
    (p.followedBy k).followedBy l = p.followedBy fun r => (k r).followedBy l := by
  induction p <;> simp_all [followedBy]

/-- A program, and another one unless the first ends with a diagnostic. -/
def andThen (p q : Program σ) : Program σ :=
  p.followedBy fun
    | .ok () => q
    | .error d => fail d

/-- Changes the state of the host. -/
def modifyHost (f : σ.State → σ.State) (next : Program σ) : Program σ :=
  getHost fun h => setHost (f h) next

end Program

namespace Handler

/-- **The handler that includes a script**: its first parameter is the path,
its second says whether the temporary resources are shared. -/
def load {σ : Host} : Handler σ := fun call =>
  match (call.arguments.named? "path").bind Value.text? with
  | none => .fail ⟨.rejected "LOAD needs a script path", none⟩
  | some path =>
    let share := ((call.arguments.named? "share_temporary").bind Value.bool?).getD false
    .load path share .finish

/-- The parameters of that handler. -/
def loadSignature : Signature :=
  { params :=
    [.scalar { name := "path" } .string,
     .scalar
      { name := "share_temporary"
        default := some ((Value.word "false").rename (some "share_temporary")) } .bool] }

end Handler

end CommandScript
