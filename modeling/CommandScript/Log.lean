import CommandScript.Diagnostic
import CommandScript.Signature
import CommandScript.Statement

/-!
# The log

What happens while scripts are read, apart from what the commands do. Each
entry has a level and one wording.
-/

namespace CommandScript

/-- How much an entry matters, least first. -/
inductive LogLevel where
  | trace
  | debug
  | warn
deriving DecidableEq, Inhabited

/-- Something that happened. -/
inductive LogEntry where
  /-- A script that was read before in the same run is read again. -/
  | rereading (path : String)
  | registeredType (name : String) (overloads : Nat)
  | registeredCommand (name : String) (overloads : Nat) (modes : List Int)
  | reading (path : String) (mode : Int)
  | finished (path : String)
  | aborted (path : String) (cause : Cause)
  /-- A statement is about to be resolved. -/
  | statement (path : String) (statement : Statement)
  /-- An overload accepts the arguments of a statement. -/
  | matched (command : String) (index : Nat) (signature : Signature)
deriving DecidableEq

namespace LogLevel

/-- The level in capitals. -/
def name : LogLevel → String
  | trace => "TRACE"
  | debug => "DEBUG"
  | warn => "WARN"

/-- The rank of a level. -/
def rank : LogLevel → Nat
  | trace => 0
  | debug => 1
  | warn => 2

end LogLevel

namespace LogEntry

/-- How much the entry matters. -/
def level : LogEntry → LogLevel
  | rereading _ => .warn
  | statement _ _ | matched _ _ _ => .trace
  | _ => .debug

/-- The wording of the entry. -/
def text : LogEntry → String
  | rereading path => path ++ " was already read earlier; reading it again"
  | registeredType name n => "registered type " ++ name ++ " with " ++ toString n ++ " overload(s)"
  | registeredCommand name n modes =>
    "registered command " ++ name ++ " with " ++ toString n ++ " overload(s), modes ["
      ++ ", ".intercalate (modes.map toString) ++ "]"
  | reading path mode => "reading " ++ path ++ " in mode " ++ toString mode
  | finished path => "finished " ++ path
  | aborted path cause => "aborted " ++ path ++ ": " ++ cause.message
  | statement path s =>
    path ++ ":" ++ s.position.text ++ " " ++ s.name ++ " " ++ s.arguments.render
  | matched command index signature =>
    command ++ ": matched overload " ++ toString index ++ " " ++ signature.render

/-- Whether a log that starts at a level keeps the entry. -/
def isKeptFrom (lowest : LogLevel) (e : LogEntry) : Bool :=
  lowest.rank ≤ e.level.rank

end LogEntry

end CommandScript
