import CommandScript.Log
import CommandScript.Script.FileTree

/-!
# Scripts being read

A script may include others, which are read in its midst. The scripts being
read form a stack; none may be on it twice, which keeps scripts from
including themselves. Scripts that have been read are remembered until the
next run.
-/

namespace CommandScript

/-- The scripts being read, and those that have been. -/
structure ScriptStack where
  /-- The scripts being read, outermost first. -/
  frames : List Script := []
  /-- The keys of the scripts that have been read. -/
  completed : List (Option Path.Location) := []
deriving DecidableEq

namespace ScriptStack

/-- Whether a script is being read. -/
def isLoading (s : ScriptStack) (script : Script) : Bool :=
  s.frames.any fun f => f.key == script.key

/-- Whether a script has been read. -/
def wasRead (s : ScriptStack) (script : Script) : Bool :=
  s.completed.contains script.key

/-- The scripts by which a script would include itself. -/
def cycle (s : ScriptStack) (script : Script) : List String :=
  ((s.frames.dropWhile fun f => f.key != script.key) ++ [script]).map Script.path

/-- **Begins to read a script**, which must not be on the stack. One that has
been read before is worth a note. -/
def start (s : ScriptStack) (script : Script) :
    Except Diagnostic (ScriptStack × List LogEntry) :=
  if s.isLoading script then .error ⟨.cyclicLoad (s.cycle script), none⟩
  else
    .ok ({ s with frames := s.frames ++ [script] },
      if s.wasRead script then [.rereading script.path] else [])

/-- The scripts without the last one of a key, if there is one. -/
def removeLast (key : Option Path.Location) (frames : List Script) : List Script :=
  (frames.reverse.eraseP fun f => f.key == key).reverse

/-- Ends the reading of a script, and remembers it. -/
def finish (s : ScriptStack) (script : Script) : ScriptStack where
  frames := removeLast script.key s.frames
  completed := if s.wasRead script then s.completed else script.key :: s.completed

/-- A script that has begun and ended leaves the stack as it was. -/
theorem frames_finish {s t : ScriptStack} {script : Script} {notes : List LogEntry}
    (h : s.start script = .ok (t, notes)) : (t.finish script).frames = s.frames := by
  unfold start at h
  split at h
  · cases h
  · cases h
    simp [finish, removeLast]

/-- Forgets which scripts have been read. -/
def clearCompleted (s : ScriptStack) : ScriptStack :=
  { s with completed := [] }

end ScriptStack

end CommandScript
