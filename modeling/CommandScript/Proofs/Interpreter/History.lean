import CommandScript.Proofs.Interpreter.Points

/-!
# Scripts inside one another

A statement may include a script, whose statements run before it ends. The
history of a run lists all of it in order, at any depth: the scripts that are
put on the stack, and the statements that run with the calls they make. It
follows the run as `Entry.pushes` does, and the scripts in it are those
(`pushed_history`).
-/

namespace CommandScript

namespace Interpreter

variable {σ : Host} {load : Loader σ} {script : Script} {r t : Reading σ}

/-! ## Inclusion -/

/-- The state in which an included script is looked for: the temporary
resources are set aside unless they are shared. -/
def prepared (share : Bool) (i : Interpreter σ) : Interpreter σ :=
  { i with store := if share then i.store else i.store.takeTemporary.2 }

/-- The state behind an included script, given the one before it and the one
in which it ends. -/
def restored (share : Bool) (i j : Interpreter σ) : Interpreter σ :=
  { j with
    mode := i.mode
    store := if share then j.store else j.store.restoreTemporary i.store.takeTemporary.1 }

/-- **What including a script comes to.** -/
theorem loadFrom_eq (run : Script → String → InterpretM σ Unit) (includer : Script)
    (path : String) (share : Bool) (i : Interpreter σ) :
    loadFrom run includer path share i =
      match readFile run (Script.ofPath i.files (includer.resolve path)) (prepared share i) with
      | .ok () j => .ok () (restored share i j)
      | .error d j => .error d (restored share i j) := rfl

/-- What reading the file of a script comes to. -/
theorem readFile_eq (run : Script → String → InterpretM σ Unit) (script : Script)
    (i : Interpreter σ) :
    readFile run script i =
      within script (fun j =>
        match j.files.read script.path with
        | .error fault => .error ⟨.unreadable script.path fault, none⟩ j
        | .ok text => run script text j) i := by
  unfold readFile
  congr 1
  funext j
  rw [get_bind_eq]
  cases j.files.read script.path with
  | error fault => rfl
  | ok text => rfl

/-! ## Histories -/

/-- What happens in a run. -/
inductive Happening (σ : Host) where
  /-- A script has been put on the stack, which gives this state. -/
  | entered (script : Script) (state : Interpreter σ)
  /-- A statement of a script runs. It makes this call if it is one of a
  command. -/
  | called (script : Script) (statement : Statement) (call : Option Invocation)

/-- The script that is put on the stack. -/
def Happening.pushed? : Happening σ → Option Key
  | .entered script _ => some script.key
  | .called _ _ _ => none

/-- The call of a point, if there is a command for its statement. -/
def Point.call? (script : Script) (x : Point σ) : Option Invocation :=
  let i := (announced script x.statement x.reading).interpreter
  match i.commands.resolve x.statement.name x.statement.arguments i.mode with
  | .error _ => none
  | .ok call => some (invocation script x.statement i call)

/-- The history of a request, given that of the loader. -/
def Request.history (inner : String → Bool → Interpreter σ → List (Happening σ)) :
    Request σ → List (Happening σ)
  | .taken _ => []
  | .load path share before => inner path share before

/-- The history of points: each statement runs, and what it includes does. -/
def pointsHistory (load : Loader σ) (script : Script)
    (inner : String → Bool → Interpreter σ → List (Happening σ)) (xs : List (Point σ)) :
    List (Happening σ) :=
  xs.flatMap fun x =>
    .called script x.statement (x.call? script) ::
      (requests load script x.statement x.reading).flatMap (Request.history inner)

/-- The history of a step inside a script. There is none if the script is on
the stack. -/
def withinHistory (script : Script) (inner : Interpreter σ → List (Happening σ))
    (i : Interpreter σ) : List (Happening σ) :=
  match i.stack.start script with
  | .error _ => []
  | .ok (stack, notes) =>
    let entered := { i with stack, log := i.log ++ notes }
    .entered script entered :: inner entered

/-- The history of reading a file, given that of its text. -/
def fileHistory (inner : Script → String → Interpreter σ → List (Happening σ))
    (script : Script) : Interpreter σ → List (Happening σ) :=
  withinHistory script fun i =>
    match i.files.read script.path with
    | .error _ => []
    | .ok text => inner script text i

/-- The history of including a script in another. -/
def loadHistory (inner : Script → String → Interpreter σ → List (Happening σ))
    (includer : Script) (path : String) (share : Bool) (i : Interpreter σ) :
    List (Happening σ) :=
  fileHistory inner (Script.ofPath i.files (includer.resolve path)) (prepared share i)

/-- **The history of a script's text**, at any depth. -/
def scriptHistory : Nat → Script → String → Interpreter σ → List (Happening σ)
  | 0, _, _, _ => []
  | depth + 1, script, text, i =>
    let load := loadFrom (runScript depth) script
    pointsHistory load script (loadHistory (scriptHistory depth) script)
      (points load script (opening script text i))

/-- **The history of a run**, with at most so many scripts inside one
another. -/
def Entry.history (depth : Nat) (i : Interpreter σ) : Entry → List (Happening σ)
  | .file path mode =>
    fileHistory (scriptHistory depth) (Script.ofPath i.files path) (beginning mode i)
  | .source path text =>
    let script := Script.ofPath i.files path
    withinHistory script (scriptHistory depth script text) (beginning i.settings.initialMode i)
  | .sourceIn path text mode =>
    let script := Script.ofPath i.files path
    withinHistory script (scriptHistory depth script text) (beginning mode i)

/-! ## Scripts of a history -/

section Pushed

variable {pushes : String → Bool → Interpreter σ → List Key}

variable (load script pushes) in
/-- The scripts that points put on the stack. -/
def pointsPushes (xs : List (Point σ)) : List Key :=
  xs.flatMap fun x => (requests load script x.statement x.reading).flatMap (Request.pushes pushes)

variable (load script pushes) in
/-- The events on a line put scripts on the stack where its points do. -/
theorem pushes_lineEvents (text : String) (line : Nat) : ∀ (rounds start : Nat) (r : Reading σ),
    (lineEvents load script text line rounds start r).flatMap (Event.pushes pushes) =
      pointsPushes load script pushes (linePoints load script text line rounds start r) := by
  intro rounds
  induction rounds with
  | zero => exact fun _ _ => rfl
  | succ rounds ih =>
    intro start r
    rw [lineEvents, linePoints]
    cases Scanner.scan text line start r.scanner with
    | error e scanner => rfl
    | ok scan scanner =>
      cases scan with
      | endOfLine => rfl
      | statement s resume =>
        unfold pointsPushes at ih ⊢
        dsimp only
        rw [List.flatMap_cons, List.flatMap_cons]
        cases dispatch load script s { r with scanner } with
        | error d t => rfl
        | ok _ t =>
          dsimp only
          split
          · rw [ih resume t]
            rfl
          · rfl

/-- The events of lines put scripts on the stack where their points do. -/
theorem pushes_linesEvents : ∀ (left : Nat) (r : Reading σ),
    (linesEvents load script left r).flatMap (Event.pushes pushes) =
      pointsPushes load script pushes (linesPoints load script left r) := by
  intro left
  induction left with
  | zero => exact fun _ => rfl
  | succ left ih =>
    intro r
    rw [linesEvents, linesPoints]
    cases r.cursor.next with
    | mk text? cursor =>
      cases text? with
      | none => rfl
      | some text =>
        have hline := pushes_lineEvents load script pushes text cursor.number (text.length + 1) 0
          { r with cursor }
        unfold pointsPushes at ih hline ⊢
        dsimp only
        rw [List.flatMap_cons, List.flatMap_append, List.flatMap_append, hline]
        cases runLine load script text cursor.number (text.length + 1) 0 { r with cursor } with
        | error d t => rfl
        | ok _ t =>
          dsimp only
          rw [ih t]
          rfl

/-- **The events of a run put scripts on the stack where its points do.** -/
theorem pushes_events (r : Reading σ) :
    (events load script r).flatMap (Event.pushes pushes) =
      pointsPushes load script pushes (points load script r) := by
  unfold events points
  rw [List.flatMap_append, pushes_linesEvents]
  cases runLines load script r.cursor.lines.length r with
  | error d t => exact List.append_nil _
  | ok _ t =>
    have hend : (finishEvents t.scanner).flatMap (Event.pushes pushes) = [] := by
      unfold finishEvents
      split <;> rfl
    dsimp only
    rw [hend, List.append_nil]

/-- The scripts in the history of points, given those of the loader. -/
theorem pushed_pointsHistory {inner : String → Bool → Interpreter σ → List (Happening σ)}
    (hinner : ∀ path share i, (inner path share i).filterMap Happening.pushed? =
      pushes path share i) (xs : List (Point σ)) :
    (pointsHistory load script inner xs).filterMap Happening.pushed? =
      pointsPushes load script pushes xs := by
  have hrequests : ∀ rs : List (Request σ),
      (rs.flatMap (Request.history inner)).filterMap Happening.pushed? =
        rs.flatMap (Request.pushes pushes) := by
    intro rs
    rw [List.filterMap_flatMap]
    congr 1
    funext q
    cases q with
    | taken text => rfl
    | load path share before => exact hinner path share before
  unfold pointsHistory pointsPushes
  rw [List.filterMap_flatMap]
  congr 1
  funext x
  exact hrequests _

end Pushed

/-- The scripts in the history of a step inside a script. -/
theorem pushed_withinHistory {inner : Interpreter σ → List (Happening σ)}
    {pushes : Interpreter σ → List Key}
    (hinner : ∀ i, (inner i).filterMap Happening.pushed? = pushes i) (script : Script)
    (i : Interpreter σ) :
    (withinHistory script inner i).filterMap Happening.pushed? =
      withinPushes script pushes i := by
  unfold withinHistory withinPushes
  cases i.stack.start script with
  | error d => rfl
  | ok started =>
    exact congrArg (script.key :: ·) (hinner _)

section Text

variable {inner : Script → String → Interpreter σ → List (Happening σ)}
  {pushes : Script → String → Interpreter σ → List Key}
  (hinner : ∀ script text i, (inner script text i).filterMap Happening.pushed? =
    pushes script text i)

include hinner

theorem pushed_fileHistory (script : Script) (i : Interpreter σ) :
    (fileHistory inner script i).filterMap Happening.pushed? = filePushes pushes script i := by
  refine pushed_withinHistory (fun i => ?_) script i
  cases i.files.read script.path with
  | error fault => rfl
  | ok text => exact hinner script text i

theorem pushed_loadHistory (includer : Script) (path : String) (share : Bool)
    (i : Interpreter σ) :
    (loadHistory inner includer path share i).filterMap Happening.pushed? =
      loadPushes pushes includer path share i :=
  pushed_fileHistory hinner _ _

end Text

/-- The scripts in the history of a script's text. -/
theorem pushed_scriptHistory : ∀ (depth : Nat) (script : Script) (text : String)
    (i : Interpreter σ),
    (scriptHistory depth script text i).filterMap Happening.pushed? =
      scriptPushes depth script text i := by
  intro depth
  induction depth with
  | zero => exact fun _ _ _ => rfl
  | succ depth ih =>
    intro script text i
    rw [scriptHistory, scriptPushes, pushes_events]
    exact pushed_pointsHistory (pushed_loadHistory ih script) _

/-- **The scripts in the history of a run** are those it puts on the stack. -/
theorem pushed_history (entry : Entry) (i : Interpreter σ) :
    (entry.history i.maxDepth i).filterMap Happening.pushed? = entry.pushes i := by
  have hscript := pushed_scriptHistory (σ := σ) i.maxDepth
  cases entry with
  | file path mode => exact pushed_fileHistory hscript _ _
  | source path text => exact pushed_withinHistory (hscript _ text) _ _
  | sourceIn path text mode => exact pushed_withinHistory (hscript _ text) _ _

end Interpreter

end CommandScript
