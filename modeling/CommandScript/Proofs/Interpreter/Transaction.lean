import CommandScript.Proofs.Interpreter.Refinement

/-!
# Runs are all or nothing

A script is put on the stack before it is read and comes off however its
reading ends; in between, commands include other scripts, which do the same.
`Balanced` says what is left of it: the vocabulary and the scripts being read
are as before, and the scripts that have been read are those that were put on
the stack. It holds of the program of a handler if it holds of the loader, of
a line by its statements and of a script by its lines, and so of scripts
inside one another by induction on how deep they lie (`balanced_runScript`).
A run from outside adds that the mode is given back, and the resources too
where it ends with a diagnostic.
-/

namespace CommandScript

namespace Interpreter

variable {σ : Host} {load : Loader σ} {script : Script} {i j k : Interpreter σ}

/-- What tells scripts apart. -/
abbrev Key := Option Path.Location

/-! ## Scripts that are put on the stack -/

/-- The scripts that a request puts on the stack, given those of the loader. -/
def Request.pushes (pushes : String → Bool → Interpreter σ → List Key) : Request σ → List Key
  | .taken _ => []
  | .load path share before => pushes path share before

/-- The scripts that are put on the stack in an event. -/
def Event.pushes (pushes : String → Bool → Interpreter σ → List Key) : Event σ → List Key
  | .statement _ _ rs => rs.flatMap (Request.pushes pushes)
  | _ => []

/-- The scripts put on the stack by a step inside a script, and the script
itself. There are none if the script is on the stack. -/
def withinPushes (script : Script) (inner : Interpreter σ → List Key) (i : Interpreter σ) :
    List Key :=
  match i.stack.start script with
  | .error _ => []
  | .ok (stack, notes) => script.key :: inner { i with stack, log := i.log ++ notes }

/-- The scripts put on the stack by reading a file, given those of its text. -/
def filePushes (inner : Script → String → Interpreter σ → List Key) (script : Script) :
    Interpreter σ → List Key :=
  withinPushes script fun i =>
    match i.files.read script.path with
    | .error _ => []
    | .ok text => inner script text i

/-- The scripts put on the stack by including a script in another. -/
def loadPushes (inner : Script → String → Interpreter σ → List Key) (includer : Script)
    (path : String) (share : Bool) (i : Interpreter σ) : List Key :=
  filePushes inner (Script.ofPath i.files (includer.resolve path))
    { i with store := if share then i.store else i.store.takeTemporary.2 }

/-- The state in which the text of a script begins to be read. -/
def opening (script : Script) (text : String) (i : Interpreter σ) : Reading σ where
  interpreter := i.noted (.reading script.path i.mode)
  cursor := Cursor.ofText text

/-- A text is run from its opening, and the log says how it ends. -/
theorem runText_eq (text : String) (i : Interpreter σ) :
    runText load script text i =
      match runAll load script (opening script text i) with
      | .ok () r => .ok () (r.interpreter.noted (.finished script.path))
      | .error d r => .error d (r.interpreter.noted (.aborted script.path d.cause)) := rfl

/-- **The scripts put on the stack by a script's text**, at any depth. -/
def scriptPushes : Nat → Script → String → Interpreter σ → List Key
  | 0, _, _, _ => []
  | depth + 1, script, text, i =>
    (events (loadFrom (runScript depth) script) script (opening script text i)).flatMap
      (Event.pushes (loadPushes (scriptPushes depth) script))

/-! ## Balance -/

/-- **A step that is balanced**: it leaves the vocabulary and the scripts
being read as they are, and these scripts have been read when it ends. -/
structure Balanced (i : Interpreter σ) (ks : List Key) (j : Interpreter σ) : Prop where
  settings : j.settings = i.settings
  files : j.files = i.files
  types : j.types = i.types
  commands : j.commands = i.commands
  frames : j.stack.frames = i.stack.frames
  completed (key : Key) : key ∈ j.stack.completed ↔ key ∈ i.stack.completed ∨ key ∈ ks

variable {ks ls : List Key}

/-- What changes other things than these is balanced. -/
theorem balanced_quiet (i : Interpreter σ) (mode : Int) (store : ResourceStore σ.resources)
    (host : σ.State) (log : Array LogEntry) : Balanced i [] { i with mode, store, host, log } := by
  refine ⟨rfl, rfl, rfl, rfl, rfl, fun key => ?_⟩
  rw [or_iff_left List.not_mem_nil]

theorem Balanced.refl (i : Interpreter σ) : Balanced i [] i :=
  balanced_quiet i i.mode i.store i.host i.log

theorem Balanced.trans (h : Balanced i ks j) (h' : Balanced j ls k) :
    Balanced i (ks ++ ls) k where
  settings := h'.settings.trans h.settings
  files := h'.files.trans h.files
  types := h'.types.trans h.types
  commands := h'.commands.trans h.commands
  frames := h'.frames.trans h.frames
  completed key := by
    rw [h'.completed, h.completed, List.mem_append, or_assoc]

/-- A balanced step, and what changes other things behind it. -/
theorem Balanced.quiet (h : Balanced i ks j) (mode : Int) (store : ResourceStore σ.resources)
    (host : σ.State) (log : Array LogEntry) : Balanced i ks { j with mode, store, host, log } := by
  have h' := h.trans (balanced_quiet j mode store host log)
  rw [List.append_nil] at h'
  exact h'

/-- Writing into the log is balanced. -/
theorem balanced_noted (i : Interpreter σ) (e : LogEntry) : Balanced i [] (i.noted e) :=
  balanced_quiet i i.mode i.store i.host (i.log.push e)

theorem Balanced.noted (h : Balanced i ks j) (e : LogEntry) : Balanced i ks (j.noted e) :=
  h.quiet j.mode j.store j.host (j.log.push e)

/-! ## Statements -/

section Loader

variable {pushes : String → Bool → Interpreter σ → List Key}

theorem pushes_map_taken (lines : List String) :
    (lines.map Request.taken).flatMap (Request.pushes pushes) = [] := by
  refine List.flatMap_eq_nil_iff.2 fun q hq => ?_
  obtain ⟨l, -, rfl⟩ := List.mem_map.1 hq
  rfl

variable (hload : ∀ path share i, Balanced i (pushes path share i) (last (load path share i)))

include hload

/-- **A program is balanced** if including scripts is. -/
theorem balanced_runProgram (call : Invocation) (p : Program σ) : ∀ {r : Reading σ},
    Balanced r.interpreter ((programRequests load call p r).flatMap (Request.pushes pushes))
      (last (runProgram load call p r)).interpreter := by
  induction p with
  | finish outcome =>
    intro r
    cases outcome with
    | error d => exact .refl _
    | ok _ => exact .refl _
  | getMode next ih => exact ih _
  | setMode mode next ih =>
    intro r
    have hfirst := balanced_quiet r.interpreter mode r.interpreter.store r.interpreter.host
      r.interpreter.log
    exact hfirst.trans (ih (r := { r with interpreter := { r.interpreter with mode } }))
  | getStore next ih => exact ih _
  | setStore store next ih =>
    intro r
    have hfirst := balanced_quiet r.interpreter r.interpreter.mode store r.interpreter.host
      r.interpreter.log
    exact hfirst.trans (ih (r := { r with interpreter := { r.interpreter with store } }))
  | getHost next ih => exact ih _
  | setHost host next ih =>
    intro r
    have hfirst := balanced_quiet r.interpreter r.interpreter.mode r.interpreter.store host
      r.interpreter.log
    exact hfirst.trans (ih (r := { r with interpreter := { r.interpreter with host } }))
  | nextLine next ih =>
    intro r
    rw [programRequests, List.flatMap_append, pushes_map_taken, List.nil_append]
    exact ih r.cursor.next.1 (r := { r with cursor := r.cursor.next.2 })
  | takeBlock next ih =>
    intro r
    let terminator := r.interpreter.settings.blockTerminator
    rw [programRequests]
    simp only [List.flatMap_append, pushes_map_taken, List.nil_append]
    exact ih _ (r := { r with cursor := (r.cursor.takeBlock terminator).2 })
  | load path share next ih =>
    intro r
    have hfirst := hload path share r.interpreter
    rw [programRequests, runProgram_load, List.flatMap_cons]
    cases hl : load path share r.interpreter with
    | ok _ i =>
      rw [hl] at hfirst
      exact hfirst.trans (ih (.ok ()) (r := { r with interpreter := i }))
    | error d i =>
      rw [hl] at hfirst
      exact hfirst.trans (ih (.error d) (r := { r with interpreter := i }))

variable (script)

/-- A statement is balanced. -/
theorem balanced_dispatch (s : Statement) (r : Reading σ) :
    Balanced r.interpreter ((requests load script s r).flatMap (Request.pushes pushes))
      (last (dispatch load script s r)).interpreter := by
  have hfirst := balanced_noted r.interpreter (.statement script.path s)
  rw [dispatch_eq, requests]
  cases (announced script s r).interpreter.commands.resolve s.name s.arguments
    (announced script s r).interpreter.mode with
  | error d => exact hfirst
  | ok call =>
    let i := (announced script s r).interpreter
    have hsecond := hfirst.trans
      (balanced_noted i (.matched s.name call.index call.signature))
    have hprogram := balanced_runProgram hload (invocation script s i call)
      (call.handler (invocation script s i call))
      (r := { r with interpreter := i.noted (.matched s.name call.index call.signature) })
    exact hsecond.trans hprogram

/-! ## Scripts -/

/-- **A line is balanced**, as its statements are. -/
theorem balanced_runLine (text : String) (line : Nat) : ∀ (rounds start : Nat) (r : Reading σ),
    Balanced r.interpreter
      ((lineEvents load script text line rounds start r).flatMap (Event.pushes pushes))
      (last (runLine load script text line rounds start r)).interpreter := by
  intro rounds
  induction rounds with
  | zero => exact fun _ r => .refl r.interpreter
  | succ rounds ih =>
    intro start r
    rw [runLine_eq, lineEvents]
    cases Scanner.scan text line start r.scanner with
    | error e scanner => exact .refl r.interpreter
    | ok scan scanner =>
      cases scan with
      | endOfLine => exact .refl r.interpreter
      | statement s resume =>
        have hfirst := balanced_dispatch script hload s { r with scanner }
        dsimp only
        rw [List.flatMap_cons]
        cases hd : dispatch load script s { r with scanner } with
        | error d t =>
          rw [hd] at hfirst
          dsimp only
          rw [List.flatMap_nil, List.append_nil]
          exact hfirst
        | ok _ t =>
          rw [hd] at hfirst
          dsimp only
          refine hfirst.trans ?_
          -- if the command took lines, the rest of this one is skipped
          split
          · exact ih resume t
          · exact .refl t.interpreter

/-- **Lines are balanced.** -/
theorem balanced_runLines : ∀ (left : Nat) (r : Reading σ),
    Balanced r.interpreter ((linesEvents load script left r).flatMap (Event.pushes pushes))
      (last (runLines load script left r)).interpreter := by
  intro left
  induction left with
  | zero => exact fun r => .refl r.interpreter
  | succ left ih =>
    intro r
    rw [runLines_eq, linesEvents]
    cases r.cursor.next with
    | mk text? cursor =>
      cases text? with
      | none => exact .refl r.interpreter
      | some text =>
        have hfirst := balanced_runLine script hload text cursor.number
          (text.length + 1) 0 { r with cursor }
        dsimp only
        rw [List.flatMap_cons, List.flatMap_append]
        cases hrun : runLine load script text cursor.number (text.length + 1) 0
          { r with cursor } with
        | error d t =>
          rw [hrun] at hfirst
          dsimp only
          rw [List.flatMap_nil, List.append_nil]
          exact hfirst
        | ok _ t =>
          rw [hrun] at hfirst
          exact hfirst.trans (ih t)

/-- A script is balanced: its end runs nothing. -/
theorem balanced_runAll (r : Reading σ) :
    Balanced r.interpreter ((events load script r).flatMap (Event.pushes pushes))
      (last (runAll load script r)).interpreter := by
  have hlines := balanced_runLines script hload r.cursor.lines.length r
  rw [runAll_eq, events, List.flatMap_append]
  cases hrun : runLines load script r.cursor.lines.length r with
  | error d t =>
    rw [hrun] at hlines
    dsimp only
    rw [List.flatMap_nil, List.append_nil]
    exact hlines
  | ok _ t =>
    rw [hrun] at hlines
    dsimp only
    refine hlines.trans ?_
    rw [located_eq, scanning_eq, finishEvents]
    cases Scanner.finish t.scanner with
    | error e scanner => exact .refl t.interpreter
    | ok _ scanner => exact .refl t.interpreter

/-- **The text of a script is balanced.** -/
theorem balanced_runText (text : String) (i : Interpreter σ) :
    Balanced i ((events load script (opening script text i)).flatMap (Event.pushes pushes))
      (last (runText load script text i)) := by
  have hopening := balanced_noted i (.reading script.path i.mode)
  have hall := hopening.trans (balanced_runAll script hload (opening script text i))
  rw [runText_eq]
  cases hout : runAll load script (opening script text i) with
  | ok _ r =>
    rw [hout] at hall
    exact hall.noted (.finished script.path)
  | error d r =>
    rw [hout] at hall
    exact hall.noted (.aborted script.path d.cause)

end Loader

/-- What has been read, once the reading of a script ends. -/
theorem mem_completed_finish (s : ScriptStack) (script : Script) (key : Key) :
    key ∈ (s.finish script).completed ↔ key = script.key ∨ key ∈ s.completed := by
  unfold ScriptStack.finish ScriptStack.wasRead
  dsimp only
  split
  · rename_i hread
    rw [List.contains_iff_mem] at hread
    constructor
    · exact .inr
    · rintro (rfl | h)
      · exact hread
      · exact h
  · exact List.mem_cons

/-- Nothing has been read by putting a script on the stack. -/
theorem completed_start {s t : ScriptStack} {notes : List LogEntry}
    (h : s.start script = .ok (t, notes)) : t.completed = s.completed := by
  unfold ScriptStack.start at h
  split at h
  · cases h
  · cases h
    rfl

/-- A script put on the stack comes off behind a balanced step, and it has
been read. -/
theorem Balanced.finish {stack : ScriptStack} {notes : List LogEntry}
    (hstart : i.stack.start script = .ok (stack, notes))
    (h : Balanced { i with stack, log := i.log ++ notes } ks j) :
    Balanced i (script.key :: ks) { j with stack := j.stack.finish script } where
  settings := h.settings
  files := h.files
  types := h.types
  commands := h.commands
  frames := by
    -- only the frames of the stack decide which frames are left
    have hframes : (j.stack.finish script).frames = (stack.finish script).frames :=
      congrArg (ScriptStack.removeLast script.key) h.frames
    rw [hframes, ScriptStack.frames_finish hstart]
  completed key := by
    have hcompleted := h.completed key
    rw [completed_start hstart] at hcompleted
    rw [mem_completed_finish, hcompleted, List.mem_cons]
    constructor
    · rintro (h | h | h)
      · exact .inr (.inl h)
      · exact .inl h
      · exact .inr (.inr h)
    · rintro (h | h | h)
      · exact .inr (.inl h)
      · exact .inl h
      · exact .inr (.inr h)

/-- **A step inside a script is balanced**: the script comes off the stack
however the step ends. -/
theorem balanced_within {step : InterpretM σ Unit} {inner : Interpreter σ → List Key}
    (hstep : ∀ i, Balanced i (inner i) (last (step i))) (i : Interpreter σ) :
    Balanced i (withinPushes script inner i) (last (within script step i)) := by
  unfold within withinPushes
  cases hstart : i.stack.start script with
  | error d => exact .refl i
  | ok started =>
    obtain ⟨stack, notes⟩ := started
    have hinner := (hstep { i with stack, log := i.log ++ notes }).finish hstart
    dsimp only
    cases hout : step { i with stack, log := i.log ++ notes } with
    | ok _ j =>
      rw [hout] at hinner
      exact hinner
    | error d j =>
      rw [hout] at hinner
      exact hinner

section Text

variable {run : Script → String → InterpretM σ Unit}
  {inner : Script → String → Interpreter σ → List Key}
  (hrun : ∀ script text i, Balanced i (inner script text i) (last (run script text i)))

include hrun

/-- Reading a file is balanced, if running texts is. -/
theorem balanced_readFile (script : Script) (i : Interpreter σ) :
    Balanced i (filePushes inner script i) (last (readFile run script i)) := by
  refine balanced_within (fun i => ?_) i
  rw [get_bind_eq]
  cases i.files.read script.path with
  | error fault => exact .refl i
  | ok text => exact hrun script text i

/-- Including a script is balanced, if running texts is. -/
theorem balanced_loadFrom (includer : Script) (path : String) (share : Bool)
    (i : Interpreter σ) :
    Balanced i (loadPushes inner includer path share i)
      (last (loadFrom run includer path share i)) := by
  let emptied : Interpreter σ :=
    { i with store := if share then i.store else i.store.takeTemporary.2 }
  have hemptied := balanced_quiet i i.mode emptied.store i.host i.log
  have hfile := hemptied.trans
    (balanced_readFile hrun (Script.ofPath i.files (includer.resolve path)) emptied)
  unfold loadFrom
  dsimp only
  cases hout : readFile run (Script.ofPath i.files (includer.resolve path)) emptied with
  | ok _ j =>
    rw [hout] at hfile
    exact hfile.quiet i.mode _ j.host j.log
  | error d j =>
    rw [hout] at hfile
    exact hfile.quiet i.mode _ j.host j.log

end Text

/-- **Scripts inside one another are balanced**, however deep they lie. -/
theorem balanced_runScript : ∀ (depth : Nat) (script : Script) (text : String)
    (i : Interpreter σ),
    Balanced i (scriptPushes depth script text i) (last (runScript depth script text i)) := by
  intro depth
  induction depth with
  | zero => exact fun _ _ i => .refl i
  | succ depth ih =>
    intro script text i
    -- the loader of a script runs the included ones one level further down
    rw [scriptPushes, runScript]
    exact balanced_runText script (balanced_loadFrom ih script) text i

/-! ## Runs from outside -/

/-- A run from outside. -/
inductive Entry where
  /-- Reads a script file, in a mode. -/
  | file (path : String) (mode : Int)
  /-- Runs a text, in the mode of the settings. -/
  | source (path text : String)
  /-- Runs a text, in a mode. -/
  | sourceIn (path text : String) (mode : Int)

/-- The run. -/
def Entry.run : Entry → InterpretM σ Unit
  | .file path mode => runFile path mode
  | .source path text => fun i => runSource path text i.settings.initialMode i
  | .sourceIn path text mode => runSource path text mode

/-- The mode of a run. -/
def Entry.mode (settings : Settings) : Entry → Int
  | .file _ mode => mode
  | .source _ _ => settings.initialMode
  | .sourceIn _ _ mode => mode

/-- The state in which a run begins: what was read before is forgotten. -/
def beginning (mode : Int) (i : Interpreter σ) : Interpreter σ :=
  { i with stack := i.stack.clearCompleted, mode }

/-- What a run does within its transaction. -/
def Entry.body (i : Interpreter σ) : Entry → InterpretM σ Unit
  | .file path _ => readFile (runScript i.maxDepth) (Script.ofPath i.files path)
  | .source path text | .sourceIn path text _ =>
    within (Script.ofPath i.files path) (runScript i.maxDepth (Script.ofPath i.files path) text)

/-- **The scripts that a run puts on the stack**, at any depth. -/
def Entry.pushes (i : Interpreter σ) (entry : Entry) : List Key :=
  let start := beginning (entry.mode i.settings) i
  match entry with
  | .file path _ => filePushes (scriptPushes i.maxDepth) (Script.ofPath i.files path) start
  | .source path text | .sourceIn path text _ =>
    withinPushes (Script.ofPath i.files path)
      (scriptPushes i.maxDepth (Script.ofPath i.files path) text) start

/-- **What is given back at the end of a run.** -/
theorem Entry.run_eq (entry : Entry) (i : Interpreter σ) :
    (entry.run : InterpretM σ Unit) i =
      match entry.body i (beginning (entry.mode i.settings) i) with
      | .ok () j => .ok () { j with mode := i.mode }
      | .error d j => .error d { j with mode := i.mode, store := i.store } := by
  cases entry with
  | file path mode => rfl
  | source path text => rfl
  | sourceIn path text mode => rfl

/-- The transaction of a run is balanced. -/
theorem Entry.balanced_body (entry : Entry) (i : Interpreter σ) :
    Balanced (beginning (entry.mode i.settings) i) (entry.pushes i)
      (last (entry.body i (beginning (entry.mode i.settings) i))) := by
  have hscript := balanced_runScript (σ := σ) i.maxDepth
  cases entry with
  | file path mode => exact balanced_readFile hscript _ _
  | source path text => exact balanced_within (hscript _ text) _
  | sourceIn path text mode => exact balanced_within (hscript _ text) _

/-- **A run from outside is all or nothing.** Whatever its scripts do, and
however deep they lie, with no script on the stack before there is none
afterwards; the mode, the settings, the files and the vocabulary are as
before; the scripts that have been read are those put on the stack in this
run; and if it ends with a diagnostic the resources are as before. -/
theorem Entry.run_restores (entry : Entry) {i : Interpreter σ} (hi : i.stack.frames = []) :
    let out := (entry.run : InterpretM σ Unit) i
    let j := last out
    j.mode = i.mode ∧ j.stack.frames = [] ∧
      j.settings = i.settings ∧ j.files = i.files ∧ j.types = i.types ∧ j.commands = i.commands ∧
      (∀ s : Script, j.stack.wasRead s = true ↔ s.key ∈ entry.pushes i) ∧
      ∀ d, out = .error d j → j.store = i.store := by
  have hbody := entry.balanced_body i
  have hread {k : Interpreter σ} (hk : Balanced (beginning (entry.mode i.settings) i)
      (entry.pushes i) k) (s : Script) :
      k.stack.wasRead s = true ↔ s.key ∈ entry.pushes i := by
    unfold ScriptStack.wasRead
    rw [List.contains_iff_mem, hk.completed]
    exact or_iff_right List.not_mem_nil
  rw [entry.run_eq]
  cases hend : entry.body i (beginning (entry.mode i.settings) i) with
  | ok _ k =>
    rw [hend] at hbody
    have hwas := hread (k := k) hbody
    refine ⟨rfl, hbody.frames.trans hi, hbody.settings, hbody.files, hbody.types, hbody.commands,
      hwas, fun d hd => ?_⟩
    cases hd
  | error d k =>
    rw [hend] at hbody
    have hwas := hread (k := k) hbody
    exact ⟨rfl, hbody.frames.trans hi, hbody.settings, hbody.files, hbody.types, hbody.commands,
      hwas, fun _ _ => rfl⟩

/-- An interpreter that has read a script, with a file that includes itself. -/
def includer : Interpreter Routine.Journal :=
  { Interpreter.new (σ := Routine.Journal) {}
      { workingDirectory := [], files := [(["main"], "LOAD part;".toUTF8),
        (["part"], "LOAD main;".toUTF8)] } {} with
    mode := 3
    stack := { completed := [some ["old"]] } }

/-- Two scripts are put on the stack, and the third time fails. -/
theorem Entry.run_restores_includer :
    ∃ d j, (Entry.file "/main" 7).run includer = .error d j ∧
      j.mode = 3 ∧ j.stack.frames = [] ∧
      ∀ s : Script, j.stack.wasRead s = true ↔ s.key ∈ [some ["main"], some ["part"]] := by
  have hpushes : (Entry.file "/main" 7).pushes includer = [some ["main"], some ["part"]] := by
    decide +kernel
  have hfails : (match (Entry.file "/main" 7).run includer with
      | .ok () _ => false
      | .error _ _ => true) = true := by decide +kernel
  have hrestores := Entry.run_restores (.file "/main" 7) (i := includer) rfl
  rw [hpushes] at hrestores
  -- the run itself is not to be unfolded
  revert hfails hrestores
  generalize (Entry.file "/main" 7).run includer = out
  intro hfails hrestores
  obtain ⟨hmode, hframes, -, -, -, -, hread, -⟩ := hrestores
  cases out with
  | ok _ j => cases hfails
  | error d j => exact ⟨d, j, rfl, hmode, hframes, hread⟩

end Interpreter

end CommandScript
