import CommandScript.Proofs.Interpreter.History
import CommandScript.Proofs.Interpreter.Places

/-!
# Where a diagnostic points

A diagnostic arises in one script, at a fault of the scanner or at a statement,
and travels outwards through the statements that include the script
(`Raises`). The script where it arises places it, once, and each of the others
adds a frame; a fatal one stays as it is (`Reported`). A run from outside
gives it to the host as it left the outermost script (`Entry.run_reports`).
-/

namespace CommandScript

namespace Interpreter

variable {σ : Host} {load : Loader σ} {script : Script} {text : String} {i j : Interpreter σ}

/-! ## Where it arises -/

/-- What a script stops at. -/
inductive Stop where
  /-- A fault of the scanner, be it at the end of the script. -/
  | fault (error : ScanError)
  /-- A statement for which there is no command, or whose command fails. -/
  | statement (statement : Statement) (diagnostic : Diagnostic)

namespace Stop

/-- The diagnostic as it arises. -/
def diagnostic : Stop → Diagnostic
  | fault e => e.diagnostic
  | statement _ d => d

/-- Where it arises. -/
def position : Stop → Position
  | fault e => e.position
  | statement s _ => s.position

/-- **What stands there**: the offending character or token, or the command
word of the statement. -/
def At (ls : List String) : Stop → Prop
  | fault e => e.fault.At ls e.position
  | statement s _ => WrittenAt ls s.position s.name

/-- Whatever stands there, it begins with a character. -/
theorem At.exists_char {ls : List String} {stop : Stop} (h : stop.At ls) :
    ∃ c, Shows ls stop.position [c] := by
  cases stop with
  | fault e => exact ScanFault.At.exists_char h
  | statement s d => exact WrittenAt.exists_char h

end Stop

/-- The script in which a diagnostic arises. -/
structure Origin where
  /-- The script. -/
  script : Script
  /-- Its text. -/
  text : String
  /-- What it stops at. -/
  stop : Stop

/-- A script that includes another, and the statement by which it does. -/
structure Includer where
  /-- The script. -/
  script : Script
  /-- Its text. -/
  text : String
  /-- The statement. -/
  statement : Statement

/-- The includer as diagnostics list it. -/
def Includer.frame (f : Includer) : String :=
  f.script.path ++ ":" ++ f.statement.position.text

/-- A script begins, which leads from one state to another. -/
def Enters (script : Script) (i j : Interpreter σ) : Prop :=
  ∃ stack notes, i.stack.start script = .ok (stack, notes) ∧
    j = { i with stack, log := i.log ++ notes }

/-- **Where a diagnostic arises in a script's text, and through which
statements it comes out**, the innermost first. -/
inductive Raises : Nat → Script → String → Interpreter σ → Origin → List Includer → Prop
  /-- The scanner stops at a fault. -/
  | fault {depth : Nat} {script : Script} {text : String} {i : Interpreter σ} {e : ScanError} :
      .fault e ∈ events (loadFrom (runScript depth) script) script (opening script text i) →
      Raises (depth + 1) script text i ⟨script, text, .fault e⟩ []
  /-- There is no command for a statement. -/
  | unresolved {depth : Nat} {script : Script} {text : String} {i : Interpreter σ} {x : Point σ}
      {d : Diagnostic} :
      x ∈ points (loadFrom (runScript depth) script) script (opening script text i) →
      x.reading.interpreter.commands.resolve x.statement.name x.statement.arguments
        x.reading.interpreter.mode = .error d →
      Raises (depth + 1) script text i ⟨script, text, .statement x.statement d⟩ []
  /-- A statement ends with a diagnostic that has no place. Where it is fatal
  it may have one. -/
  | failed {depth : Nat} {script : Script} {text : String} {i : Interpreter σ} {x : Point σ}
      {d : Diagnostic} {t : Reading σ} :
      x ∈ points (loadFrom (runScript depth) script) script (opening script text i) →
      dispatch (loadFrom (runScript depth) script) script x.statement x.reading = .error d t →
      (d.isFatal = false → d.context = none) →
      Raises (depth + 1) script text i ⟨script, text, .statement x.statement d⟩ []
  /-- A statement includes a script in which the diagnostic arises, and ends
  with what the inclusion ends with. -/
  | included {depth : Nat} {script child : Script} {text inner : String}
      {i before after j : Interpreter σ} {x : Point σ} {path : String} {share : Bool}
      {d : Diagnostic} {t : Reading σ} {origin : Origin} {includers : List Includer} :
      x ∈ points (loadFrom (runScript depth) script) script (opening script text i) →
      .load path share before ∈
        requests (loadFrom (runScript depth) script) script x.statement x.reading →
      loadFrom (runScript depth) script path share before = .error d j →
      dispatch (loadFrom (runScript depth) script) script x.statement x.reading = .error d t →
      child = Script.ofPath before.files (script.resolve path) →
      Enters child (prepared share before) after →
      before.files.read child.path = .ok inner →
      Raises depth child inner after origin includers →
      Raises (depth + 1) script text i origin (includers ++ [⟨script, text, x.statement⟩])

/-! ## How it travels -/

/-- **A diagnostic as it leaves a script**: of the same cause, fatal and as it
arose, or with its place and a frame for each includer. -/
structure Reported (caret : Bool) (origin : Origin) (includers : List Includer) (d : Diagnostic) :
    Prop where
  /-- What went wrong stays. -/
  cause : d.cause = origin.stop.diagnostic.cause
  /-- A fatal diagnostic stays as it is. -/
  fatal : d.isFatal = true → d = origin.stop.diagnostic
  /-- Any other has the place where it arose, with its line, and the includers
  on the way. -/
  placed : d.isFatal = false → ∃ line,
    (Text.lines origin.text)[origin.stop.position.line - 1]? = some line ∧
      d.context = some
        { source := some origin.script.path
          line := some origin.stop.position.line
          column := some origin.stop.position.column
          lineText := some line
          caret
          frames := includers.map Includer.frame }

variable {settings : Settings} {cursor : Cursor} {p q : Position} {d : Diagnostic}
  {origin : Origin} {includers : List Includer}

theorem locate_of_isFatal (h : d.isFatal = true) : locate settings cursor script p d = d := by
  unfold locate
  rw [if_pos h]

/-- **A diagnostic that arises is placed**, where it says or else at the
statement. -/
theorem reported_of_new (stop : Stop) {c : Char}
    (hlines : cursor.lines = Text.lines text)
    (hcontext : stop.diagnostic.isFatal = false →
      stop.diagnostic.context = none ∧ q = stop.position ∨
        stop.diagnostic.context = some (Context.withPosition {} stop.position))
    (hchar : Shows (Text.lines text) stop.position [c]) :
    Reported settings.showCaret ⟨script, text, stop⟩ []
      (locate settings cursor script q stop.diagnostic) := by
  cases hfatal : stop.diagnostic.isFatal with
  | true =>
    rw [locate_of_isFatal hfatal]
    exact ⟨rfl, fun _ => rfl, fun hno => by rw [hfatal] at hno; cases hno⟩
  | false =>
    obtain ⟨hpos, -, line, hget, -⟩ := hchar
    have hline : cursor.line? stop.position.line = some line := by
      unfold Cursor.line?
      rw [if_neg (Nat.pos_iff_ne_zero.1 hpos), hlines]
      exact hget
    have hlocate : locate settings cursor script q stop.diagnostic =
        stop.diagnostic.withContext
          { source := some script.path
            line := some stop.position.line
            column := some stop.position.column
            lineText := some line
            caret := settings.showCaret } := by
      unfold locate
      rw [if_neg (by rw [hfatal]; simp)]
      rcases hcontext hfatal with ⟨hnone, rfl⟩ | hsome
      · have hnew : stop.diagnostic.isLocated = false := by
          unfold Diagnostic.isLocated
          rw [hnone]
          rfl
        rw [if_neg (by rw [hnew]; simp), hnone]
        dsimp only [Option.getD_none, Context.position?]
        rw [hline]
        rfl
      · have hnew : stop.diagnostic.isLocated = false := by
          unfold Diagnostic.isLocated
          rw [hsome]
          rfl
        rw [if_neg (by rw [hnew]; simp), hsome]
        dsimp only [Option.getD_some, Context.position?, Context.withPosition]
        rw [hline]
        rfl
    rw [hlocate]
    refine ⟨rfl, fun hyes => ?_, fun _ => ⟨line, hget, rfl⟩⟩
    exact absurd (hfatal.symm.trans hyes) (by simp)

/-- **A diagnostic that comes from an included script takes a frame**, unless
it is fatal. -/
theorem Reported.locate {caret : Bool} {s : Statement} (h : Reported caret origin includers d) :
    Reported caret origin (includers ++ [⟨script, text, s⟩])
      (Interpreter.locate settings cursor script s.position d) := by
  cases hfatal : d.isFatal with
  | true =>
    rw [locate_of_isFatal hfatal]
    exact ⟨h.cause, h.fatal, fun hno => by rw [hfatal] at hno; cases hno⟩
  | false =>
    obtain ⟨line, hget, hcontext⟩ := h.placed hfatal
    have hlocated : d.isLocated = true := by
      unfold Diagnostic.isLocated
      rw [hcontext]
      rfl
    have hlocate : Interpreter.locate settings cursor script s.position d =
        d.withFrame (Includer.frame ⟨script, text, s⟩) := by
      unfold Interpreter.locate
      rw [if_neg (by rw [hfatal]; simp), if_pos hlocated]
      rfl
    rw [hlocate]
    refine ⟨h.cause, fun hyes => ?_, fun _ => ⟨line, hget, ?_⟩⟩
    · exact absurd (hfatal.symm.trans hyes) (by simp)
    · unfold Diagnostic.withFrame
      rw [hcontext, List.map_append]
      rfl

/-! ## What a script ends with -/

section Script

variable {depth : Nat} {t : Reading σ} {x : Point σ}

/-- A script that is opened is run as its edited lines are read. -/
theorem follows_opening (depth : Nat) (script : Script) (text : String) (i : Interpreter σ) :
    Follows script (opening script text i)
      (events (loadFrom (runScript depth) script) script (opening script text i))
      (Scanner.passLines (editedLines (Text.lines text)
        (events (loadFrom (runScript depth) script) script (opening script text i))) 0 {})
      (runAll (loadFrom (runScript depth) script) script (opening script text i)) :=
  follows_all rfl rfl

/-- In a script that is opened all is where it says. -/
theorem inPlace_opening (hls : Countable (Text.lines text)) :
    InPlace (Text.lines text)
      (events (loadFrom (runScript depth) script) script (opening script text i))
      (points (loadFrom (runScript depth) script) script (opening script text i)) :=
  inPlace_events (r := opening script text i) hls rfl rfl

/-- Where a script ends with a diagnostic, its lines are its own still, and
the settings are as before. -/
theorem of_runAll_error
    (h : runAll (loadFrom (runScript depth) script) script (opening script text i) = .error d t) :
    t.cursor.lines = Text.lines text ∧ t.interpreter.settings = i.settings := by
  have hfollows := follows_opening depth script text i
  have hbalanced := balanced_runAll script
    (balanced_loadFrom (balanced_runScript depth) script) (opening script text i)
  rw [h] at hfollows hbalanced
  exact ⟨hfollows.cursor.lines, hbalanced.settings⟩

/-- A text ends with the diagnostic that its run ends with. -/
theorem runScript_of_error
    (h : runAll (loadFrom (runScript depth) script) script (opening script text i) = .error d t) :
    ∃ j, runScript (depth + 1) script text i = .error d j := by
  rw [runScript, runText_eq, h]
  exact ⟨_, rfl⟩

/-- **A fault of the scanner comes out of the script.** -/
theorem reported_of_fault {e : ScanError} (hls : Countable (Text.lines text))
    (he : .fault e ∈ events (loadFrom (runScript depth) script) script (opening script text i)) :
    (∃ d j, runScript (depth + 1) script text i = .error d j ∧
      Reported i.settings.showCaret ⟨script, text, .fault e⟩ [] d) ∧
      (Stop.fault e).At (Text.lines text) := by
  have hat : (Stop.fault e).At (Text.lines text) := (inPlace_opening hls).faults e he
  obtain ⟨c, hchar⟩ := hat.exists_char
  have hfollows := follows_opening depth script text i
  obtain ⟨q, t, hrun, -⟩ := hfollows.fault e he
  obtain ⟨hlines, hsettings⟩ := of_runAll_error hrun
  obtain ⟨j, hj⟩ := runScript_of_error hrun
  refine ⟨⟨_, j, hj, ?_⟩, hat⟩
  rw [hsettings]
  -- what has a place is no defect, so the diagnostic knows the place
  have hdiagnostic : e.diagnostic =
      ⟨.scan e.fault, some (Context.withPosition {} e.position)⟩ := by
    unfold ScanError.diagnostic
    rw [ScanFault.At.isDefect hat]
    rfl
  refine reported_of_new (.fault e) hlines (fun _ => .inr ?_) hchar
  change e.diagnostic.context = _
  rw [hdiagnostic]
  rfl

section Failed

variable (hx : x ∈ points (loadFrom (runScript depth) script) script (opening script text i))
  (hd : dispatch (loadFrom (runScript depth) script) script x.statement x.reading = .error d t)

include hx hd

/-- A script ends with what its statement ends with, placed at the
statement. -/
theorem runScript_of_failed :
    ∃ j, runScript (depth + 1) script text i =
      .error (locate i.settings t.cursor script x.statement.position d) j := by
  have hrun := runAll_of_failed hd hx
  have hsettings := (of_runAll_error hrun).2
  rw [hsettings] at hrun
  exact runScript_of_error hrun

/-- **A diagnostic of a statement comes out of the script.** -/
theorem reported_of_failed (hls : Countable (Text.lines text))
    (hcontext : d.isFatal = false → d.context = none) :
    (∃ d' j, runScript (depth + 1) script text i = .error d' j ∧
      Reported i.settings.showCaret ⟨script, text, .statement x.statement d⟩ [] d') ∧
      (Stop.statement x.statement d).At (Text.lines text) := by
  have hat : (Stop.statement x.statement d).At (Text.lines text) :=
    (inPlace_opening hls).statements x hx
  obtain ⟨c, hchar⟩ := hat.exists_char
  have hlines := (of_runAll_error (runAll_of_failed hd hx)).1
  obtain ⟨j, hj⟩ := runScript_of_failed hx hd
  refine ⟨⟨_, j, hj, ?_⟩, hat⟩
  exact reported_of_new (.statement x.statement d) hlines
    (fun hno => .inl ⟨hcontext hno, rfl⟩) hchar

end Failed

/-- No diagnostic of the search for a command has a place. -/
theorem context_of_resolve {commands : CommandTable (Handler σ)} {name : String}
    {arguments : Value} {mode : Int} (h : commands.resolve name arguments mode = .error d) :
    d.context = none := by
  unfold CommandTable.resolve at h
  split at h
  · cases h
    rfl
  · split at h
    · cases h
      rfl
    · split at h
      · cases h
      · cases h
        rfl

/-- A statement without a command ends with what the search ends with. -/
theorem dispatch_of_resolve
    (h : x.reading.interpreter.commands.resolve x.statement.name x.statement.arguments
      x.reading.interpreter.mode = .error d) :
    dispatch load script x.statement x.reading =
      .error d (announced script x.statement x.reading) := by
  have hresolve : (announced script x.statement x.reading).interpreter.commands.resolve
      x.statement.name x.statement.arguments
      (announced script x.statement x.reading).interpreter.mode = .error d := h
  rw [dispatch_eq, hresolve]

end Script

/-- A step in a script ends with what it ends with once the script has
begun. -/
theorem within_of_error {step : InterpretM σ Unit} {k : Interpreter σ}
    (henters : Enters script i j) (h : step j = .error d k) :
    ∃ l, within script step i = .error d l := by
  obtain ⟨stack, notes, hstart, rfl⟩ := henters
  unfold within
  rw [hstart]
  dsimp only
  rw [h]
  exact ⟨_, rfl⟩

/-- A script read from a file ends with what its text ends with. -/
theorem readFile_of_error {run : Script → String → InterpretM σ Unit} {k : Interpreter σ}
    (henters : Enters script i j) (hread : i.files.read script.path = .ok text)
    (h : run script text j = .error d k) : ∃ l, readFile run script i = .error d l := by
  rw [readFile_eq]
  refine within_of_error (k := k) henters ?_
  obtain ⟨stack, notes, -, rfl⟩ := henters
  dsimp only
  rw [hread]
  exact h

/-- What begins a script keeps the settings. -/
theorem settings_of_enters (h : Enters script i j) : j.settings = i.settings := by
  obtain ⟨stack, notes, -, rfl⟩ := h
  rfl

/-- **What arises in a script comes out of it**, and of those that include
it. -/
theorem Raises.runScript {depth : Nat} (h : Raises depth script text i origin includers)
    (horigin : Countable (Text.lines origin.text)) :
    (∃ d j, Interpreter.runScript depth script text i = .error d j ∧
      Reported i.settings.showCaret origin includers d) ∧
      origin.stop.At (Text.lines origin.text) := by
  induction h with
  | fault he => exact reported_of_fault horigin he
  | unresolved hx hresolve =>
    exact reported_of_failed hx (dispatch_of_resolve hresolve) horigin
      fun _ => context_of_resolve hresolve
  | failed hx hd hcontext => exact reported_of_failed hx hd horigin hcontext
  | @included depth script child text inner i before after j x path share d t origin includers hx
      hload hd hdispatch hchild henters hread _ ih =>
    obtain ⟨⟨d', k, hrun, hreported⟩, hat⟩ := ih horigin
    obtain ⟨ks, hbefore⟩ := balanced_of_load
      (balanced_loadFrom (balanced_runScript depth) script) hx hload
    -- the inclusion ends with what the included script ends with
    obtain ⟨l, hfile⟩ := readFile_of_error henters hread hrun
    rw [loadFrom_eq, ← hchild, hfile] at hd
    cases hd
    obtain ⟨m, hm⟩ := runScript_of_failed hx hdispatch
    have hcaret : after.settings = i.settings := (settings_of_enters henters).trans hbefore.settings
    rw [hcaret] at hreported
    exact ⟨⟨_, m, hm, hreported.locate⟩, hat⟩

/-- **Each includer has its command word where it says.** -/
theorem Raises.writtenAt {depth : Nat} (h : Raises depth script text i origin includers) :
    ∀ f ∈ includers, Countable (Text.lines f.text) →
      WrittenAt (Text.lines f.text) f.statement.position f.statement.name := by
  induction h with
  | fault | unresolved | failed => exact fun f hf => absurd hf List.not_mem_nil
  | @included depth script child text inner i before after j x path share d t origin includers hx
      hload hd hdispatch hchild henters hread _ ih =>
    intro f hf hls
    rcases List.mem_append.1 hf with hf | hf
    · exact ih f hf hls
    · cases List.mem_singleton.1 hf
      exact (inPlace_opening hls).statements x hx

/-! ## Runs from outside -/

/-- Where a diagnostic arises in a run from outside, and through which
statements it comes out. -/
def Entry.Raises (i : Interpreter σ) (origin : Origin) (includers : List Includer) : Entry → Prop
  | .file path mode =>
    let script := Script.ofPath i.files path
    ∃ text j, Enters script (beginning mode i) j ∧ i.files.read path = .ok text ∧
      Interpreter.Raises i.maxDepth script text j origin includers
  | .source path text =>
    let script := Script.ofPath i.files path
    ∃ j, Enters script (beginning i.settings.initialMode i) j ∧
      Interpreter.Raises i.maxDepth script text j origin includers
  | .sourceIn path text mode =>
    let script := Script.ofPath i.files path
    ∃ j, Enters script (beginning mode i) j ∧
      Interpreter.Raises i.maxDepth script text j origin includers

/-- A run from outside ends with the diagnostic of its outermost script. -/
theorem transaction_of_error {mode : Int} {step : InterpretM σ Unit} {k : Interpreter σ}
    (h : step (beginning mode i) = .error d k) : ∃ l, transaction mode step i = .error d l := by
  unfold beginning at h
  unfold transaction
  rw [h]
  exact ⟨_, rfl⟩

/-- **Diagnostics point at the innermost place.** Where a diagnostic arises in
a script, be it at a fault of the scanner or at a statement without a command
or whose command fails, and comes out through the statements that include the
script, the run ends with a diagnostic of the same cause. If it is fatal it is
the one that arose. If not, its place is that in the innermost script: a
character of it, where the offending token or the command word stands, with
the line that holds it, and one frame for each includer, the innermost first,
which says where the command word of the including statement stands. -/
theorem Entry.run_reports (entry : Entry) {i : Interpreter σ} {origin : Origin}
    {includers : List Includer} (h : entry.Raises i origin includers)
    (horigin : Countable (Text.lines origin.text))
    (hincluders : ∀ f ∈ includers, Countable (Text.lines f.text)) :
    ∃ d j, entry.run i = .error d j ∧ d.cause = origin.stop.diagnostic.cause ∧
      (d.isFatal = true → d = origin.stop.diagnostic) ∧
      (d.isFatal = false → ∃ line c,
        (Text.lines origin.text)[origin.stop.position.line - 1]? = some line ∧
          Shows (Text.lines origin.text) origin.stop.position [c] ∧
          d.context = some
            { source := some origin.script.path
              line := some origin.stop.position.line
              column := some origin.stop.position.column
              lineText := some line
              caret := i.settings.showCaret
              frames := includers.map fun f =>
                f.script.path ++ ":" ++ f.statement.position.text }) ∧
      origin.stop.At (Text.lines origin.text) ∧
      ∀ f ∈ includers, WrittenAt (Text.lines f.text) f.statement.position f.statement.name := by
  -- whichever way the outermost script is given, it is run once it is on the stack
  obtain ⟨script, text, j, hcaret, hraises, hrun⟩ : ∃ script text j,
      j.settings = i.settings ∧ Interpreter.Raises i.maxDepth script text j origin includers ∧
        ∀ d k, runScript i.maxDepth script text j = .error d k → ∃ l, entry.run i = .error d l := by
    cases entry with
    | file path mode =>
      obtain ⟨text, j, henters, hread, hraises⟩ := h
      have hsettings := settings_of_enters henters
      refine ⟨_, text, j, hsettings, hraises, fun d k hk => ?_⟩
      obtain ⟨l, hl⟩ := readFile_of_error henters hread hk
      exact transaction_of_error hl
    | source path text =>
      obtain ⟨j, henters, hraises⟩ := h
      have hsettings := settings_of_enters henters
      refine ⟨_, text, j, hsettings, hraises, fun d k hk => ?_⟩
      obtain ⟨l, hl⟩ := within_of_error henters hk
      exact transaction_of_error hl
    | sourceIn path text mode =>
      obtain ⟨j, henters, hraises⟩ := h
      have hsettings := settings_of_enters henters
      refine ⟨_, text, j, hsettings, hraises, fun d k hk => ?_⟩
      obtain ⟨l, hl⟩ := within_of_error henters hk
      exact transaction_of_error hl
  obtain ⟨⟨d, k, hk, hreported⟩, hat⟩ := hraises.runScript horigin
  obtain ⟨l, hl⟩ := hrun d k hk
  refine ⟨d, l, hl, hreported.cause, hreported.fatal, fun hfatal => ?_, hat,
    fun f hf => hraises.writtenAt f hf (hincluders f hf)⟩
  obtain ⟨line, hget, hcontext⟩ := hreported.placed hfatal
  obtain ⟨c, hchar⟩ := hat.exists_char
  rw [hcaret] at hcontext
  exact ⟨line, c, hget, hchar, hcontext⟩

/-! ## A chain that can be computed -/

/-- The fault that the scanner stops at in an event. -/
def Event.fault? : Event σ → Option ScanError
  | .fault e => some e
  | _ => none

/-- Whether a request includes a script at whose fault its statement ends. -/
def includesFault (depth : Nat) (script child : Script) (inner : String) (e : ScanError)
    (x : Point σ) : Request σ → Bool
  | .taken _ => false
  | .load path share before =>
    let load := loadFrom (runScript (depth + 1)) script
    match load path share before, dispatch load script x.statement x.reading,
      (prepared share before).stack.start child, before.files.read child.path with
    | .error d _, .error d' _, .ok (stack, notes), .ok read =>
      let after :=
        { prepared share before with stack, log := (prepared share before).log ++ notes }
      d' = d ∧ child = Script.ofPath before.files (script.resolve path) ∧ read = inner ∧
        some e ∈ (events (loadFrom (runScript depth) child) child (opening child inner after)).map
          Event.fault?
    | _, _, _, _ => false

/-- What is found there arises there. -/
theorem raises_of_includesFault {depth : Nat} {child : Script} {inner : String} {e : ScanError}
    {x : Point σ} {q : Request σ}
    (hx : x ∈ points (loadFrom (runScript (depth + 1)) script) script (opening script text i))
    (hq : q ∈ requests (loadFrom (runScript (depth + 1)) script) script x.statement x.reading)
    (h : includesFault depth script child inner e x q = true) :
    Raises (depth + 2) script text i ⟨child, inner, .fault e⟩ [⟨script, text, x.statement⟩] := by
  cases q with
  | taken line => cases h
  | load path share before =>
    unfold includesFault at h
    dsimp only at h
    split at h
    · rename_i d _ d' _ stack notes read hload hdispatch hstart hread
      obtain ⟨rfl, hchild, rfl, hfault⟩ := of_decide_eq_true h
      obtain ⟨ev, hev, hsome⟩ := List.mem_map.1 hfault
      have hevent : ev = .fault e := by
        cases ev with
        | fault e' =>
          cases hsome
          rfl
        | line | statement => cases hsome
      rw [hevent] at hev
      exact .included hx hq hload hdispatch hchild ⟨stack, notes, hstart, rfl⟩ hread (.fault hev)
    · cases h

/-- An interpreter with a file that is at fault on its second line. -/
def broken : Interpreter Routine.Journal :=
  Interpreter.new {} { workingDirectory := [], files := [(["part"], "\n  Boom );".toUTF8)] } {}

/-- A script that includes the file ends with the fault in it, and the report
leads from the one to the other. -/
theorem Entry.run_reports_broken :
    ∃ d j, (Entry.source "/main" "  LOAD part;").run broken = .error d j ∧
      d.cause = .scan .unbalancedClose ∧
      d.context = some
        { source := some "/part", line := some 2, column := some 8
          lineText := some "  Boom );", caret := true, frames := ["/main:1:3"] } := by
  let main : Script := ⟨"/main", some ["main"]⟩
  let part : Script := ⟨"/part", some ["part"]⟩
  let begun : Interpreter Routine.Journal :=
    { beginning 0 broken with stack := { frames := [main] } }
  let load : Loader Routine.Journal := loadFrom (runScript 2) main
  have hfound : ((points load main (opening main "  LOAD part;" begun)).any fun x =>
      decide (x.statement.position = ⟨1, 3⟩) && (requests load main x.statement x.reading).any
        (includesFault 1 main part "\n  Boom );" ⟨.unbalancedClose, ⟨2, 8⟩⟩ x)) = true := by
    decide +kernel
  obtain ⟨x, hx, hfound⟩ := List.any_eq_true.1 hfound
  obtain ⟨hposition, hfound⟩ := Bool.and_eq_true_iff.1 hfound
  obtain ⟨q, hq, hfound⟩ := List.any_eq_true.1 hfound
  have hraises : (Entry.source "/main" "  LOAD part;").Raises broken
      ⟨part, "\n  Boom );", .fault ⟨.unbalancedClose, ⟨2, 8⟩⟩⟩
      [⟨main, "  LOAD part;", x.statement⟩] :=
    ⟨begun, ⟨_, _, rfl, rfl⟩, raises_of_includesFault hx hq hfound⟩
  have hpart : Countable (Text.lines "\n  Boom );") := ⟨by decide +kernel, by decide +kernel⟩
  have hmain : Countable (Text.lines "  LOAD part;") := ⟨by decide +kernel, by decide +kernel⟩
  obtain ⟨d, j, hrun, hcause, -, hplaced, -⟩ := Entry.run_reports _ hraises hpart
    fun f hf => List.mem_singleton.1 hf ▸ hmain
  have hfatal : d.isFatal = false := by
    unfold Diagnostic.isFatal
    rw [hcause]
    rfl
  obtain ⟨line, c, hline, -, hcontext⟩ := hplaced hfatal
  have hsecond : (Text.lines "\n  Boom );")[1]? = some "  Boom );" := by decide +kernel
  cases hsecond.symm.trans hline
  have hframe : "/main" ++ ":" ++ (⟨1, 3⟩ : Position).text = "/main:1:3" := by decide +kernel
  refine ⟨d, j, hrun, hcause, ?_⟩
  rw [hcontext, List.map_singleton, of_decide_eq_true hposition]
  dsimp only
  rw [hframe]
  rfl

end Interpreter

end CommandScript
