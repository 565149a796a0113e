import CommandScript.Proofs.Interpreter.History
import CommandScript.Proofs.Script.Stack
import Mathlib.Data.Set.Card

/-!
# Inclusion comes to an end

A script that is being read cannot begin again, and a script that goes on to
include others has been read from a file, the outermost one apart. So the
scripts being read are no more than the files that can be read, the outermost
one, and one that is only looked for. `Ready` is the invariant: it holds
where a text begins, it is kept by all that a script does, and it bounds the
stack. Below the bound nothing is left to include, so whatever would run the
texts there is never asked (`runOver_eq`).
-/

namespace CommandScript

/-! ## Files -/

namespace FileTree

variable {t : FileTree} {path text : String}

/-- **The files that can be read**, each once, however many paths lead there. -/
def readable (t : FileTree) : Set Path.Location :=
  {place | ∃ path text, t.locate path = .ok place ∧ t.read path = .ok text}

/-- What can be read is where the path leads. -/
theorem read_eq_ok (h : t.read path = .ok text) :
    ∃ place content, t.locate path = .ok place ∧ t.node? place = some (.file content) := by
  unfold read at h
  cases hlocate : t.locate path with
  | error fault =>
    rw [hlocate] at h
    cases h
  | ok place =>
    rw [hlocate] at h
    dsimp only [bind, Except.bind] at h
    cases hnode : t.node? place with
    | none =>
      rw [hnode] at h
      cases h
    | some node =>
      cases node with
      | directory =>
        rw [hnode] at h
        cases h
      | file content => exact ⟨place, content, rfl, hnode⟩

/-- A script that can be read is known by a place that can be read. -/
theorem key_of_read (h : t.read path = .ok text) : ∃ place ∈ t.readable, t.key path = some place := by
  obtain ⟨place, -, hplace, -⟩ := read_eq_ok h
  refine ⟨place, ⟨path, text, hplace, h⟩, ?_⟩
  unfold key
  rw [hplace]

/-- What can be read is among the files. -/
theorem readable_subset (t : FileTree) : t.readable ⊆ {place | place ∈ t.files.map Prod.fst} := by
  rintro place ⟨path, text, hplace, hread⟩
  obtain ⟨place', content, hplace', hnode⟩ := read_eq_ok hread
  rw [hplace] at hplace'
  cases hplace'
  unfold node? at hnode
  cases hfind : t.files.find? fun f => f.1 == place with
  | none =>
    rw [hfind] at hnode
    dsimp only at hnode
    split at hnode
    · cases hnode
    · cases hnode
  | some f =>
    have hkey := List.find?_some hfind
    exact List.mem_map.2 ⟨f, List.mem_of_find?_eq_some hfind, by simpa using hkey⟩

theorem finite_readable (t : FileTree) : t.readable.Finite :=
  (List.finite_toSet (t.files.map Prod.fst)).subset t.readable_subset

/-- **No more files can be read than there are.** -/
theorem ncard_readable_le (t : FileTree) : t.readable.ncard ≤ t.files.length := by
  have hsubset : t.readable ⊆ ((t.files.map Prod.fst).toFinset : Set Path.Location) := by
    intro place hplace
    exact List.mem_toFinset.2 (t.readable_subset hplace)
  calc t.readable.ncard
      ≤ ((t.files.map Prod.fst).toFinset : Set Path.Location).ncard :=
        Set.ncard_le_ncard hsubset (Finset.finite_toSet _)
    _ = (t.files.map Prod.fst).toFinset.card := Set.ncard_coe_finset _
    _ ≤ (t.files.map Prod.fst).length := List.toFinset_card_le _
    _ = t.files.length := List.length_map _

end FileTree

namespace Interpreter

variable {σ : Host} {script : Script} {i j : Interpreter σ} {ks : List Key}

/-! ## Where a text begins -/

/-- **A state in which the text of a script may be run**: the script is on
the stack, and the scripts inside the outermost one have been read from
files. -/
structure Ready (i : Interpreter σ) : Prop where
  /-- No script is on the stack twice. -/
  nodup : i.stack.keys.Nodup
  /-- A script is being read. -/
  ne_nil : i.stack.frames ≠ []
  /-- The scripts inside it can be read. -/
  readable : ∀ f ∈ i.stack.frames.tail, ∃ place ∈ i.files.readable, f.key = some place

/-- **The stack is bounded** by the files that can be read. -/
theorem Ready.length_le (h : Ready i) : i.stack.frames.length ≤ i.files.readable.ncard + 1 := by
  have hnodup : (i.stack.frames.tail.map Script.key).Nodup :=
    h.nodup.sublist (i.stack.frames.tail_sublist.map Script.key)
  have hsubset : ((i.stack.frames.tail.map Script.key).toFinset : Set Key) ⊆
      some '' i.files.readable := by
    intro key hkey
    obtain ⟨f, hf, rfl⟩ := List.mem_map.1 (List.mem_toFinset.1 hkey)
    obtain ⟨place, hplace, hkey⟩ := h.readable f hf
    exact ⟨place, hplace, hkey.symm⟩
  have htail : i.stack.frames.tail.length ≤ i.files.readable.ncard := by
    calc i.stack.frames.tail.length
        = (i.stack.frames.tail.map Script.key).length := (List.length_map _).symm
      _ = (i.stack.frames.tail.map Script.key).toFinset.card :=
          (List.toFinset_card_of_nodup hnodup).symm
      _ = ((i.stack.frames.tail.map Script.key).toFinset : Set Key).ncard :=
          (Set.ncard_coe_finset _).symm
      _ ≤ (some '' i.files.readable).ncard :=
          Set.ncard_le_ncard hsubset (i.files.finite_readable.image some)
      _ = i.files.readable.ncard := Set.ncard_image_of_injective _ (Option.some_injective _)
  rw [List.length_tail] at htail
  omega

/-- What is balanced keeps a state ready. -/
theorem Ready.balanced (h : Ready i) (hij : Balanced i ks j) : Ready j where
  nodup := by
    unfold ScriptStack.keys
    rw [hij.frames]
    exact h.nodup
  ne_nil := by
    rw [hij.frames]
    exact h.ne_nil
  readable := by
    rw [hij.frames, hij.files]
    exact h.readable

/-- **A script that begins and can be read is ready.** -/
theorem Ready.start {stack : ScriptStack} {notes : List LogEntry} {text : String}
    (h : Ready i) (hkey : script.key = i.files.key script.path)
    (hstart : i.stack.start script = .ok (stack, notes))
    (hread : i.files.read script.path = .ok text) (log : Array LogEntry) :
    Ready { i with stack, log } where
  nodup := by
    have hafter := ScriptStack.nodup_after (.start script) h.nodup
    rw [ScriptStack.after, hstart] at hafter
    exact hafter
  ne_nil := by
    change stack.frames ≠ []
    rw [(ScriptStack.start_eq_ok hstart).2]
    exact List.append_ne_nil_of_right_ne_nil _ (List.cons_ne_nil _ _)
  readable f hf := by
    change f ∈ stack.frames.tail at hf
    rw [(ScriptStack.start_eq_ok hstart).2, List.tail_append_of_ne_nil h.ne_nil] at hf
    rcases List.mem_append.1 hf with hf | hf
    · exact h.readable f hf
    · rw [List.mem_singleton.1 hf, hkey]
      exact FileTree.key_of_read hread

/-- The outermost script is ready when it begins. -/
theorem ready_outermost {stack : ScriptStack} {notes : List LogEntry}
    (hframes : i.stack.frames = []) (hstart : i.stack.start script = .ok (stack, notes))
    (log : Array LogEntry) :
    Ready { i with stack, log } ∧ stack.frames.length = 1 := by
  have hstack : stack.frames = [script] := by
    rw [(ScriptStack.start_eq_ok hstart).2, hframes, List.nil_append]
  refine ⟨⟨?_, ?_, ?_⟩, by rw [hstack]; rfl⟩
  · change (stack.frames.map Script.key).Nodup
    rw [hstack]
    exact List.nodup_singleton _
  · change stack.frames ≠ []
    rw [hstack]
    exact List.cons_ne_nil _ _
  · change ∀ f ∈ stack.frames.tail, _
    rw [hstack]
    exact fun f hf => absurd hf List.not_mem_nil

/-! ## Whatever lies deeper -/

/-- Runs the text of a script. Texts that lie deeper than so many scripts
inside one another are run in a given way. -/
def runOver (rest : Script → String → InterpretM σ Unit) :
    Nat → Script → String → InterpretM σ Unit
  | 0, script, text => rest script text
  | depth + 1, script, text => runText (loadFrom (runOver rest depth) script) script text

/-- The bound of `runScript` can be reached in two parts. -/
theorem runScript_add (k : Nat) : ∀ depth : Nat,
    (runScript (depth + k) : Script → String → InterpretM σ Unit) =
      runOver (runScript k) depth := by
  intro depth
  induction depth with
  | zero =>
    rw [Nat.zero_add]
    rfl
  | succ depth ih =>
    funext script text
    rw [Nat.add_right_comm, runScript, runOver, ih]

/-- What lies deeper can itself be run in two parts. -/
theorem runOver_add (rest : Script → String → InterpretM σ Unit) (k : Nat) : ∀ depth : Nat,
    runOver rest (depth + k) = runOver (runOver rest k) depth := by
  intro depth
  induction depth with
  | zero =>
    rw [Nat.zero_add]
    rfl
  | succ depth ih =>
    funext script text
    rw [Nat.add_right_comm, runOver, runOver, ih]

/-- Reading a file depends on how texts are run only where it is read. -/
theorem readFile_congr {run run' : Script → String → InterpretM σ Unit}
    (h : ∀ stack notes text, i.stack.start script = .ok (stack, notes) →
      i.files.read script.path = .ok text →
        run' script text { i with stack, log := i.log ++ notes } =
          run script text { i with stack, log := i.log ++ notes }) :
    readFile run' script i = readFile run script i := by
  rw [readFile_eq, readFile_eq]
  unfold within
  cases hstart : i.stack.start script with
  | error d => rfl
  | ok started =>
    obtain ⟨stack, notes⟩ := started
    dsimp only
    cases hread : i.files.read script.path with
    | error fault => rfl
    | ok text =>
      dsimp only
      rw [h stack notes text hstart hread]

/-- **What lies deeper than the bound is never run.** -/
theorem runOver_eq (rest : Script → String → InterpretM σ Unit) : ∀ (depth : Nat)
    (script : Script) (text : String) (i : Interpreter σ), Ready i →
    i.files.readable.ncard + 2 ≤ depth + i.stack.frames.length →
      runOver rest depth script text i = runScript depth script text i := by
  intro depth
  induction depth with
  | zero =>
    intro script text i hi hdepth
    have hlength := hi.length_le
    omega
  | succ depth ih =>
    intro script text i hi hdepth
    -- the two runs can differ only where the script includes another
    have hagree : Agree (loadFrom (runScript depth) script) (loadFrom (runOver rest depth) script)
        script (points (loadFrom (runScript depth) script) script (opening script text i)) := by
      intro x hx path share before hload
      obtain ⟨ks, hbefore⟩ := balanced_of_load
        (balanced_loadFrom (balanced_runScript depth) script) hx hload
      have hbalanced := (balanced_noted i (.reading script.path i.mode)).trans hbefore
      rw [loadFrom_eq, loadFrom_eq]
      have hsame : readFile (runOver rest depth)
            (Script.ofPath before.files (script.resolve path)) (prepared share before) =
          readFile (runScript depth)
            (Script.ofPath before.files (script.resolve path)) (prepared share before) := by
        refine readFile_congr fun stack notes text' hstart hread => ?_
        have hready : Ready (prepared share before) := hi.balanced
          (hbalanced.quiet before.mode (prepared share before).store before.host before.log)
        refine ih _ _ _ (hready.start rfl hstart hread _) ?_
        have hlength : stack.frames.length = i.stack.frames.length + 1 := by
          rw [(ScriptStack.start_eq_ok hstart).2, List.length_append]
          exact congrArg (fun frames => frames.length + 1) hbalanced.frames
        change before.files.readable.ncard + 2 ≤ depth + stack.frames.length
        rw [hbalanced.files, hlength]
        omega
      rw [hsame]
    rw [runOver, runScript, runText_eq, runText_eq, runAll_congr hagree]

/-! ## The stack at any time -/

/-- A script is put on the stack by a step inside it, or in that step. -/
theorem mem_withinHistory {inner : Interpreter σ → List (Happening σ)} {entered : Script}
    {state : Interpreter σ} (h : .entered entered state ∈ withinHistory script inner i) :
    ∃ stack notes, i.stack.start script = .ok (stack, notes) ∧
      (state = { i with stack, log := i.log ++ notes } ∨
        .entered entered state ∈ inner { i with stack, log := i.log ++ notes }) := by
  unfold withinHistory at h
  cases hstart : i.stack.start script with
  | error d =>
    rw [hstart] at h
    cases h
  | ok started =>
    obtain ⟨stack, notes⟩ := started
    rw [hstart] at h
    refine ⟨stack, notes, rfl, ?_⟩
    rcases List.mem_cons.1 h with h | h
    · cases h
      exact .inl rfl
    · exact .inr h

/-- What happens in the file of a script happens in its text. -/
theorem mem_textHistory {inner : Script → String → Interpreter σ → List (Happening σ)}
    {x : Happening σ}
    (h : x ∈ match i.files.read script.path with
      | .error _ => []
      | .ok text => inner script text i) :
    ∃ text, i.files.read script.path = .ok text ∧ x ∈ inner script text i := by
  cases hread : i.files.read script.path with
  | error fault =>
    rw [hread] at h
    cases h
  | ok text =>
    rw [hread] at h
    exact ⟨text, rfl, h⟩

/-- **In a script that is ready the stack stays bounded**, however deep the
scripts in it lie. -/
theorem length_of_scriptHistory {entered : Script} {state : Interpreter σ} : ∀ (depth : Nat)
    (script : Script) (text : String) (i : Interpreter σ), Ready i →
    .entered entered state ∈ scriptHistory depth script text i →
      state.stack.frames.length ≤ i.files.readable.ncard + 2 := by
  intro depth
  induction depth with
  | zero =>
    intro script text i _ h
    cases h
  | succ depth ih =>
    intro script text i hi h
    rw [scriptHistory] at h
    obtain ⟨x, hx, h⟩ := List.mem_flatMap.1 h
    rcases List.mem_cons.1 h with h | h
    · cases h
    obtain ⟨q, hq, h⟩ := List.mem_flatMap.1 h
    cases q with
    | taken line => cases h
    | load path share before =>
      obtain ⟨ks, hbefore⟩ := balanced_of_load
        (balanced_loadFrom (balanced_runScript depth) script) hx hq
      have hbalanced := (balanced_noted i (.reading script.path i.mode)).trans hbefore
      have hready : Ready (prepared share before) := hi.balanced
        (hbalanced.quiet before.mode (prepared share before).store before.host before.log)
      have hlength := hready.length_le
      have hfiles : (prepared share before).files = i.files := hbalanced.files
      rw [hfiles] at hlength
      have hfile : .entered entered state ∈ fileHistory (scriptHistory depth)
          (Script.ofPath before.files (script.resolve path)) (prepared share before) := h
      obtain ⟨stack, notes, hstart, h⟩ := mem_withinHistory hfile
      rcases h with rfl | h
      · change stack.frames.length ≤ _
        rw [(ScriptStack.start_eq_ok hstart).2, List.length_append, List.length_singleton]
        omega
      · obtain ⟨text', hread, h⟩ := mem_textHistory h
        have hinner := ih _ _ _ (hready.start rfl hstart hread _) h
        rw [← hfiles]
        exact hinner

/-! ## Runs from outside -/

/-- A run from outside, with the texts of scripts run in a given way. -/
def Entry.runWith (run : Script → String → InterpretM σ Unit) : Entry → InterpretM σ Unit
  | .file path mode => fun i => transaction mode (readFile run (Script.ofPath i.files path)) i
  | .source path text => fun i =>
    let script := Script.ofPath i.files path
    transaction i.settings.initialMode (within script (run script text)) i
  | .sourceIn path text mode => fun i =>
    let script := Script.ofPath i.files path
    transaction mode (within script (run script text)) i

/-- A run bounds how many scripts lie inside one another by the files. -/
theorem Entry.run_eq_runWith (entry : Entry) (i : Interpreter σ) :
    entry.run i = entry.runWith (runScript i.maxDepth) i := by
  cases entry with
  | file path mode => rfl
  | source path text => rfl
  | sourceIn path text mode => rfl

/-- What a run as a whole comes to. -/
theorem transaction_eq (mode : Int) (step : InterpretM σ Unit) (i : Interpreter σ) :
    transaction mode step i =
      match step (beginning mode i) with
      | .ok () j => .ok () { j with mode := i.mode }
      | .error d j => .error d { j with mode := i.mode, store := i.store } := rfl

/-- Steps that are the same once the script has begun are the same. -/
theorem within_congr {step step' : InterpretM σ Unit}
    (h : ∀ stack notes, i.stack.start script = .ok (stack, notes) →
      step' { i with stack, log := i.log ++ notes } =
        step { i with stack, log := i.log ++ notes }) :
    within script step' i = within script step i := by
  unfold within
  cases hstart : i.stack.start script with
  | error d => rfl
  | ok started =>
    dsimp only
    rw [h _ _ hstart]

/-- Two ways to run texts that agree where the outermost script begins give
the same run. -/
theorem Entry.runWith_congr {run run' : Script → String → InterpretM σ Unit} (entry : Entry)
    (hi : i.stack.frames = [])
    (h : ∀ script text j, Ready j → j.files = i.files → j.stack.frames.length = 1 →
      run' script text j = run script text j) :
    entry.runWith run' i = entry.runWith run i := by
  have hbegin : ∀ (mode : Int) (script : Script) (text : String) (stack : ScriptStack)
      (notes : List LogEntry), (beginning mode i).stack.start script = .ok (stack, notes) →
        run' script text { beginning mode i with stack, log := i.log ++ notes } =
          run script text { beginning mode i with stack, log := i.log ++ notes } := by
    intro mode script text stack notes hstart
    obtain ⟨hready, hlength⟩ := ready_outermost (i := beginning mode i) hi hstart (i.log ++ notes)
    exact h script text _ hready rfl hlength
  have htransaction : ∀ (mode : Int) {step step' : InterpretM σ Unit},
      step' (beginning mode i) = step (beginning mode i) →
        transaction mode step' i = transaction mode step i := by
    intro mode step step' hstep
    rw [transaction_eq, transaction_eq, hstep]
  cases entry with
  | file path mode =>
    exact htransaction mode (readFile_congr fun stack notes text hstart _ =>
      hbegin mode _ text stack notes hstart)
  | source path text =>
    exact htransaction i.settings.initialMode (within_congr fun stack notes hstart =>
      hbegin _ _ text stack notes hstart)
  | sourceIn path text mode =>
    exact htransaction mode (within_congr fun stack notes hstart =>
      hbegin _ _ text stack notes hstart)

/-- In a run from outside the stack stays bounded. -/
theorem Entry.length_of_history {entered : Script} {state : Interpreter σ} {depth : Nat}
    (entry : Entry) (hi : i.stack.frames = [])
    (h : .entered entered state ∈ entry.history depth i) :
    state.stack.frames.length ≤ i.files.readable.ncard + 2 := by
  -- the outermost script is alone on the stack, and ready for all that lies in it
  have htext : ∀ (mode : Int) (script : Script) (inner : Interpreter σ → List (Happening σ)),
      (∀ j, Ready j → j.files = i.files → .entered entered state ∈ inner j →
        state.stack.frames.length ≤ i.files.readable.ncard + 2) →
      .entered entered state ∈ withinHistory script inner (beginning mode i) →
        state.stack.frames.length ≤ i.files.readable.ncard + 2 := by
    intro mode script inner hinner hmem
    obtain ⟨stack, notes, hstart, hmem⟩ := mem_withinHistory hmem
    obtain ⟨hready, hlength⟩ := ready_outermost (i := beginning mode i) hi hstart (i.log ++ notes)
    rcases hmem with rfl | hmem
    · change stack.frames.length ≤ _
      omega
    · exact hinner _ hready rfl hmem
  have hscript : ∀ script text (j : Interpreter σ), Ready j → j.files = i.files →
      .entered entered state ∈ scriptHistory depth script text j →
        state.stack.frames.length ≤ i.files.readable.ncard + 2 := by
    intro script text j hj hfiles hmem
    rw [← hfiles]
    exact length_of_scriptHistory depth script text j hj hmem
  cases entry with
  | file path mode =>
    rw [Entry.history, fileHistory] at h
    refine htext mode _ _ (fun j hj hfiles hmem => ?_) h
    obtain ⟨text, -, hmem⟩ := mem_textHistory hmem
    exact hscript _ _ j hj hfiles hmem
  | source path text => exact htext i.settings.initialMode _ _ (hscript _ text) h
  | sourceIn path text mode => exact htext mode _ _ (hscript _ text) h

/-- **Inclusion comes to an end.** However scripts begin and end, the stack
stays in order. In a run from outside it never holds more than two scripts
beyond the files that can be read, whatever the scripts include and whatever
their commands do. So a bound of that many scripts inside one another is
enough: whatever would run the texts that lie deeper, the run is the same. -/
theorem Entry.inclusion_ends (entry : Entry) {i : Interpreter σ} (hi : i.stack.frames = []) :
    (∀ changes, (ScriptStack.afterAll changes).Orderly) ∧
      (∀ depth script state, .entered script state ∈ entry.history depth i →
        state.stack.frames.length ≤ i.files.readable.ncard + 2) ∧
      ∀ rest depth, i.files.readable.ncard + 2 ≤ depth →
        entry.runWith (runOver rest depth) i = entry.run i := by
  refine ⟨fun changes => ScriptStack.orderly_of_nodup (ScriptStack.nodup_afterAll changes),
    fun depth script state h => entry.length_of_history hi h, fun rest depth hdepth => ?_⟩
  -- above the bound both runs are the one bounded by it
  have hbound : ∀ rest : Script → String → InterpretM σ Unit,
      entry.runWith (runOver rest (i.files.readable.ncard + 2)) i =
        entry.runWith (runScript (i.files.readable.ncard + 2)) i := by
    intro rest
    refine entry.runWith_congr hi fun script text j hj hfiles hlength => ?_
    refine runOver_eq rest _ script text j hj ?_
    rw [hfiles]
    omega
  obtain ⟨k, rfl⟩ := Nat.exists_eq_add_of_le hdepth
  have hmax : i.files.readable.ncard + 2 ≤ i.maxDepth :=
    Nat.add_le_add_right i.files.ncard_readable_le 2
  obtain ⟨l, hl⟩ := Nat.exists_eq_add_of_le hmax
  rw [entry.run_eq_runWith, hl, runOver_add, runScript_add, hbound, hbound]

/-- Two scripts that include each other: at most four scripts are on the
stack, and four inside one another are enough. -/
theorem Entry.inclusion_ends_includer :
    (∀ depth script state, .entered script state ∈ (Entry.file "/main" 7).history depth includer →
      state.stack.frames.length ≤ 4) ∧
      ∀ rest, (Entry.file "/main" 7).runWith (runOver rest 4) includer =
        (Entry.file "/main" 7).run includer := by
  have hfiles : includer.files.readable.ncard ≤ 2 := includer.files.ncard_readable_le
  obtain ⟨-, hstack, hruns⟩ := Entry.inclusion_ends (.file "/main" 7) (i := includer) rfl
  refine ⟨fun depth script state h => ?_, fun rest => hruns rest 4 (by omega)⟩
  have hlength := hstack depth script state h
  omega

end Interpreter

end CommandScript
