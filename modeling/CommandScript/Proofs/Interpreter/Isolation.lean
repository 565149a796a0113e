import CommandScript.Proofs.Interpreter.History

/-!
# Temporary resources are set aside

A script that is included without sharing starts with no temporary resources,
and those of the including script are put back behind it. So nothing in it
depends on them, at any depth, and nothing in it changes them, however it
ends (`load_isolated`). All of this is because they are gone from the state in
which the script is looked for (`prepared_withTemporary`).
-/

namespace CommandScript

namespace Interpreter

variable {σ : Host} {load : Loader σ}

/-- The interpreter with these temporary resources instead of its own. -/
def withTemporary (i : Interpreter σ) (temporary : ResourceStore.Table σ.resources) :
    Interpreter σ :=
  { i with store := { i.store with temporary } }

/-- What a step says when it ends. -/
def reply (out : EStateM.Result Diagnostic (Interpreter σ) Unit) : Except Diagnostic Unit :=
  match out with
  | .ok () _ => .ok ()
  | .error d _ => .error d

/-! ## Before and behind the script -/

/-- **A script that is not shared with is looked for in the same state**,
whatever the temporary resources are. -/
theorem prepared_withTemporary (i : Interpreter σ) (temporary : ResourceStore.Table σ.resources) :
    prepared false (i.withTemporary temporary) = prepared false i := rfl

/-- Behind the script the temporary resources are those from before it. -/
theorem restored_withTemporary (i j : Interpreter σ) (temporary : ResourceStore.Table σ.resources) :
    restored false (i.withTemporary temporary) j =
      (restored false i j).withTemporary temporary := rfl

variable (run : Script → String → InterpretM σ Unit) (includer : Script) (path : String)

/-- Including a script says what reading its file says. -/
theorem reply_loadFrom (share : Bool) (i : Interpreter σ) :
    reply (loadFrom run includer path share i) =
      reply (readFile run (Script.ofPath i.files (includer.resolve path)) (prepared share i)) := by
  rw [loadFrom_eq]
  cases readFile run (Script.ofPath i.files (includer.resolve path)) (prepared share i) with
  | ok _ j => rfl
  | error d j => rfl

/-- Including a script gives the mode back, and the temporary resources unless
they are shared. -/
theorem last_loadFrom (share : Bool) (i : Interpreter σ) :
    last (loadFrom run includer path share i) =
      restored share i (last
        (readFile run (Script.ofPath i.files (includer.resolve path)) (prepared share i))) := by
  rw [loadFrom_eq]
  cases readFile run (Script.ofPath i.files (includer.resolve path)) (prepared share i) with
  | ok _ j => rfl
  | error d j => rfl

/-- A program that includes a script goes on with what was said, from the
state behind the script. -/
theorem runProgram_load_eq (call : Invocation) (share : Bool)
    (next : Except Diagnostic Unit → Program σ) (r : Reading σ) :
    runProgram load call (.load path share next) r =
      runProgram load call (next (reply (load path share r.interpreter)))
        { r with interpreter := last (load path share r.interpreter) } := by
  rw [runProgram_load]
  cases load path share r.interpreter with
  | ok _ i => rfl
  | error d i => rfl

/-- **The script begins with no temporary resources**, unless it cannot
begin. -/
theorem temporary_of_loadHistory (inner : Script → String → Interpreter σ → List (Happening σ))
    (i : Interpreter σ) :
    loadHistory inner includer path false i = [] ∨
      ∃ script state rest, loadHistory inner includer path false i =
        .entered script state :: rest ∧ state.store.temporary = ∅ := by
  unfold loadHistory fileHistory withinHistory
  cases (prepared false i).stack.start (Script.ofPath i.files (includer.resolve path)) with
  | error d => exact .inl rfl
  | ok started => exact .inr ⟨_, _, _, rfl, rfl⟩

/-! ## Isolation -/

/-- **A script that is included without sharing is isolated.** In two states
that differ in their temporary resources only it says the same, and at any
depth the same scripts begin and the same statements run with the same calls;
the states behind it differ in the temporary resources only. The script begins
with none of them. Behind it they are as before, and so is the mode, however
it ends; and the program that included it goes on from there, whatever it makes
of the answer. -/
theorem load_isolated (depth : Nat) (includer : Script) (path : String) (i : Interpreter σ)
    (temporary : ResourceStore.Table σ.resources) :
    let load := loadFrom (runScript depth) includer
    let history := loadHistory (scriptHistory depth) includer path false
    let j := i.withTemporary temporary
    reply (load path false j) = reply (load path false i) ∧
      history j = history i ∧
      last (load path false j) = (last (load path false i)).withTemporary temporary ∧
      (history i = [] ∨ ∃ script state rest,
        history i = .entered script state :: rest ∧ state.store.temporary = ∅) ∧
      (last (load path false i)).store.temporary = i.store.temporary ∧
      (last (load path false i)).mode = i.mode ∧
      ∀ call next cursor scanner,
        runProgram load call (.load path false next) ⟨i, cursor, scanner⟩ =
          runProgram load call (next (reply (load path false i)))
            ⟨last (load path false i), cursor, scanner⟩ := by
  dsimp only
  refine ⟨?_, ?_, ?_, temporary_of_loadHistory includer path _ i, ?_, ?_,
    fun call next cursor scanner => runProgram_load_eq path call false next _⟩
  · rw [reply_loadFrom, reply_loadFrom, prepared_withTemporary]
    rfl
  · unfold loadHistory
    rw [prepared_withTemporary]
    rfl
  · rw [last_loadFrom, last_loadFrom, prepared_withTemporary, restored_withTemporary]
    rfl
  · rw [last_loadFrom]
    rfl
  · rw [last_loadFrom]
    rfl

end Interpreter

end CommandScript
