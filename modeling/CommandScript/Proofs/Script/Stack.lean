import CommandScript.Script.Stack
import Mathlib.Data.List.Nodup

/-!
# No script inside itself

Scripts begin and end, and what has been read is forgotten now and then. In
whatever order that happens, no script is on the stack twice
(`nodup_afterAll`), so the place of a script on the stack is a single one,
and it tells what a report of a cycle names and what is left when the script
ends (`Orderly`).
-/

namespace CommandScript

namespace ScriptStack

/-- What is done to the stack. -/
inductive Change where
  /-- A script begins, if it can. -/
  | start (script : Script)
  /-- A script ends. -/
  | finish (script : Script)
  /-- The scripts that have been read are forgotten. -/
  | clearCompleted

/-- The stack after a change. -/
def after (s : ScriptStack) : Change → ScriptStack
  | .start script =>
    match s.start script with
    | .ok (t, _) => t
    | .error _ => s
  | .finish script => s.finish script
  | .clearCompleted => s.clearCompleted

/-- The stack after changes, from the empty one on. -/
def afterAll (changes : List Change) : ScriptStack :=
  changes.foldl after {}

/-- What tells the scripts being read apart, outermost first. -/
def keys (s : ScriptStack) : List (Option Path.Location) :=
  s.frames.map Script.key

variable {s t : ScriptStack} {script earlier : Script} {below above : List Script}

/-! ## Taking a script out -/

/-- **The last script of a key is taken out**, and the others stay in order. -/
theorem removeLast_of_split {key : Option Path.Location} (hkey : earlier.key = key)
    (habove : ∀ f ∈ above, f.key ≠ key) :
    removeLast key (below ++ earlier :: above) = below ++ above := by
  -- from the top down, the script is the first of its key
  have hskip : ∀ f ∈ above.reverse, ¬(f.key == key) = true := by
    intro f hf
    rw [beq_iff_eq]
    exact habove f (List.mem_reverse.1 hf)
  have hfirst : (earlier :: below.reverse).eraseP (fun f => f.key == key) = below.reverse :=
    List.eraseP_cons_of_pos (beq_iff_eq.2 hkey)
  unfold removeLast
  rw [List.reverse_append, List.reverse_cons, List.append_assoc,
    List.eraseP_append_right _ hskip, List.singleton_append, hfirst, List.reverse_append,
    List.reverse_reverse, List.reverse_reverse]

/-- Without a script of the key nothing is taken out. -/
theorem removeLast_of_forall_ne {key : Option Path.Location} {frames : List Script}
    (h : ∀ f ∈ frames, f.key ≠ key) : removeLast key frames = frames := by
  unfold removeLast
  rw [List.eraseP_of_forall_not, List.reverse_reverse]
  intro f hf
  rw [beq_iff_eq]
  exact h f (List.mem_reverse.1 hf)

/-- Nothing is put in or moved. -/
theorem removeLast_sublist (key : Option Path.Location) (frames : List Script) :
    (removeLast key frames).Sublist frames := by
  rw [← List.reverse_sublist, removeLast, List.reverse_reverse]
  exact List.eraseP_sublist

/-! ## Beginning and ending -/

theorem isLoading_iff : s.isLoading script = true ↔ script.key ∈ s.keys := by
  unfold isLoading keys
  rw [List.any_eq_true, List.mem_map]
  simp only [beq_iff_eq]

/-- **A script that is not on the stack goes on top of it.** -/
theorem start_of_notMem (h : script.key ∉ s.keys) :
    s.start script = .ok ({ s with frames := s.frames ++ [script] },
      if s.wasRead script then [.rereading script.path] else []) := by
  unfold start
  rw [if_neg (mt isLoading_iff.1 h)]

/-- A script that is on the stack cannot begin. -/
theorem start_of_mem (h : script.key ∈ s.keys) :
    s.start script = .error ⟨.cyclicLoad (s.cycle script), none⟩ := by
  unfold start
  rw [if_pos (isLoading_iff.2 h)]

/-- Scripts with the same key are on the stack alike. -/
theorem isLoading_of_key_eq {other : Script} (s : ScriptStack) (h : script.key = other.key) :
    s.isLoading script = s.isLoading other := by
  unfold isLoading
  rw [h]

/-- Whether a script can begin depends on nothing else. -/
theorem isOk_start (s : ScriptStack) (script : Script) :
    (s.start script).isOk = !s.isLoading script := by
  cases hloading : s.isLoading script with
  | true =>
    rw [start_of_mem (isLoading_iff.1 hloading)]
    rfl
  | false =>
    have hnot : script.key ∉ s.keys := fun hmem => by
      rw [isLoading_iff.2 hmem] at hloading
      cases hloading
    rw [start_of_notMem hnot]
    rfl

/-- What it means that a script has begun. -/
theorem start_eq_ok {notes : List LogEntry} (h : s.start script = .ok (t, notes)) :
    script.key ∉ s.keys ∧ t.frames = s.frames ++ [script] := by
  by_cases hmem : script.key ∈ s.keys
  · rw [start_of_mem hmem] at h
    cases h
  · rw [start_of_notMem hmem] at h
    cases h
    exact ⟨hmem, rfl⟩

/-- The other scripts on a stack have other keys. -/
theorem ne_of_nodup (hnodup : s.keys.Nodup) (hs : s.frames = below ++ earlier :: above) :
    ∀ f ∈ below ++ above, f.key ≠ earlier.key := by
  intro f hf
  unfold keys at hnodup
  rw [hs, List.map_append, List.map_cons, List.nodup_middle] at hnodup
  have hnot := (List.nodup_cons.1 hnodup).1
  rw [← List.map_append] at hnot
  intro hkey
  exact hnot (hkey ▸ List.mem_map_of_mem hf)

/-- **The scripts of a cycle** are those from the earlier occurrence up to
the top, and the new one. -/
theorem cycle_eq (hnodup : s.keys.Nodup) (hs : s.frames = below ++ earlier :: above)
    (hkey : earlier.key = script.key) :
    s.cycle script = (earlier :: above ++ [script]).map Script.path := by
  have hbelow : ∀ f ∈ below, (f.key != script.key) = true := by
    intro f hf
    have hne := ne_of_nodup hnodup hs f (List.mem_append_left _ hf)
    rw [hkey] at hne
    simpa using hne
  unfold cycle
  rw [hs, List.dropWhile_append_of_pos hbelow, List.dropWhile_cons_of_neg (by simp [hkey])]

/-- **A script that ends is taken out**, and the others stay in order. -/
theorem frames_finish_eq (hnodup : s.keys.Nodup) (hs : s.frames = below ++ earlier :: above)
    (hkey : earlier.key = script.key) : (s.finish script).frames = below ++ above := by
  change removeLast script.key s.frames = _
  rw [hs]
  exact removeLast_of_split hkey fun f hf =>
    hkey ▸ ne_of_nodup hnodup hs f (List.mem_append_right below hf)

/-- A script that is not on the stack ends without a trace on it. -/
theorem frames_finish_of_notMem (h : script.key ∉ s.keys) :
    (s.finish script).frames = s.frames :=
  removeLast_of_forall_ne fun _ hf hkey => h (hkey ▸ List.mem_map_of_mem hf)

/-! ## Changes in a row -/

/-- **No change puts a script on the stack that is on it.** -/
theorem nodup_after (change : Change) (h : s.keys.Nodup) : (s.after change).keys.Nodup := by
  cases change with
  | start script =>
    rw [after]
    by_cases hmem : script.key ∈ s.keys
    · rw [start_of_mem hmem]
      exact h
    · rw [start_of_notMem hmem]
      change (List.map Script.key (s.frames ++ [script])).Nodup
      rw [List.map_append, List.map_singleton, ← List.concat_eq_append]
      exact h.concat hmem
  | finish script => exact h.sublist ((removeLast_sublist _ _).map Script.key)
  | clearCompleted => exact h

theorem nodup_foldl : ∀ (changes : List Change) {s : ScriptStack}, s.keys.Nodup →
    (changes.foldl after s).keys.Nodup := by
  intro changes
  induction changes with
  | nil => exact fun h => h
  | cons change changes ih => exact fun h => ih (nodup_after change h)

/-- **In no order of changes does a script come twice.** -/
theorem nodup_afterAll (changes : List Change) : (afterAll changes).keys.Nodup :=
  nodup_foldl changes List.nodup_nil

/-- **A stack in order.** -/
structure Orderly (s : ScriptStack) : Prop where
  /-- No two scripts on it are the same. -/
  nodup : s.keys.Nodup
  /-- A script that is on it is there once, and cannot begin: the stack stays,
  and the report names the scripts from the earlier occurrence up to the top
  and the new one. If it ends, it alone is taken out. -/
  loading (script : Script) : script.key ∈ s.keys → ∃ below earlier above,
    s.frames = below ++ earlier :: above ∧ earlier.key = script.key ∧
      (∀ f ∈ below ++ above, f.key ≠ script.key) ∧
      s.start script =
        .error ⟨.cyclicLoad ((earlier :: above ++ [script]).map Script.path), none⟩ ∧
      s.after (.start script) = s ∧ (s.finish script).frames = below ++ above
  /-- Any other script begins on top. If it ends, the scripts on the stack
  stay. -/
  other (script : Script) : script.key ∉ s.keys →
    (∃ notes, s.start script = .ok ({ s with frames := s.frames ++ [script] }, notes)) ∧
      (s.finish script).frames = s.frames

/-- A stack that no script is on twice is in order. -/
theorem orderly_of_nodup (h : s.keys.Nodup) : s.Orderly where
  nodup := h
  loading script hmem := by
    have hfails := start_of_mem hmem
    have hstays : s.after (.start script) = s := by rw [after, hfails]
    obtain ⟨earlier, hearlier, hkey⟩ := List.mem_map.1 hmem
    obtain ⟨below, above, hs⟩ := List.append_of_mem hearlier
    refine ⟨below, earlier, above, hs, hkey, hkey ▸ ne_of_nodup h hs, ?_, hstays,
      frames_finish_eq h hs hkey⟩
    rw [hfails, cycle_eq h hs hkey]
  other script hnot := ⟨⟨_, start_of_notMem hnot⟩, frames_finish_of_notMem hnot⟩

/-- A script that is read in its own midst is named twice in the report. -/
example :
    let main : Script := ⟨"main", some ["main"]⟩
    let part : Script := ⟨"part", some ["part"]⟩
    (afterAll [.start main, .start part]).start main =
      .error ⟨.cyclicLoad ["main", "part", "main"], none⟩ := by
  decide +kernel

end ScriptStack

end CommandScript
