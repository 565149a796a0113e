import CommandScript.Script.FileTree
import Mathlib.Tactic.Tauto

/-!
# Paths that resolve

A path resolves if each of its steps goes from a directory to something that
is there. A path that the system does not refuse for its text is located
exactly if it resolves (`locate_eq_ok_iff`), and whatever tree it resolves in,
it leads where its text says (`Resolves.eq_fold`).
-/

namespace CommandScript

namespace FileTree

variable {t : FileTree} {nodes : Path.Location → Option Node} {path : String}
variable {place there : Path.Location} {step : Path.Step} {steps rest : List Path.Step}

/-! ## Step by step -/

/-- **Steps that resolve** in a tree without links, whatever is at its places:
each goes from a directory to something that is there. -/
inductive Resolves (nodes : Path.Location → Option Node) :
    Path.Location → List Path.Step → Path.Location → Prop
  /-- No step is left. -/
  | here (place : Path.Location) : Resolves nodes place [] place
  /-- One step and those behind it. -/
  | step {place there : Path.Location} {step : Path.Step} {rest : List Path.Step} :
      nodes place = some .directory → (nodes (Path.follow place step)).isSome →
      Resolves nodes (Path.follow place step) rest there → Resolves nodes place (step :: rest) there

/-- **Steps that resolve lead where they would if everything existed.** -/
theorem Resolves.eq_fold (h : Resolves nodes place steps there) :
    there = Path.fold place steps := by
  induction h with
  | here place => rfl
  | step _ _ _ ih => exact ih

theorem resolves_nil_iff : Resolves nodes place [] there ↔ place = there := by
  constructor
  · rintro ⟨⟩
    rfl
  · rintro rfl
    exact .here place

theorem resolves_cons_iff : Resolves nodes place (step :: rest) there ↔
    nodes place = some .directory ∧ (nodes (Path.follow place step)).isSome ∧
      Resolves nodes (Path.follow place step) rest there := by
  constructor
  · rintro (_ | ⟨hnode, hnext, hrest⟩)
    exact ⟨hnode, hnext, hrest⟩
  · rintro ⟨hnode, hnext, hrest⟩
    exact .step hnode hnext hrest

/-- Something is at a place that the working directory or a file lies at or
below. -/
theorem isSome_node?_iff : (t.node? place).isSome ↔
    place <+: t.workingDirectory ∨ ∃ f ∈ t.files, place <+: f.1 := by
  unfold node?
  cases hfind : t.files.find? fun f => f.1 == place with
  | some f =>
    have hf : f.1 = place := by simpa using List.find?_some hfind
    exact iff_of_true rfl (.inr ⟨f, List.mem_of_find?_eq_some hfind, hf ▸ List.prefix_rfl⟩)
  | none =>
    dsimp only
    split
    · rename_i h
      refine iff_of_true rfl ?_
      simpa using h
    · rename_i h
      refine iff_of_false Bool.false_ne_true ?_
      simpa using h

/-- Above what is there is something. -/
theorem isSome_node?_dropLast (h : (t.node? place).isSome) : (t.node? place.dropLast).isSome := by
  have habove : place.dropLast <+: place := List.dropLast_prefix place
  rw [isSome_node?_iff] at h ⊢
  rcases h with h | ⟨f, hf, h⟩
  · exact .inl (habove.trans h)
  · exact .inr ⟨f, hf, habove.trans h⟩

/-- What it takes to walk one step. -/
theorem walk_cons_eq_ok_iff : t.walk place (step :: rest) = .ok there ↔
    (∀ name, step = .down name → name.utf8ByteSize ≤ maxName) ∧
      t.node? place = some .directory ∧ (t.node? (Path.follow place step)).isSome ∧
      t.walk (Path.follow place step) rest = .ok there := by
  conv => lhs; unfold walk
  cases hnode : t.node? place with
  | none => simp
  | some node =>
    cases node with
    | file content => simp
    | directory =>
      have hthere : (t.node? place).isSome := by rw [hnode]; rfl
      cases step with
      | stay => simp [Path.follow, hthere]
      | up => simp [Path.follow, isSome_node?_dropLast hthere]
      | down name =>
        dsimp only [Path.follow]
        split
        · rename_i hlong
          exact iff_of_false (by simp) fun h => absurd (h.1 name rfl) (by omega)
        · rename_i hshort
          have hname : ∀ next, Path.Step.down name = .down next → next.utf8ByteSize ≤ maxName := by
            rintro next ⟨⟩
            omega
          cases hnext : t.node? (place ++ [name]) with
          | none => simp
          | some node => simp [hname]

/-- **A walk succeeds exactly if the steps resolve**, where no name is too
long. -/
theorem walk_eq_ok_iff : t.walk place steps = .ok there ↔
    (∀ name, .down name ∈ steps → name.utf8ByteSize ≤ maxName) ∧
      Resolves t.node? place steps there := by
  induction steps generalizing place with
  | nil =>
    rw [walk, resolves_nil_iff, Except.ok.injEq]
    exact (and_iff_right fun name h => absurd h List.not_mem_nil).symm
  | cons step rest ih =>
    have hnames : (∀ name, .down name ∈ step :: rest → name.utf8ByteSize ≤ maxName) ↔
        (∀ name, step = .down name → name.utf8ByteSize ≤ maxName) ∧
          ∀ name, .down name ∈ rest → name.utf8ByteSize ≤ maxName := by
      constructor
      · exact fun h => ⟨fun name hname => h name (hname ▸ List.mem_cons_self),
          fun name hname => h name (List.mem_cons_of_mem step hname)⟩
      · rintro ⟨hstep, hrest⟩ name hname
        rcases List.mem_cons.1 hname with hname | hname
        · exact hstep name hname.symm
        · exact hrest name hname
    rw [walk_cons_eq_ok_iff, ih, hnames, resolves_cons_iff]
    tauto

/-- A path that the system does not refuse for its text. -/
structure WithinLimits (path : String) : Prop where
  nul_notMem : '\x00' ∉ path.toList
  size_le : path.utf8ByteSize ≤ maxPath
  names_le (name : String) : .down name ∈ Path.steps path → name.utf8ByteSize ≤ maxName

/-- **A path is located exactly if it resolves step by step**, within the
limits of the system, and then where it resolves to. -/
theorem locate_eq_ok_iff (hpath : path ≠ "") : t.locate path = .ok there ↔
    WithinLimits path ∧
      Resolves t.node? (Path.origin t.workingDirectory path) (Path.steps path) there := by
  unfold locate
  by_cases hnul : '\x00' ∈ path.toList
  · rw [if_pos (List.contains_iff_mem.2 hnul)]
    exact iff_of_false (by simp) fun h => h.1.nul_notMem hnul
  · rw [if_neg (mt List.contains_iff_mem.1 hnul), if_neg hpath]
    by_cases hsize : maxPath < path.utf8ByteSize
    · rw [if_pos hsize]
      exact iff_of_false (by simp) fun h => absurd h.1.size_le (by omega)
    · rw [if_neg hsize, walk_eq_ok_iff]
      exact and_congr_left fun _ => ⟨fun hnames => ⟨hnul, by omega, hnames⟩, fun h => h.names_le⟩

end FileTree

end CommandScript
