import CommandScript.Proofs.Script.Resolution
import CommandScript.Proofs.Script.Spelling
import CommandScript.Proofs.Script.Stack

/-!
# What tells scripts apart

A path that resolves is known by the place that it resolves to, and any other
by the place that its text leads to. These are one place (`key_eq`), so a
script is the same before and after its file is there. The text of that place
is the normal form of the path, which is its own normal form, and all
spellings of a path share it (`identified`). So no spelling of a path gets a
script on the stack a second time, and none keeps one off it.
-/

namespace CommandScript

namespace FileTree

variable {t : FileTree} {path other : String} {place : Path.Location}

/-! ## The place of a path -/

/-- **The place that a path leads to**, whether or not anything is there. -/
def lead (t : FileTree) (path : String) : Path.Location :=
  Path.fold (Path.origin t.workingDirectory path) (Path.steps path)

theorem lexical?_eq (hpath : path ≠ "") : t.lexical? path = some (t.lead path) := by
  unfold lexical?
  rw [if_neg hpath]
  rfl

/-- **What a path stands for is where it leads**, whether or not anything is
there. -/
theorem key_eq (hpath : path ≠ "") : t.key path = some (t.lead path) := by
  unfold key
  cases hlocate : t.locate path with
  | ok there =>
    have hresolves := ((locate_eq_ok_iff hpath).1 hlocate).2
    rw [hresolves.eq_fold]
    rfl
  | error fault => exact lexical?_eq hpath

theorem isPlace_lead (hdir : Path.IsPlace t.workingDirectory) : Path.IsPlace (t.lead path) := by
  refine Path.isPlace_fold ?_ fun name => Path.isName_of_mem_steps
  unfold Path.origin
  split
  · exact fun name hname => absurd hname List.not_mem_nil
  · exact hdir

/-- Spellings of one path lead to one place. -/
theorem lead_of_respelled (h : Path.Respelled path other) : t.lead path = t.lead other := by
  refine h.congr fun path other h => ?_
  unfold lead Path.origin
  rw [h.isAbsolute_eq, h.fold_eq]

/-- The text of a place leads there. -/
theorem lead_locationText (hplace : Path.IsPlace place) :
    t.lead (Path.locationText place) = place := by
  unfold lead Path.origin
  rw [(Path.isNormal_locationText hplace).absolute, if_pos rfl, Path.fold_locationText hplace]

/-- A path made absolute: seen from the working directory. -/
def absolute (t : FileTree) (path : String) : String :=
  Path.join (Path.locationText t.workingDirectory) path

theorem locationText_ne_empty (place : Path.Location) : Path.locationText place ≠ "" :=
  Path.append_slash_ne_empty "" _

/-- **Where a path leads is read off its text**, made absolute, from the root
on. -/
theorem fold_absolute (hdir : Path.IsPlace t.workingDirectory) :
    Path.fold [] (Path.steps (t.absolute path)) = t.lead path := by
  unfold absolute lead Path.origin
  cases habsolute : Path.isAbsolute path with
  | true => rw [Path.join_of_isAbsolute habsolute, if_pos rfl]
  | false =>
    rw [Path.fold_join (locationText_ne_empty _) habsolute, Path.fold_locationText hdir,
      if_neg Bool.false_ne_true]

/-! ## Normal forms -/

/-- **The normal form of a path** is the text of what it stands for. The empty
path stands for nothing and stays. -/
def normalize (t : FileTree) (path : String) : String :=
  match t.key path with
  | some place => Path.locationText place
  | none => path

theorem normalize_eq (hpath : path ≠ "") :
    t.normalize path = Path.locationText (t.lead path) := by
  unfold normalize
  rw [key_eq hpath]

/-- A normal form is its own normal form. -/
theorem normalize_locationText (hplace : Path.IsPlace place) :
    t.normalize (Path.locationText place) = Path.locationText place := by
  rw [normalize_eq (locationText_ne_empty place), lead_locationText hplace]

/-- **Paths stand for the same exactly if their normal forms are the same.** -/
theorem key_eq_key_iff (hdir : Path.IsPlace t.workingDirectory) (hpath : path ≠ "") :
    t.key other = t.key path ↔ t.normalize other = t.normalize path := by
  constructor
  · intro hkey
    have hother : t.key other = some (t.lead path) := hkey.trans (key_eq hpath)
    rw [normalize_eq hpath, normalize, hother]
  · intro hnormal
    rw [normalize_eq hpath] at hnormal
    have hother : other ≠ "" := by
      rintro rfl
      exact locationText_ne_empty _ hnormal.symm
    rw [normalize_eq hother] at hnormal
    -- the text of a place leads back to the place, so equal texts are of one place
    have hplace := congrArg t.lead hnormal
    rw [lead_locationText (isPlace_lead hdir), lead_locationText (isPlace_lead hdir)] at hplace
    rw [key_eq hother, key_eq hpath, hplace]

theorem key_of_respelled (h : Path.Respelled path other) (hpath : path ≠ "") :
    t.key other = t.key path := by
  rw [key_eq hpath, key_eq (h.ne_empty hpath), lead_of_respelled h]

end FileTree

namespace Script

/-- **Spellings of a path mean the same script** wherever it is included. -/
theorem key_resolve_of_respelled {t : FileTree} {path other : String}
    (h : Path.Respelled path other) (hpath : path ≠ "") (includer : Script) :
    (ofPath t (includer.resolve other)).key = (ofPath t (includer.resolve path)).key :=
  FileTree.key_of_respelled (h.join _) (Path.join_ne_empty hpath)

end Script

/-! ## Identity -/

namespace FileTree

variable {t : FileTree} {path : String}

/-- **What tells a script from others** does not depend on how its path is
spelled, nor on what is there. -/
structure Identified (t : FileTree) (path : String) : Prop where
  /-- The normal form starts at the root, and no part of it is `.` or `..`. -/
  normal : Path.IsNormal (t.normalize path)
  /-- A path is located exactly if it resolves step by step, within the limits
  of the system. -/
  located (there : Path.Location) : t.locate path = .ok there ↔
    WithinLimits path ∧
      Resolves t.node? (Path.origin t.workingDirectory path) (Path.steps path) there
  /-- If it resolves, whatever there is at the places on the way, then to the
  place of the normal form. -/
  resolved (nodes : Path.Location → Option Node) (there : Path.Location) :
    Resolves nodes (Path.origin t.workingDirectory path) (Path.steps path) there →
      t.normalize path = Path.locationText there
  /-- Whether or not it does, the path stands for the place that it would name
  if everything on it existed. -/
  lexical : t.lexical? path = t.key path
  /-- So the normal form is read off the text of the path made absolute: its
  steps are taken one by one from the root on. -/
  folded : t.normalize path =
    Path.locationText (Path.fold [] (Path.steps (t.absolute path)))
  /-- The normal form is its own normal form. -/
  fixed : t.normalize (t.normalize path) = t.normalize path
  /-- Paths stand for the same exactly if their normal forms are the same. -/
  same (other : String) : t.key other = t.key path ↔ t.normalize other = t.normalize path
  /-- Detours change neither what the path stands for nor the normal form. -/
  respelled (other : String) : Path.Respelled path other →
    t.key other = t.key path ∧ t.normalize other = t.normalize path
  /-- Wherever the path is included, detours do not change whether the script
  is being read, nor whether it can begin. -/
  loaded (other : String) : Path.Respelled path other →
    ∀ (includer : Script) (stack : ScriptStack),
      let script := Script.ofPath t (includer.resolve path)
      let again := Script.ofPath t (includer.resolve other)
      stack.isLoading again = stack.isLoading script ∧
        (stack.start again).isOk = (stack.start script).isOk

/-- **A script is told from others by one place**, however its path is spelled
and whether or not it is there. -/
theorem identified (hdir : Path.IsPlace t.workingDirectory) (hpath : path ≠ "") :
    t.Identified path where
  normal := by
    rw [normalize_eq hpath]
    exact Path.isNormal_locationText (isPlace_lead hdir)
  located there := locate_eq_ok_iff hpath
  resolved nodes there h := by
    rw [normalize_eq hpath, h.eq_fold]
    rfl
  lexical := by rw [lexical?_eq hpath, key_eq hpath]
  folded := by rw [normalize_eq hpath, fold_absolute hdir]
  fixed := by
    rw [normalize_eq hpath]
    exact normalize_locationText (isPlace_lead hdir)
  same other := key_eq_key_iff hdir hpath
  respelled other h := by
    have hkey := key_of_respelled (t := t) h hpath
    exact ⟨hkey, (key_eq_key_iff hdir hpath).1 hkey⟩
  loaded other h includer stack := by
    have hkey := Script.key_resolve_of_respelled (t := t) h hpath includer
    have hloading := stack.isLoading_of_key_eq hkey
    refine ⟨hloading, ?_⟩
    rw [ScriptStack.isOk_start, ScriptStack.isOk_start, hloading]

/-- A tree with one file, in a directory below the working directory. -/
def oneFile : FileTree where
  workingDirectory := ["work"]
  files := [(["work", "lib", "part"], .empty)]

/-- A path that resolves, and a spelling of it that does not: the detour goes by
a directory that is not there. -/
theorem identified_gone :
    Path.IsPlace oneFile.workingDirectory ∧ "lib/part" ≠ "" ∧
      Path.Respelled "lib/part" "lib/gone/../part" ∧
      oneFile.locate "lib/part" = .ok ["work", "lib", "part"] ∧
      oneFile.locate "lib/gone/../part" = .error .notFound ∧
      oneFile.Identified "lib/part" ∧
      oneFile.normalize "lib/gone/../part" = "/work/lib/part" := by
  have hdir : Path.IsPlace oneFile.workingDirectory := by decide
  have hne : "lib/part" ≠ "" := by decide
  have hgone : Path.IsName "gone" := by decide
  have hinserted : Path.Inserted "lib/part" "lib/gone/../part" :=
    .between "lib" "part" (.aside hgone)
  have hrespelled : Path.Respelled "lib/part" "lib/gone/../part" := .rel _ _ hinserted
  have hidentified := identified hdir hne
  refine ⟨hdir, hne, hrespelled, ?_, ?_, hidentified, ?_⟩
  · rfl
  · rfl
  · rw [(hidentified.respelled _ hrespelled).2, hidentified.folded]
    rfl

end FileTree

end CommandScript
