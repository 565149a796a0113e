/-!
# Paths

A path is a text of steps between slashes. `.` and the empty step stay where
they are, `..` goes up, and every other step goes down to that name. The
text of a path is kept as written: joining and cutting paths must not change
the parts that stay. A location is what a path leads to, as names from the
root down, so that locations are equal exactly when they are the same place.
-/

namespace CommandScript

namespace Path

/-- A step of a path. -/
inductive Step where
  | stay
  | up
  | down (name : String)
deriving DecidableEq

/-- The parts of a text between slashes. -/
def parts : List Char → List (List Char)
  | [] => [[]]
  | c :: rest =>
    if c = '/' then [] :: parts rest
    else
      match parts rest with
      | [] => [[c]]
      | first :: more => (c :: first) :: more

/-- The text with these parts between slashes. -/
def joinParts (ps : List (List Char)) : List Char :=
  ['/'].intercalate ps

theorem parts_ne_nil (s : List Char) : parts s ≠ [] := by
  cases s with
  | nil => simp [parts]
  | cons c rest =>
    unfold parts
    split
    · simp
    · split <;> simp

/-- Cutting a text at its slashes loses nothing. -/
theorem joinParts_parts (s : List Char) : joinParts (parts s) = s := by
  unfold joinParts
  induction s with
  | nil => rfl
  | cons c rest ih =>
    cases hp : parts rest with
    | nil => exact absurd hp (parts_ne_nil rest)
    | cons first more =>
      rw [hp] at ih
      by_cases h : c = '/'
      · subst h
        simp only [parts, ↓reduceIte, hp]
        rw [List.intercalate_cons_cons, ih]
        rfl
      · simp only [parts, h, ↓reduceIte, hp]
        rw [← ih]
        cases more with
        | nil => simp
        | cons second more => simp [List.intercalate_cons_cons]

/-- Whether a part leads nowhere else. -/
def isIdle (part : List Char) : Bool :=
  part == [] || part == ['.']

/-- The step that a part stands for. -/
def stepOf (part : List Char) : Step :=
  if isIdle part then .stay
  else if part = ['.', '.'] then .up
  else .down (String.ofList part)

/-- The steps of a path. -/
def steps (path : String) : List Step :=
  (parts path.toList).map stepOf

/-- Whether a path starts at the root. -/
def isAbsolute (path : String) : Bool :=
  path.toList.head? == some '/'

/-! ## Locations -/

/-- The names from the root down to a place. -/
abbrev Location := List String

/-- One step from a place, whether or not anything is there. The root is its
own parent. -/
def follow (place : Location) : Step → Location
  | .stay => place
  | .up => place.dropLast
  | .down name => place ++ [name]

/-- The place that steps lead to, whether or not anything is there. -/
def fold (place : Location) (steps : List Step) : Location :=
  steps.foldl follow place

/-- The place where the steps of a path begin. -/
def origin (workingDirectory : Location) (path : String) : Location :=
  if isAbsolute path then [] else workingDirectory

/-- The text of a location: an absolute path. -/
def locationText (place : Location) : String :=
  "/" ++ "/".intercalate place

/-! ## Cutting and joining -/

/-- The start of a path that is no step: the root, or a leading `.`. -/
def splitLead : List Char → List Char × List Char
  | '/' :: body => (['/'], body)
  | ['.'] => (['.'], [])
  | '.' :: '/' :: body => (['.'], '/' :: body)
  | body => ([], body)

/-- **The directory of a path**: the path without its last step and the idle
parts around it, and nothing at all if it has no step. -/
def directory (path : String) : String :=
  let (lead, body) := splitLead path.toList
  match (parts body).reverse.dropWhile isIdle with
  | [] => ""
  | _ :: above => String.ofList (lead ++ joinParts (above.dropWhile isIdle).reverse)

/-- A path seen from a directory. An absolute path is its own. -/
def join (base path : String) : String :=
  if isAbsolute path then path
  else if base = "" ∨ base.toList.getLast? = some '/' then base ++ path
  else base ++ "/" ++ path

end Path

end CommandScript
