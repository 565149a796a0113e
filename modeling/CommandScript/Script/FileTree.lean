import CommandScript.Diagnostic
import CommandScript.Script.Path

/-!
# Files

The files that scripts are read from: a finite tree without links. A place
is a file, or a directory if a file or the working directory lies below it.
A path leads to a place step by step, and every step needs a directory to
start from; this decides both what a path names and why it cannot be read.
-/

namespace CommandScript

/-- A finite tree of files. -/
structure FileTree where
  /-- Where relative paths begin. -/
  workingDirectory : Path.Location
  /-- The files and what is in them. -/
  files : List (Path.Location × ByteArray) := []

namespace FileTree

/-- What is at a place. -/
inductive Node where
  | file (content : ByteArray)
  | directory

/-- The most bytes that a name may have. -/
def maxName : Nat := 255

/-- The most bytes that a path may have. -/
def maxPath : Nat := 4095

/-- What is at a place. -/
def node? (t : FileTree) (place : Path.Location) : Option Node :=
  match t.files.find? fun f => f.1 == place with
  | some f => some (.file f.2)
  | none =>
    if place.isPrefixOf t.workingDirectory || t.files.any fun f => place.isPrefixOf f.1 then
      some .directory
    else none

/-- The place that steps lead to, if each of them leads somewhere. -/
def walk (t : FileTree) : Path.Location → List Path.Step → Except ReadFault Path.Location
  | place, [] => .ok place
  | place, step :: rest =>
    match t.node? place with
    | none => .error .notFound
    | some (.file _) => .error .notDirectory
    | some .directory =>
      match step with
      | .down name =>
        if maxName < name.utf8ByteSize then .error .nameTooLong
        else if (t.node? (place ++ [name])).isNone then .error .notFound
        else t.walk (place ++ [name]) rest
      | step => t.walk (Path.follow place step) rest

/-- **The place that a path names**, if there is something. -/
def locate (t : FileTree) (path : String) : Except ReadFault Path.Location :=
  if path.toList.contains '\x00' then .error .nulInPath
  else if path = "" then .error .notFound
  else if maxPath < path.utf8ByteSize then .error .nameTooLong
  else t.walk (Path.origin t.workingDirectory path) (Path.steps path)

/-- The text of the file that a path names. -/
def read (t : FileTree) (path : String) : Except ReadFault String := do
  let place ← t.locate path
  match t.node? place with
  | none => .error .notFound
  | some .directory => .error .isDirectory
  | some (.file content) =>
    match String.fromUTF8? content with
    | some text => .ok text
    | none => .error .notText

/-- The place that a path would name if everything on it existed. The empty
path names none. -/
def lexical? (t : FileTree) (path : String) : Option Path.Location :=
  if path = "" then none
  else some (Path.fold (Path.origin t.workingDirectory path) (Path.steps path))

/-- **What a path stands for**, for telling scripts apart: the place that it
names, or else the one it would name. -/
def key (t : FileTree) (path : String) : Option Path.Location :=
  match t.locate path with
  | .ok place => some place
  | .error _ => t.lexical? path

end FileTree

/-- A script: the path it goes by, and what that stands for. -/
structure Script where
  /-- The path as given, which diagnostics show. -/
  path : String
  /-- What tells it from other scripts. -/
  key : Option Path.Location
deriving DecidableEq

namespace Script

/-- The script that a path names. -/
def ofPath (t : FileTree) (path : String) : Script :=
  ⟨path, t.key path⟩

/-- The path that a path in this script means: relative ones are seen from
the script's directory. -/
def resolve (s : Script) (path : String) : String :=
  Path.join (Path.directory s.path) path

end Script

end CommandScript
