import CommandScript.Binding
import CommandScript.Diagnostic
import CommandScript.Text.Listing

/-!
# Commands

A command has a name, overloads, the modes in which it may be used, and a
handler that runs it. Several commands may share a name, told apart by mode
or by arguments: a call goes to the first overload that accepts it, of the
commands of that name which the mode allows, in the order of registration.
-/

namespace CommandScript

/-- A command with a handler of some type. -/
structure Command (η : Type) where
  /-- The name, as registered. -/
  name : String
  /-- The modes it may be used in; none stands for all. -/
  modes : List Int
  /-- What it accepts, the first overload first. -/
  signatures : List Signature
  /-- What runs it. -/
  handler : η

/-- The commands, in the order of registration. -/
structure CommandTable (η : Type) where
  /-- The commands, the earliest first. -/
  commands : List (Command η) := []

/-- A call that a command accepts. -/
structure Call (η : Type) where
  /-- The handler of the command. -/
  handler : η
  /-- The arguments, typed, named and completed. -/
  arguments : Value
  /-- The overload that accepts them, by its index in its command. -/
  index : Nat
  /-- The overload. -/
  signature : Signature

namespace Command

variable {η : Type} (c : Command η)

/-- Whether the command may be used in a mode. -/
def isValidIn (mode : Int) : Bool :=
  c.modes.isEmpty || c.modes.contains mode

/-- Whether the command has this name, ignoring case. -/
def isNamed (name : String) : Bool :=
  Text.sameName c.name name

/-- The call of the first overload, from an index on, that accepts the
arguments. -/
def callFrom (arguments : Value) : Nat → List Signature → Option (Call η)
  | _, [] => none
  | index, s :: rest =>
    match s.resolve arguments with
    | some v => some ⟨c.handler, v, index, s⟩
    | none => callFrom arguments (index + 1) rest

/-- The call of the command's first overload that accepts the arguments. -/
def call? (arguments : Value) : Option (Call η) :=
  callFrom c arguments 0 c.signatures

/-- The command in a listing: all but its handler. -/
def describe : String :=
  "Command \x7b name: " ++ Text.listed c.name ++ ", modes: " ++ Text.listedAll (c.modes.map toString)
    ++ ", signatures: " ++ Text.listedAll (c.signatures.map fun s => Text.listed s.render)
    ++ ", .. \x7d"

end Command

namespace CommandTable

variable {η : Type} (t : CommandTable η)

/-- The number of commands. -/
def size : Nat :=
  t.commands.length

/-- The table with one more command. -/
def register (c : Command η) : CommandTable η :=
  ⟨t.commands ++ [c]⟩

/-- The commands of a name, ignoring case. -/
def lookup (name : String) : List (Command η) :=
  t.commands.filter fun c => c.isNamed name

theorem lookup_register (c : Command η) (name : String) :
    (t.register c).lookup name = t.lookup name ++ if c.isNamed name then [c] else [] := by
  unfold lookup register
  by_cases h : c.isNamed name = true <;> simp [h]

/-- Whether a command has the name. -/
def contains (name : String) : Bool :=
  !(t.lookup name).isEmpty

/-- The commands that a call of the name may go to in a mode. -/
def candidates (name : String) (mode : Int) : List (Command η) :=
  (t.lookup name).filter fun c => c.isValidIn mode

/-- **Finds the command for a call**, or says why there is none. -/
def resolve (name : String) (arguments : Value) (mode : Int) : Except Diagnostic (Call η) :=
  if !t.contains name then .error ⟨.unknownCommand name, none⟩
  else if (t.candidates name mode).isEmpty then .error ⟨.wrongMode name mode, none⟩
  else
    match (t.candidates name mode).findSome? fun c => c.call? arguments with
    | some call => .ok call
    | none =>
      let forms := (t.candidates name mode).flatMap fun c => c.signatures.map Signature.render
      .error ⟨.noMatchingOverload name forms, none⟩

end CommandTable

end CommandScript
