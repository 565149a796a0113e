import CommandScript.Number.Binary64
import CommandScript.Text.Case

/-!
# Kinds

A scalar is a text read as one of four kinds. What a text can be read as is
decided by the text alone, and the most specific reading that succeeds is
the kind a bare word has. A parameter may ask for one of the four, for any of
them, for an array, or, by a name that stands for nothing, for what no value
can be.
-/

namespace CommandScript

/-- What a scalar is read as. -/
inductive ScalarKind where
  | string
  | int
  | float
  | bool
deriving DecidableEq, Inhabited

/-- What a parameter asks for. -/
inductive Kind where
  /-- A scalar of one kind. -/
  | scalar (kind : ScalarKind)
  /-- A list of values. -/
  | array
  /-- A scalar of whatever kind. -/
  | any
  /-- A name that no type has; no value is of this kind. -/
  | unknown (name : String)
deriving DecidableEq, Inhabited

namespace Scalar

/-- The truth value a text writes, in any case. -/
def readBool (text : String) : Option Bool :=
  if Text.sameName text "true" then some true
  else if Text.sameName text "false" then some false
  else none

end Scalar

namespace ScalarKind

/-- Whether a text can be read as this kind. Every text is a string. -/
def reads (text : String) : ScalarKind → Bool
  | string => true
  | int => (Number.readInteger text).isSome
  | float => (Number.Binary64.read text).isSome
  | bool => (Scalar.readBool text).isSome

/-- **The kind of a bare word**: the first of integer, float and truth value
that its text can be read as, and otherwise a string. -/
def ofText (text : String) : ScalarKind :=
  if int.reads text then int
  else if float.reads text then float
  else if bool.reads text then bool
  else string

/-- The kind's spelling. -/
def name : ScalarKind → String
  | string => "string"
  | int => "int"
  | float => "float"
  | bool => "bool"

/-- A bare word can be read as the kind it is given. -/
theorem reads_ofText (text : String) : (ofText text).reads text = true := by
  unfold ofText
  split
  · assumption
  · split
    · assumption
    · split
      · assumption
      · rfl

end ScalarKind

namespace Kind

/-- The kind of strings. -/
abbrev string : Kind := scalar .string

/-- The kind of integers. -/
abbrev int : Kind := scalar .int

/-- The kind of floats. -/
abbrev float : Kind := scalar .float

/-- The kind of truth values. -/
abbrev bool : Kind := scalar .bool

/-- **The kind a scalar has once read as this kind**, if its text allows the
reading: the declared kind, or under `any` the kind it already had. -/
def coerce (kind : ScalarKind) (text : String) : Kind → Option ScalarKind
  | scalar k => if k.reads text then some k else none
  | any => some kind
  | array => none
  | unknown _ => none

/-- Whether a scalar of this text can stand where the kind is asked for. -/
def accepts (text : String) : Kind → Bool
  | scalar k => k.reads text
  | any => true
  | array => false
  | unknown _ => false

/-- The primitive kind that a word spells in a signature, in any case. Arrays
have no word: they are written by their parameters. -/
def ofWord (word : String) : Option Kind :=
  if Text.sameName word "int" || Text.sameName word "integer" then some int
  else if Text.sameName word "float" then some float
  else if Text.sameName word "bool" || Text.sameName word "boolean" then some bool
  else if Text.sameName word "string" || Text.sameName word "str" then some string
  else if Text.sameName word "any" then some any
  else none

/-- Whether the kind is anything but an array. -/
def isScalar (kind : Kind) : Bool :=
  kind != array

/-- Whether the kind is a name that no type has. -/
def isUnknown : Kind → Bool
  | unknown _ => true
  | _ => false

/-- The kind's spelling in a signature. -/
def name : Kind → String
  | scalar k => k.name
  | array => "array"
  | any => "any"
  | unknown name => name

/-- The kind's spelling where a name of no type must be told apart. -/
def label : Kind → String
  | unknown name => "unknown<" ++ name ++ ">"
  | kind => kind.name

theorem coerce_isSome (kind : ScalarKind) (text : String) (k : Kind) :
    (k.coerce kind text).isSome = k.accepts text := by
  cases k with
  | scalar k => by_cases h : k.reads text = true <;> simp [coerce, accepts, h]
  | _ => rfl

end Kind

end CommandScript
