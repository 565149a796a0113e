import CommandScript.Kind
import CommandScript.Number.Binary64
import CommandScript.Store

/-!
# Plain resources

The resources that routines work on: integers, floats, truth values and
strings.
-/

namespace CommandScript

/-- The types of plain resources. -/
inductive ResourceType where
  | int
  | float
  | bool
  | string
deriving DecidableEq, Inhabited

/-- A plain resource. -/
inductive Resource where
  | int (value : Int)
  | float (value : Number.Binary64)
  | bool (value : Bool)
  | string (value : String)
deriving DecidableEq

namespace ResourceType

/-- The type that a word names; words that name none stand for strings. -/
def ofName (word : String) : ResourceType :=
  if word = "int" then int
  else if word = "float" then float
  else if word = "bool" then bool
  else string

/-- The type's short name. -/
def name : ResourceType → String
  | int => "int"
  | float => "float"
  | bool => "bool"
  | string => "string"

/-- The type as diagnostics spell it: the storage that it takes. -/
def storage : ResourceType → String
  | int => "i64"
  | float => "f64"
  | bool => "bool"
  | string => "alloc::string::String"

/-- The resource of this type that a text writes. A text that writes none
stands for zero, or for false. -/
def read (text : String) : ResourceType → Resource
  | int => .int ((Number.readInteger text).getD 0)
  | float => .float ((Number.Binary64.read text).getD .zero)
  | bool => .bool ((Scalar.readBool text).getD false)
  | string => .string text

end ResourceType

namespace Resource

/-- The type of a resource. -/
def type : Resource → ResourceType
  | int _ => .int
  | float _ => .float
  | bool _ => .bool
  | string _ => .string

/-- The plain resources. -/
abbrev plain : ResourceUniverse where
  Value := Resource
  Code := ResourceType
  type := type
  storage := ResourceType.storage

end Resource

/-- A store of plain resources. -/
abbrev Store := ResourceStore Resource.plain

end CommandScript
