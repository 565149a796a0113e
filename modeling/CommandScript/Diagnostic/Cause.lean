import CommandScript.Signature.Token

/-!
# Causes

What can go wrong, one constructor for each way, with what its message
mentions. The faults in the text of a script, in a written signature and in
reading a file are kinds of their own. Every cause has one wording. Three
causes are fatal: they concern the scripts as files rather than a place in
one.
-/

namespace CommandScript

/-- The deepest nesting of arrays that statements and signatures may write. -/
def maxNesting : Nat := 64

/-- A fault in the text of a script. -/
inductive ScanFault where
  /-- A character that starts no token. -/
  | unexpectedCharacter (c : Char) (column : Nat)
  /-- A quoted text that is still open at the end of its line. -/
  | unterminatedText
  /-- A statement that is still open at the end of the script. -/
  | unterminatedStatement
  /-- An argument without a name after one with a name. -/
  | positionalAfterNamed
  /-- An array inside too many others. -/
  | nestedTooDeep
  /-- A closing parenthesis where no array is open. -/
  | unbalancedClose
  /-- A name that no value follows. -/
  | nameWithoutValue (name : String)
  /-- A second name for the same argument. -/
  | alreadyNamed (earlier : String)
  /-- A colon that follows no word. -/
  | colonWithoutName
  /-- An array that is still open at the end of its statement. -/
  | arrayLeftOpen
  /-- A statement whose first value cannot be a command. -/
  | noCommandWord
  /-- A value for which there is no frame: a defect of the scanner. -/
  | lostRoot
  /-- The end of a statement that has no frame: a defect of the scanner, too. -/
  | rootOutOfBounds
deriving DecidableEq

/-- A fault in a written signature. -/
inductive SignatureFault where
  /-- A character that starts no token. -/
  | unexpectedCharacter (c : Char)
  /-- A quoted text that is never closed. -/
  | unterminatedText
  /-- An array inside too many others. -/
  | nestedTooDeep
  /-- No type where a parameter starts. -/
  | expectedType (found : Signature.Token)
  /-- No name after a type. -/
  | expectedName
  /-- The signature ends inside a list of parameters. -/
  | expectedClose
  /-- No value where a default starts. -/
  | expectedDefault (found : Option Signature.Token)
  /-- The signature ends inside a default. -/
  | defaultLeftOpen
  /-- A default that its parameter does not accept. -/
  | unfitDefault (literal parameter : String)
  /-- A parameter without a default after one with a default. -/
  | neededDefault (parameter earlier : String)
  /-- A fault in the words of whoever reports it. -/
  | stated (message : String)
deriving DecidableEq

/-- Why a script file could not be read. -/
inductive ReadFault where
  | notFound
  | notDirectory
  | isDirectory
  | notText
  | nulInPath
  | nameTooLong
  /-- A reason in the words of whoever reports it. -/
  | stated (message : String)
deriving DecidableEq

/-- What went wrong. -/
inductive Cause where
  /-- The text of a script is not made of statements. -/
  | scan (fault : ScanFault)
  /-- A script ends inside a block of raw lines. -/
  | unterminatedBlock (command terminator : String)
  /-- A command found the text of its script at fault. -/
  | illFormed (message : String)
  /-- A signature cannot be read. -/
  | signature (source : String) (column : Nat) (fault : SignatureFault)
  /-- No command has the name. -/
  | unknownCommand (name : String)
  /-- Commands of the name exist, none of them in this mode. -/
  | wrongMode (name : String) (mode : Int)
  /-- No overload accepts the arguments; these are the overloads. -/
  | noMatchingOverload (command : String) (signatures : List String)
  /-- A script includes itself through these scripts. -/
  | cyclicLoad (cycle : List String)
  /-- Something that scripts rely on is broken. -/
  | content (message : String)
  /-- A command rejects what it was asked to do. -/
  | rejected (message : String)
  | duplicateResource (name : String)
  | missingResource (name : String)
  /-- The resource holds a value of another type than expected. -/
  | resourceType (name expected : String)
  | duplicateRegistration (name : String)
  | emptyRegistration (name : String)
  /-- A script file cannot be read. -/
  | unreadable (path : String) (fault : ReadFault)
  /-- A defect of the program itself. -/
  | internal (message : String)
deriving DecidableEq

/-! ## Messages -/

namespace ScanFault

/-- The wording of a fault in a script. -/
def message : ScanFault → String
  | unexpectedCharacter c column =>
    "unexpected character '" ++ c.toString ++ "' at column " ++ toString column
  | unterminatedText => "unterminated string"
  | unterminatedStatement => "statement is missing its terminating ';'"
  | positionalAfterNamed => "positional argument follows a named argument"
  | nestedTooDeep => "arrays nested deeper than " ++ toString maxNesting
  | unbalancedClose => "unbalanced ')'"
  | nameWithoutValue name => "argument name `" ++ name ++ "` has no value"
  | alreadyNamed earlier => "argument is already named `" ++ earlier ++ "`"
  | colonWithoutName => "expected an argument name before ':'"
  | arrayLeftOpen => "array is not closed before ';'"
  | noCommandWord => "statement must start with a command name"
  | lostRoot => "tokenizer lost its root frame"
  | rootOutOfBounds => "index out of bounds: the len is 0 but the index is 0"

/-- Whether the text is not to blame, but the scanner. -/
def isDefect : ScanFault → Bool
  | lostRoot | rootOutOfBounds => true
  | _ => false

end ScanFault

namespace SignatureFault

/-- The wording of a fault in a signature. -/
def message : SignatureFault → String
  | unexpectedCharacter c => "unexpected character '" ++ c.toString ++ "'"
  | unterminatedText => "unterminated string"
  | nestedTooDeep => "arrays nested deeper than " ++ toString maxNesting
  | expectedType found => "expected a parameter type, found " ++ found.describe
  | expectedName => "expected a parameter name"
  | expectedClose => "expected ')'"
  | expectedDefault none => "expected a default value"
  | expectedDefault (some found) => "expected a default value, found " ++ found.describe
  | defaultLeftOpen => "expected ')' to close default"
  | unfitDefault literal parameter =>
    "default `" ++ literal ++ "` does not fit parameter `" ++ parameter ++ "`"
  | neededDefault parameter earlier =>
    "parameter `" ++ parameter ++ "` needs a default because `" ++ earlier ++ "` has one"
  | stated message => message

end SignatureFault

namespace ReadFault

/-- The wording of a failure to read a file. -/
def message : ReadFault → String
  | notFound => "No such file or directory (os error 2)"
  | notDirectory => "Not a directory (os error 20)"
  | isDirectory => "Is a directory (os error 21)"
  | notText => "stream did not contain valid UTF-8"
  | nulInPath => "file name contained an unexpected NUL byte"
  | nameTooLong => "File name too long (os error 36)"
  | stated message => message

end ReadFault

namespace Cause

/-- The overloads of a command, each on a line of its own. -/
def listForms (command : String) (signatures : List String) : String :=
  String.join (signatures.map fun s => "\n    " ++ command ++ " " ++ s)

/-- **The wording of a cause.** -/
def message : Cause → String
  | scan fault => fault.message
  | unterminatedBlock command terminator =>
    "`" ++ command ++ "` block is missing its terminating `" ++ terminator ++ "`"
  | illFormed message => message
  | signature source column fault =>
    "invalid signature `" ++ source ++ "` at column " ++ toString column ++ ": " ++ fault.message
  | unknownCommand name => "`" ++ name ++ "` is not a valid command"
  | wrongMode name mode => "`" ++ name ++ "` is not a valid command in mode " ++ toString mode
  | noMatchingOverload command signatures =>
    "no overload of `" ++ command ++ "` matches these arguments; valid forms are:"
      ++ listForms command signatures
  | cyclicLoad cycle => "infinite loop detected: " ++ " -> ".intercalate cycle
  | content message => "content error: " ++ message
  | rejected message => message
  | duplicateResource name => "resource `" ++ name ++ "` already exists"
  | missingResource name => "resource `" ++ name ++ "` does not exist"
  | resourceType name expected => "resource `" ++ name ++ "` is not a " ++ expected
  | duplicateRegistration name => "type `" ++ name ++ "` is already registered"
  | emptyRegistration name => "`" ++ name ++ "` is registered without any signature"
  | unreadable path fault => "failed to read " ++ path ++ ": " ++ fault.message
  | internal message => "internal error: " ++ message

/-- The causes that stand for a whole run and take no place. -/
def isFatal : Cause → Bool
  | cyclicLoad _ | content _ | unreadable _ _ => true
  | _ => false

end Cause

end CommandScript
