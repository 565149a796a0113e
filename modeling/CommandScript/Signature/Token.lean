/-!
# Tokens of a signature

A signature is written in words, quoted texts and five marks. Each token
keeps the column where it starts, for the diagnostics that mention it.
-/

namespace CommandScript

namespace Signature

/-- A token of a written signature. -/
inductive Token where
  | word (text : String)
  | quoted (text : String)
  | openParen
  | closeParen
  | comma
  | colon
  | equals
deriving DecidableEq, Inhabited

namespace Token

/-- The token as a diagnostic names it. -/
def describe : Token → String
  | word w => "`" ++ w ++ "`"
  | quoted q => "\"" ++ q ++ "\""
  | openParen => "'('"
  | closeParen => "')'"
  | comma => "','"
  | colon => "':'"
  | equals => "'='"

end Token

/-- A token and the column where it starts. -/
structure Placed where
  /-- The token. -/
  token : Token
  /-- Its first column, from one. -/
  column : Nat
deriving DecidableEq, Inhabited

end Signature

end CommandScript
