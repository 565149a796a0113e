import CommandScript.Diagnostic
import CommandScript.Text.Alphanumeric
import CommandScript.Text.Blank

/-!
# Reading the tokens of a signature

Blanks separate and mean nothing else. A word is a run of word characters,
as long as possible; a quoted text runs to the next quote, over line ends
too. Columns count characters from the start of the signature.
-/

namespace CommandScript

namespace Signature

/-- A fault in a signature and its column. -/
structure ParseError where
  /-- The column, from one. -/
  column : Nat
  /-- What is wrong. -/
  fault : SignatureFault
deriving DecidableEq

/-- The token being read, if any, with the column where it started. -/
inductive Lexing where
  | between
  | word (text : String) (column : Nat)
  | quoted (text : String) (column : Nat)

/-- The token that a mark is. -/
def Token.ofMark : Char → Option Token
  | '(' => some openParen
  | ')' => some closeParen
  | ',' => some comma
  | ':' => some colon
  | '=' => some equals
  | _ => none

/-- What a character makes that continues no token: a mark, or the start of a
word or a quoted text. Blanks make nothing. -/
def Lexing.start (column : Nat) (c : Char) : Except ParseError (List Placed × Lexing) :=
  if Text.isBlank c then .ok ([], between)
  else
    match Token.ofMark c with
    | some t => .ok ([⟨t, column⟩], between)
    | none =>
      if c = '"' then .ok ([], quoted "" column)
      else if Text.isWordChar c then .ok ([], word c.toString column)
      else .error ⟨column, .unexpectedCharacter c⟩

/-- The tokens that a character completes, and what is being read behind
it. -/
def Lexing.next (column : Nat) (c : Char) : Lexing → Except ParseError (List Placed × Lexing)
  | between => start column c
  | word w origin =>
    if Text.isWordChar c then .ok ([], word (w.push c) origin)
    else (start column c).map fun made => (⟨.word w, origin⟩ :: made.1, made.2)
  | quoted q origin =>
    if c = '"' then .ok ([⟨.quoted q, origin⟩], between)
    else .ok ([], quoted (q.push c) origin)

/-- The tokens that the end of the text completes. -/
def Lexing.finish : Lexing → Except ParseError (List Placed)
  | between => .ok []
  | word w origin => .ok [⟨.word w, origin⟩]
  | quoted _ origin => .error ⟨origin, .unterminatedText⟩

/-- The tokens of the characters, with so many characters before them. -/
def lexChars : List Char → Nat → Lexing → Except ParseError (List Placed)
  | [], _, state => state.finish
  | c :: rest, i, state => do
    let (made, state) ← state.next (Position.ordinal i) c
    let later ← lexChars rest (i + 1) state
    pure (made ++ later)

/-- **The tokens of a written signature**, or the first character that is
part of none. -/
def tokens (source : String) : Except ParseError (List Placed) :=
  lexChars source.toList 0 .between

end Signature

end CommandScript
