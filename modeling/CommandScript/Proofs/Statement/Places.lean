import CommandScript.Proofs.Statement.Passage
import CommandScript.Proofs.Statement.Token

/-!
# What places point at

A place is a line and a column, and a fault of the scanner has one. This file
says what stands there: characters (`Shows`), a text as a bare word or in quotes
(`WrittenAt`), a value (`Value.IsAt`), and for each fault the character or token
that is to blame (`ScanFault.At`). Some faults depend on what comes before, and
then they say how the scanner gets there. A statement that never ends is told
from the others by what comes behind its start: whoever begins to read there
reads on to the end of the script, and no statement ends (`passFrom`).
-/

namespace CommandScript

open Statement (place)

/-! ## Places -/

/-- **What stands at a place** of the lines: these characters, one behind the
other. -/
def Shows (ls : List String) (p : Position) (cs : List Char) : Prop :=
  0 < p.line ∧ 0 < p.column ∧
    ∃ text, ls[p.line - 1]? = some text ∧ cs <+: text.toList.drop (p.column - 1)

/-- A text is written at a place, as a bare word or in quotes. -/
def WrittenAt (ls : List String) (p : Position) (text : String) : Prop :=
  text ≠ "" ∧ Shows ls p text.toList ∨ Shows ls p ('"' :: (text.toList ++ ['"']))

/-- A value is written where it says: a scalar with its text, an array with
its opening parenthesis. -/
def Value.IsAt (ls : List String) : Value → Prop
  | .scalar tag _ text => WrittenAt ls tag.position text
  | .array tag _ => Shows ls tag.position ['(']

/-- A quoted text starts at a place and does not end on its line. -/
def QuoteOpenAt (ls : List String) (p : Position) : Prop :=
  0 < p.line ∧ 0 < p.column ∧ ∃ text rest, ls[p.line - 1]? = some text ∧
    text.toList.drop (p.column - 1) = '"' :: rest ∧ '"' ∉ rest

/-- What a value or an open array begins with at a place: with its name and the
colon behind, or where it has none with itself. -/
def BeginsAt (ls : List String) (p : Position) (t : Tag) : Prop :=
  match t.name with
  | some name => Shows ls p (name.toList ++ [':'])
  | none => t.position = p

namespace Scanner

/-- The passage over lines from a place on, with nothing read before. -/
def passFrom (ls : List String) (p : Position) : Passage :=
  (passLine (ls[p.line - 1]?.getD "") p.line (p.column - 1) {}).followedBy
    (passLines (ls.drop p.line) p.line)

/-- **A value without a name behind one with a name**: it is at the place, and
the other is in the innermost frame, which it would have gone into. -/
def Misplaced (ls : List String) (frames : List Frame) (p : Position) : Prop :=
  ∃ (v w : Value) (f : Frame) (outer : List Frame), v.position = p ∧ v.IsAt ls ∧ v.name = none ∧
    frames = f :: outer ∧ w ∈ f.items ∧ w.IsAt ls ∧ w.name.isSome = true

/-- **A first value that is no command word**: it is at the place, has a name or
is an array, and is what the statement that starts at the other place begins
with. -/
def Uncommanded (ls : List String) (start p : Position) : Prop :=
  ∃ v : Value, v.position = p ∧ v.IsAt ls ∧ (v.name.isSome = true ∨ v.items?.isSome = true) ∧
    BeginsAt ls start v.tag

end Scanner

/-- **Where a fault is**: at the offending character or token. Where that depends
on what comes before, whoever begins to read at the start of the statement stops
at this fault. -/
def ScanFault.At (ls : List String) (p : Position) : ScanFault → Prop
  | .unexpectedCharacter c column =>
    CharClass.of c = .other ∧ column = p.column ∧ Shows ls p [c]
  | .unterminatedText => QuoteOpenAt ls p
  | .unterminatedStatement =>
    (∃ c, Shows ls p [c]) ∧
      Scanner.passFrom ls p = ⟨[], .error ⟨.unterminatedStatement, p⟩ {}⟩
  | .positionalAfterNamed => ∃ a t, Scanner.Misplaced ls t.frames p ∧
    Scanner.passFrom ls a = ⟨[], .error ⟨.positionalAfterNamed, p⟩ t⟩
  | .noCommandWord => ∃ a t, Scanner.Uncommanded ls a p ∧
    Scanner.passFrom ls a = ⟨[], .error ⟨.noCommandWord, p⟩ t⟩
  | .nestedTooDeep | .arrayLeftOpen => Shows ls p ['(']
  | .unbalancedClose => Shows ls p [')']
  | .nameWithoutValue name => name ≠ "" ∧ Shows ls p (name.toList ++ [':'])
  | .alreadyNamed _ | .colonWithoutName => Shows ls p [':']
  | .lostRoot | .rootOutOfBounds => False

variable {ls : List String} {p : Position} {c : Char} {cs : List Char} {text : String}

/-- Where characters stand, the first of them does. -/
theorem Shows.head (h : Shows ls p (c :: cs)) : Shows ls p [c] := by
  obtain ⟨hline, hcolumn, text, htext, hcs⟩ := h
  exact ⟨hline, hcolumn, text, htext, (List.prefix_append [c] cs).trans hcs⟩

theorem Shows.exists_char (h : Shows ls p cs) (hcs : cs ≠ []) : ∃ c, Shows ls p [c] := by
  cases cs with
  | nil => exact absurd rfl hcs
  | cons c cs => exact ⟨c, h.head⟩

/-- Where a text is written there is a character. -/
theorem WrittenAt.exists_char (h : WrittenAt ls p text) : ∃ c, Shows ls p [c] := by
  rcases h with ⟨hne, h⟩ | h
  · exact h.exists_char fun hnil => hne (String.toList_eq_nil_iff.1 hnil)
  · exact h.exists_char (List.cons_ne_nil _ _)

theorem Value.IsAt.exists_char {v : Value} (h : v.IsAt ls) : ∃ c, Shows ls v.position [c] := by
  cases v with
  | scalar tag kind text => exact WrittenAt.exists_char h
  | array tag items => exact ⟨'(', h⟩

/-- A value under another name is where it was. -/
theorem Value.IsAt.rename {v : Value} (h : v.IsAt ls) (n : Option String) :
    (v.rename n).IsAt ls := by
  cases v with
  | scalar tag kind text => exact h
  | array tag items => exact h

/-- **Where a fault is there is a character.** -/
theorem ScanFault.At.exists_char {fault : ScanFault} (h : fault.At ls p) :
    ∃ c, Shows ls p [c] := by
  cases fault with
  | unexpectedCharacter c column => exact ⟨c, h.2.2⟩
  | unterminatedText =>
    obtain ⟨hline, hcolumn, text, rest, htext, hdrop, -⟩ := h
    exact ⟨'"', hline, hcolumn, text, htext, ⟨rest, hdrop.symm⟩⟩
  | unterminatedStatement => exact h.1
  | positionalAfterNamed =>
    obtain ⟨_, _, ⟨v, _, _, _, rfl, hv, _⟩, _⟩ := h
    exact hv.exists_char
  | noCommandWord =>
    obtain ⟨_, _, ⟨v, rfl, hv, _⟩, _⟩ := h
    exact hv.exists_char
  | nestedTooDeep | arrayLeftOpen => exact ⟨'(', h⟩
  | unbalancedClose => exact ⟨')', h⟩
  | nameWithoutValue name => exact h.2.exists_char (by simp)
  | alreadyNamed _ | colonWithoutName => exact ⟨':', h⟩
  | lostRoot | rootOutOfBounds => exact h.elim

/-- A fault that has a place is one of the text. -/
theorem ScanFault.At.isDefect {fault : ScanFault} (h : fault.At ls p) :
    fault.isDefect = false := by
  cases fault with
  | lostRoot | rootOutOfBounds => exact h.elim
  | _ => rfl

/-! ## Lines -/

/-- A line of the script, neither too far down nor too long to be counted. -/
structure IsLine (ls : List String) (index : Nat) (text : String) : Prop where
  /-- It has so many lines above it. -/
  get : ls[index]? = some text
  /-- Its number is not the last there is. -/
  line : index < Position.last
  /-- Its columns are not the last there are. -/
  columns : text.length < Position.last

variable {index i k : Nat} {rest : List Char}

/-- A character of a line is before its end. -/
theorem lt_length_of_drop (h : text.toList.drop k = c :: rest) : k < text.length := by
  have hlen := congrArg List.length h
  rw [List.length_drop, List.length_cons, String.length_toList] at hlen
  omega

/-- A character further on, fewer are left. -/
theorem drop_succ_of_drop (h : text.toList.drop k = c :: rest) :
    text.toList.drop (k + 1) = rest := by
  rw [← List.drop_drop, h]
  rfl

/-- **Characters from an index on stand at its place.** -/
theorem IsLine.shows (h : IsLine ls index text) (hdrop : text.toList.drop k = cs ++ rest)
    (hcs : cs ≠ []) : Shows ls (place (Position.ordinal index) k) cs := by
  obtain ⟨c, cs, rfl⟩ := List.exists_cons_of_ne_nil hcs
  have hk : k < text.length := lt_length_of_drop hdrop
  have hcolumns := h.columns
  unfold place
  rw [Position.ordinal_of_lt h.line, Position.ordinal_of_lt (by omega)]
  exact ⟨Nat.succ_pos _, Nat.succ_pos _, text, h.get, rest, hdrop.symm⟩

/-- The character at an index stands at its place. -/
theorem IsLine.shows_char (h : IsLine ls index text) (hdrop : text.toList.drop i = c :: rest) :
    Shows ls (place (Position.ordinal index) i) [c] := by
  have htext : text.toList.drop i = [c] ++ rest := hdrop
  exact h.shows htext (List.cons_ne_nil _ _)

end CommandScript
