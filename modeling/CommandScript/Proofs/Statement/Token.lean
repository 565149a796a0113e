import CommandScript.Proofs.Text.Word
import CommandScript.Statement.Scanner
import CommandScript.Text.Lines
import Mathlib.Tactic.ByContra

/-!
# The tokens of a script

What a script is written in, apart from how it is read: words, names, quoted
texts, parentheses and semicolons. A name is a run of word characters with a
colon right behind it, and a word is any other run; runs are as long as
possible. Blanks and commas separate, `#` hides the rest of its line, and a
quoted text ends on the line it starts on. Whatever else a line holds, it
has no tokens. The tokens of a script are those of its lines, so that a line
end does no more than separate.
-/

namespace CommandScript

namespace Statement

/-- A token of a script. -/
inductive Token where
  | word (text : String)
  | name (text : String)
  | quoted (text : String)
  | openParen
  | closeParen
  | semicolon
deriving DecidableEq

/-- A token and the place where it starts. -/
structure Placed where
  /-- The token. -/
  token : Token
  /-- The place of its first character. -/
  position : Position
deriving DecidableEq

/-- The token that a mark is. -/
def Token.ofMark : Char → Option Token
  | '(' => some openParen
  | ')' => some closeParen
  | ';' => some semicolon
  | _ => none

/-- The place of the character with so many others before it on its line. -/
def place (line i : Nat) : Position :=
  ⟨line, Position.ordinal i⟩

/-- **The tokens of characters of a line**, with so many characters before
them. -/
inductive LineTokens (line : Nat) : Nat → List Char → List Placed → Prop
  /-- The line has ended. -/
  | nil {i : Nat} : LineTokens line i [] []
  /-- The rest of the line is a comment. -/
  | comment {i : Nat} {rest : List Char} : LineTokens line i ('#' :: rest) []
  /-- A blank or a comma separates. -/
  | separator {i : Nat} {c : Char} {rest : List Char} {ts : List Placed} :
      Text.isBlank c = true ∨ c = ',' → LineTokens line (i + 1) rest ts →
      LineTokens line i (c :: rest) ts
  /-- A parenthesis or a semicolon. -/
  | mark {i : Nat} {c : Char} {rest : List Char} {t : Token} {ts : List Placed} :
      Token.ofMark c = some t → LineTokens line (i + 1) rest ts →
      LineTokens line i (c :: rest) (⟨t, place line i⟩ :: ts)
  /-- A quoted text runs to the next quote. -/
  | quoted {i : Nat} {q rest : List Char} {ts : List Placed} :
      '"' ∉ q → LineTokens line (i + q.length + 2) rest ts →
      LineTokens line i ('"' :: (q ++ '"' :: rest))
        (⟨.quoted (String.ofList q), place line i⟩ :: ts)
  /-- A run with a colon right behind it is a name. -/
  | name {i : Nat} {w rest : List Char} {ts : List Placed} :
      Text.IsRun w → LineTokens line (i + w.length + 1) rest ts →
      LineTokens line i (w ++ ':' :: rest) (⟨.name (String.ofList w), place line i⟩ :: ts)
  /-- Any other run that cannot be longer is a word. -/
  | word {i : Nat} {w rest : List Char} {ts : List Placed} :
      Text.IsRun w → (∀ c ∈ rest.head?, Text.isWordChar c = false ∧ c ≠ ':') →
      LineTokens line (i + w.length) rest ts →
      LineTokens line i (w ++ rest) (⟨.word (String.ofList w), place line i⟩ :: ts)

/-- The tokens of lines, the first of which has the index given. -/
inductive LinesTokens : Nat → List String → List Placed → Prop
  | nil {index : Nat} : LinesTokens index [] []
  | cons {index : Nat} {text : String} {rest : List String} {ts us : List Placed} :
      LineTokens (Position.ordinal index) 0 text.toList ts → LinesTokens (index + 1) rest us →
      LinesTokens index (text :: rest) (ts ++ us)

/-- **The tokens of a script.** A script that is not made of tokens has
none. -/
def Tokens (source : String) (ts : List Placed) : Prop :=
  LinesTokens 0 (Text.lines source) ts

end Statement

namespace CharClass

/-! ## What the classes hold -/

/-- A blank is none of the marks. -/
theorem ne_of_isBlank {c d : Char} (h : Text.isBlank c = true)
    (hd : d ∈ ['"', '#', ';', '(', ')', ':']) : c ≠ d := by
  have hall : ['"', '#', ';', '(', ')', ':'].all (!Text.isBlank ·) = true := by decide
  rintro rfl
  have hno := List.all_eq_true.1 hall c hd
  rw [h] at hno
  cases hno

theorem of_eq_word_iff {c : Char} : of c = word ↔ Text.isWordChar c = true := by
  constructor
  · fun_cases of c with
    | case8 _ _ _ _ _ _ _ hw => exact fun _ => hw
    | _ => simp
  · intro h
    have hb : Text.isBlank c = false := by
      by_contra hb
      rw [Bool.not_eq_false] at hb
      rw [Text.isWordChar_of_isBlank hb] at h
      cases h
    have hne := fun d => Text.ne_of_isWordChar (d := d) h
    simp only [List.mem_cons, List.not_mem_nil, or_false, forall_eq_or_imp, forall_eq] at hne
    unfold of
    simp [hne, hb, h]

theorem of_eq_separator_iff {c : Char} : of c = separator ↔ Text.isBlank c = true ∨ c = ',' := by
  constructor
  · fun_cases of c with
    | case7 _ _ _ _ _ _ hs => exact fun _ => by simpa using hs
    | _ => simp
  · rintro (h | rfl)
    · have hne := fun d => ne_of_isBlank (d := d) h
      simp only [List.mem_cons, List.not_mem_nil, or_false, forall_eq_or_imp, forall_eq] at hne
      unfold of
      simp [hne, h]
    · rfl

/-- The classes of one character hold no other. -/
theorem eq_of_mark {c : Char} :
    (of c = quote → c = '"') ∧ (of c = comment → c = '#') ∧ (of c = terminator → c = ';') ∧
      (of c = openParen → c = '(') ∧ (of c = closeParen → c = ')') ∧ (of c = colon → c = ':') := by
  fun_cases of c <;> simp_all

end CharClass

end CommandScript
