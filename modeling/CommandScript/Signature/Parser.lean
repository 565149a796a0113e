import CommandScript.Binding
import CommandScript.Signature.Lexer

/-!
# Reading signatures

A signature is a list of parameters, in parentheses or not:

    signature := '(' params ')' | params
    params    := { [','] param } [',']
    param     := type name [ '=' literal ]
    type      := WORD | '(' params ')'
    name      := WORD | STRING
    literal   := WORD | STRING | '(' { [','] entry } [','] ')'
    entry     := [ (WORD | STRING) ':' ] literal

A word in type position is a primitive kind, the name of a type, or else an
unknown kind. A type with several overloads makes as many signatures of one,
so reading gives a list of them. A default is read without regard to its
parameter and then resolved against it, and no parameter without a default
may follow one with a default.
-/

namespace CommandScript

namespace Signature

/-- The overloads of a named type, if a type has the name. -/
abbrev NamedTypes := String → Option (List Signature)

/-- What a signature is read against. -/
structure Reader where
  /-- The types that words may name. -/
  types : NamedTypes
  /-- The column behind the last character. -/
  endColumn : Nat

/-- What a step reads, and the tokens it leaves. -/
abbrev Parsed (α : Type) := α × List Placed

/-- Leaves out one comma. -/
def skipComma : List Placed → List Placed
  | ⟨.comma, _⟩ :: rest => rest
  | rest => rest

namespace Reader

variable (r : Reader)

/-- The column of the next token, or the one behind the signature. -/
def column : List Placed → Nat
  | [] => r.endColumn
  | t :: _ => t.column

/-! ## Defaults -/

/-- One literal, given how the entries of an array are read. The number is
the depth of arrays that may still open. -/
def literalWith (entries : Nat → List Placed → Except ParseError (Parsed (List Value))) (room : Nat) :
    List Placed → Except ParseError (Parsed Value)
  | [] => .error ⟨r.endColumn, .expectedDefault none⟩
  | ⟨.word w, _⟩ :: rest => .ok (Value.word w, rest)
  | ⟨.quoted q, _⟩ :: rest => .ok (Value.quoted q, rest)
  | ⟨.openParen, column⟩ :: rest =>
    match room with
    | 0 => .error ⟨column, .nestedTooDeep⟩
    | room + 1 => (entries room rest).map fun read => (Value.list read.1, read.2)
  | ⟨token, column⟩ :: _ => .error ⟨column, .expectedDefault (some token)⟩

/-- The name of an entry, where one stands. -/
def takeLabel : List Placed → Option String × List Placed
  | ⟨.word w, _⟩ :: ⟨.colon, _⟩ :: rest => (some w, rest)
  | ⟨.quoted q, _⟩ :: ⟨.colon, _⟩ :: rest => (some q, rest)
  | rest => (none, rest)

/-- The entries of an array literal up to its closing parenthesis. Every
entry takes a token at least, so that the number of tokens bounds the calls,
which the first argument counts. -/
def entries : Nat → Nat → List Placed → Except ParseError (Parsed (List Value))
  | 0, _, _ => .error ⟨r.endColumn, .defaultLeftOpen⟩
  | calls + 1, room, toks =>
    match skipComma toks with
    | [] => .error ⟨r.endColumn, .defaultLeftOpen⟩
    | ⟨.closeParen, _⟩ :: rest => .ok ([], rest)
    | toks => do
      let (label, toks) := takeLabel toks
      let (v, toks) ← r.literalWith (entries calls) room toks
      let (vs, toks) ← entries calls room toks
      pure (v.rename label :: vs, toks)

/-- One literal. -/
def literal (room : Nat) (toks : List Placed) : Except ParseError (Parsed Value) :=
  r.literalWith (r.entries toks.length) room toks

/-! ## Parameters -/

/-- What a word in type position asks for, under a name yet to be given: one
parameter for each overload of a named type, and otherwise a scalar. -/
def shapes (word name : String) : List Param :=
  match Kind.ofWord word with
  | some k => [.scalar { name } k]
  | none =>
    match r.types word with
    | some overloads => overloads.map fun s => .array { name, typeName := some word } s.params
    | none => [.scalar { name } (.unknown word)]

/-- The type of a parameter, given how the parameters of an array are read:
for each name, the parameters it may stand for. -/
def typeWith (params : Nat → List Placed → Except ParseError (Parsed (List (List Param)))) (room : Nat)
    (rest : List Placed) : Placed → Except ParseError (Parsed (String → List Param))
  | ⟨.word w, _⟩ => .ok (r.shapes w, rest)
  | ⟨.openParen, column⟩ =>
    match room with
    | 0 => .error ⟨column, .nestedTooDeep⟩
    | room + 1 =>
      (params room rest).map fun read => (fun name => read.1.map (.array { name }), read.2)
  | ⟨token, column⟩ => .error ⟨column, .expectedType token⟩

/-- The name of a parameter. -/
def name : List Placed → Except ParseError (Parsed String)
  | ⟨.word w, _⟩ :: rest => .ok (w, rest)
  | ⟨.quoted q, _⟩ :: rest => .ok (q, rest)
  | toks => .error ⟨r.column toks, .expectedName⟩

/-- The parameters with a literal as their default, which must fit each. -/
def withDefaults (column : Nat) (literal : Value) : List Param → Except ParseError (List Param)
  | [] => .ok []
  | p :: ps =>
    match literal.resolve p with
    | none => .error ⟨column, .unfitDefault literal.render p.render⟩
    | some v => (withDefaults column literal ps).map (p.withDefault v.detach :: ·)

/-- The default of a parameter, where one stands, given to all it may be. -/
def defaults (room : Nat) (ps : List Param) : List Placed → Except ParseError (Parsed (List Param))
  | ⟨.equals, _⟩ :: toks => do
    let (v, rest) ← r.literal room toks
    let ps ← withDefaults (r.column toks) v ps
    pure (ps, rest)
  | toks => .ok (ps, toks)

/-- **Whether a parameter may stand behind** one that has a default, and the
name of the last parameter with a default up to it. -/
def trailing (column : Nat) (earlier : Option String) (ps : List Param) :
    Except ParseError (Option String) :=
  match ps.head?, earlier with
  | none, _ => .ok earlier
  | some p, none => .ok (if p.isOptional then some p.name else none)
  | some p, some e =>
    if p.isOptional then .ok (some p.name) else .error ⟨column, .neededDefault p.name e⟩

/-- The parameters up to the closing parenthesis or, outside parentheses, to
the end: all the lists they may stand for, the first parameter varying
slowest. Every parameter takes a token at least, so that the number of tokens
bounds the calls, which the first argument counts. -/
def params : Nat → Bool → Nat → Option String → List Placed → Except ParseError (Parsed (List (List Param)))
  | 0, _, _, _, _ => .error ⟨r.endColumn, .expectedClose⟩
  | calls + 1, nested, room, earlier, toks =>
    match skipComma toks, nested with
    | [], false => .ok ([[]], [])
    | [], true => .error ⟨r.endColumn, .expectedClose⟩
    | ⟨.closeParen, _⟩ :: rest, true => .ok ([[]], rest)
    | t :: rest, _ => do
      let (type, rest) ← r.typeWith (fun room toks => params calls true room none toks) room rest t
      let (name, rest) ← r.name rest
      let (ps, rest) ← r.defaults room (type name) rest
      let earlier ← trailing t.column earlier ps
      let (tails, rest) ← params calls nested room earlier rest
      pure (ps.flatMap fun p => tails.map (p :: ·), rest)

end Reader

/-! ## Signatures -/

/-- Whether the parenthesis that is open in these tokens, together with so
many others inside it, closes with the last of them. -/
def closesLast : Nat → List Placed → Bool
  | _, [] => false
  | depth, ⟨.openParen, _⟩ :: rest => closesLast (depth + 1) rest
  | 0, ⟨.closeParen, _⟩ :: rest => rest.isEmpty
  | depth + 1, ⟨.closeParen, _⟩ :: rest => closesLast depth rest
  | depth, _ :: rest => closesLast depth rest

/-- The parameter lists of a signature. A leading parenthesis belongs to the
signature if its partner is the last token, and otherwise to the type of the
first parameter. -/
def paramLists (r : Reader) (toks : List Placed) : Except ParseError (List (List Param)) :=
  let read :=
    match toks with
    | ⟨.openParen, _⟩ :: rest =>
      if closesLast 0 rest then r.params toks.length true maxNesting none rest
      else r.params (toks.length + 1) false maxNesting none toks
    | _ => r.params (toks.length + 1) false maxNesting none toks
  read.map Prod.fst

/-- **The signatures that a text stands for**, one for each choice among the
overloads of the types it names. -/
def parse (types : NamedTypes) (source : String) : Except Diagnostic (List Signature) :=
  let r : Reader := ⟨types, Position.ordinal source.length⟩
  match tokens source >>= paramLists r with
  | .ok lists => .ok (lists.map fun ps => ⟨ps⟩)
  | .error e => .error ⟨.signature source e.column e.fault, none⟩

end Signature

end CommandScript
