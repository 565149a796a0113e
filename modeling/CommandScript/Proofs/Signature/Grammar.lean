import CommandScript.Proofs.Signature.Parentheses

/-!
# The grammar of signatures

What a signature means, apart from how it is read:

    signature := '(' params ')' | params
    params    := { [','] param } [',']
    param     := type name [ '=' literal ]
    type      := WORD | '(' params ')'
    name      := WORD | STRING
    literal   := WORD | STRING | '(' { [','] entry } [','] ')'
    entry     := [ (WORD | STRING) ':' ] literal

The relations say which tokens write a literal, a declaration and a list of
declarations. The number is the depth of arrays that may still open,
`maxNesting` of them inside a signature, whose own parentheses do not count.
What declarations stand for depends on the types there are
(`Declaration.expand`), and so does whether they fit together: defaults must
come last, and each must fit all its parameter may be (`Declaration.Fits`).
-/

namespace CommandScript

namespace Signature

/-- **A parameter as it is declared**: a word or declarations in parentheses
as its type, a name, and a literal as its default, if it has one. -/
inductive Declaration where
  | word (type name : String) (default : Option Value)
  | array (inner : List Declaration) (name : String) (default : Option Value)

/-! ## Tokens -/

/-- Where a comma may stand, and does or does not. -/
inductive IsComma : List Token → Prop
  | none : IsComma []
  | one : IsComma [.comma]

/-- A name is a word or a quoted text. -/
inductive IsName : String → Token → Prop
  | word {name : String} : IsName name (.word name)
  | quoted {name : String} : IsName name (.quoted name)

/-- The tokens of the name before an entry, where one stands. -/
inductive IsLabel : Option String → List Token → Prop
  | none : IsLabel none []
  | some {name : String} {t : Token} : IsName name t → IsLabel (some name) [t, .colon]

mutual

/-- **The tokens of a literal.** -/
inductive IsLiteral : Nat → List Token → Value → Prop
  /-- A word, of the kind its text allows. -/
  | word {n : Nat} {w : String} : IsLiteral n [.word w] (Value.word w)
  /-- A quoted text, whatever it looks like. -/
  | quoted {n : Nat} {q : String} : IsLiteral n [.quoted q] (Value.quoted q)
  /-- Entries in parentheses. -/
  | array {n : Nat} {ts : List Token} {vs : List Value} :
      IsEntries n ts vs → IsLiteral (n + 1) (parenTokens ts) (Value.list vs)

/-- **The tokens of entries**: literals, each with a name or without. -/
inductive IsEntries : Nat → List Token → List Value → Prop
  | nil {n : Nat} {cs : List Token} : IsComma cs → IsEntries n cs []
  | cons {n : Nat} {cs ls ts us : List Token} {label : Option String} {v : Value}
      {vs : List Value} :
      IsComma cs → IsLabel label ls → IsLiteral n ts v → IsEntries n us vs →
      IsEntries n (cs ++ (ls ++ (ts ++ us))) (v.rename label :: vs)

end

/-- The tokens of a default, where one stands. -/
inductive IsDefault : Nat → List Token → Option Value → Prop
  | none {n : Nat} : IsDefault n [] none
  | some {n : Nat} {ts : List Token} {v : Value} :
      IsLiteral n ts v → IsDefault n (.equals :: ts) (some v)

mutual

/-- **The tokens of a declaration.** -/
inductive IsParam : Nat → List Token → Declaration → Prop
  | word {n : Nat} {type name : String} {t : Token} {us : List Token} {default : Option Value} :
      IsName name t → IsDefault n us default →
      IsParam n (.word type :: t :: us) (.word type name default)
  | array {n : Nat} {ts us : List Token} {t : Token} {inner : List Declaration} {name : String}
      {default : Option Value} :
      IsParams n ts inner → IsName name t → IsDefault (n + 1) us default →
      IsParam (n + 1) (parenTokens ts ++ t :: us) (.array inner name default)

/-- **The tokens of declarations.** -/
inductive IsParams : Nat → List Token → List Declaration → Prop
  | nil {n : Nat} {cs : List Token} : IsComma cs → IsParams n cs []
  | cons {n : Nat} {cs ts us : List Token} {d : Declaration} {ds : List Declaration} :
      IsComma cs → IsParam n ts d → IsParams n us ds → IsParams n (cs ++ (ts ++ us)) (d :: ds)

end

/-- **The tokens of a signature**: declarations as they stand or in
parentheses. -/
inductive IsSignature : List Token → List Declaration → Prop
  | bare {ts : List Token} {ds : List Declaration} :
      IsParams maxNesting ts ds → IsSignature ts ds
  | wrapped {ts : List Token} {ds : List Declaration} :
      IsParams maxNesting ts ds → IsSignature (parenTokens ts) ds

/-! ## Meaning -/

namespace Declaration

/-- The literal that is the default. -/
def default? : Declaration → Option Value
  | word _ _ default => default
  | array _ _ default => default

/-- What a word in type position asks for, under a name: a scalar of a
primitive kind, an array for each overload of a named type, or else a scalar
of an unknown kind. -/
def named (types : NamedTypes) (type name : String) : List Param :=
  match Kind.ofWord type with
  | some kind => [.scalar { name } kind]
  | none =>
    match types type with
    | some overloads => overloads.map fun s => .array { name, typeName := some type } s.params
    | none => [.scalar { name } (.unknown type)]

/-- The parameter with what a literal is to it as its default, unless the
literal does not fit. -/
def give (default : Option Value) (p : Param) : Option Param :=
  match default with
  | none => some p
  | some v => (v.resolve p).map fun d => p.withDefault d.detach

mutual

/-- What a declaration may stand for, its default aside. -/
def shapes (types : NamedTypes) : Declaration → List Param
  | word type name _ => named types type name
  | array inner name _ => (expand types inner).map (.array { name })

/-- **The parameter lists that declarations stand for**, the first parameter
varying slowest. -/
def expand (types : NamedTypes) : List Declaration → List (List Param)
  | [] => [[]]
  | d :: ds =>
    ((shapes types d).filterMap (give d.default?)).flatMap fun p =>
      (expand types ds).map (p :: ·)

end

/-- Behind a declaration with a default, all have one. -/
def DefaultsLast (ds : List Declaration) : Prop :=
  ds.Pairwise fun d e => d.default?.isSome = true → e.default?.isSome = true

/-- The default fits all that the parameter may be. -/
def DefaultFits (types : NamedTypes) (d : Declaration) : Prop :=
  ∀ v, d.default? = some v → ∀ p ∈ d.shapes types, (v.resolve p).isSome = true

/-- **A declaration whose defaults fit**, and come last in every list inside
it. -/
inductive Fits (types : NamedTypes) : Declaration → Prop
  | word {type name : String} {default : Option Value} :
      DefaultFits types (.word type name default) → Fits types (.word type name default)
  | array {inner : List Declaration} {name : String} {default : Option Value} :
      (∀ d ∈ inner, Fits types d) → DefaultsLast inner →
      DefaultFits types (.array inner name default) → Fits types (.array inner name default)

end Declaration

variable {n : Nat} {cs ls ts us : List Token} {label : Option String} {v : Value}
  {vs : List Value} {default : Option Value} {d : Declaration} {ds : List Declaration}

/-! ## Parentheses -/

theorem IsComma.balanced (h : IsComma cs) : Balanced 0 cs := by
  cases h with
  | none => exact .nil
  | one => exact Balanced.nil.cons (by simp) (by simp)

theorem IsName.balanced {name : String} {t : Token} (h : IsName name t) (hts : Balanced n ts) :
    Balanced n (t :: ts) := by
  cases h with
  | word => exact hts.cons (by simp) (by simp)
  | quoted => exact hts.cons (by simp) (by simp)

theorem IsLabel.balanced (h : IsLabel label ls) : Balanced 0 ls := by
  cases h with
  | none => exact .nil
  | some hname => exact hname.balanced (Balanced.nil.cons (by simp) (by simp))

mutual

/-- The parentheses of a literal match, and open no deeper than there is
room. -/
theorem IsLiteral.balanced : ∀ {n : Nat} {ts : List Token} {v : Value},
    IsLiteral n ts v → ∃ m, m ≤ n ∧ Balanced m ts
  | n, _, _, .word => ⟨0, n.zero_le, Balanced.nil.cons (by simp) (by simp)⟩
  | n, _, _, .quoted => ⟨0, n.zero_le, Balanced.nil.cons (by simp) (by simp)⟩
  | _, _, _, .array hvs => by
    obtain ⟨m, hle, hm⟩ := hvs.balanced
    exact ⟨m + 1, Nat.succ_le_succ hle, hm.parens⟩

theorem IsEntries.balanced : ∀ {n : Nat} {ts : List Token} {vs : List Value},
    IsEntries n ts vs → ∃ m, m ≤ n ∧ Balanced m ts
  | n, _, _, .nil hc => ⟨0, n.zero_le, hc.balanced⟩
  | _, _, _, .cons hc hl hv hvs => by
    obtain ⟨m, hle, hm⟩ := hv.balanced
    obtain ⟨k, hle', hk⟩ := hvs.balanced
    exact ⟨_, by omega, hc.balanced.append (hl.balanced.append (hm.append hk))⟩

end

theorem IsDefault.balanced (h : IsDefault n ts default) : ∃ m, m ≤ n ∧ Balanced m ts := by
  cases h with
  | none => exact ⟨0, n.zero_le, .nil⟩
  | some hv =>
    obtain ⟨m, hle, hm⟩ := hv.balanced
    exact ⟨m, hle, hm.cons (by simp) (by simp)⟩

mutual

theorem IsParam.balanced : ∀ {n : Nat} {ts : List Token} {d : Declaration},
    IsParam n ts d → ∃ m, m ≤ n ∧ Balanced m ts
  | _, _, _, .word hname hdefault => by
    obtain ⟨m, hle, hm⟩ := hdefault.balanced
    exact ⟨m, hle, (hname.balanced hm).cons (by simp) (by simp)⟩
  | _, _, _, .array hinner hname hdefault => by
    obtain ⟨k, hle, hk⟩ := hinner.balanced
    obtain ⟨m, hle', hm⟩ := hdefault.balanced
    exact ⟨_, by omega, hk.parens.append (hname.balanced hm)⟩

/-- **The parentheses of declarations match**, and open no deeper than there
is room. -/
theorem IsParams.balanced : ∀ {n : Nat} {ts : List Token} {ds : List Declaration},
    IsParams n ts ds → ∃ m, m ≤ n ∧ Balanced m ts
  | n, _, _, .nil hc => ⟨0, n.zero_le, hc.balanced⟩
  | _, _, _, .cons hc hd hds => by
    obtain ⟨m, hle, hm⟩ := hd.balanced
    obtain ⟨k, hle', hk⟩ := hds.balanced
    exact ⟨_, by omega, hc.balanced.append (hm.append hk)⟩

end

/-- The parentheses of a signature match: its own, and those inside. -/
theorem IsSignature.balanced (h : IsSignature ts ds) : ∃ m, m ≤ maxNesting + 1 ∧ Balanced m ts := by
  cases h with
  | bare hds =>
    obtain ⟨m, hle, hm⟩ := hds.balanced
    exact ⟨m, Nat.le_succ_of_le hle, hm⟩
  | wrapped hds =>
    obtain ⟨m, hle, hm⟩ := hds.balanced
    exact ⟨m + 1, Nat.succ_le_succ hle, hm.parens⟩

/-! ## Commas between -/

/-- **The tokens of an entry**: a literal, with a name or without. -/
inductive IsEntry : Nat → List Token → Value → Prop
  | mk {n : Nat} {ls ts : List Token} {label : Option String} {v : Value} :
      IsLabel label ls → IsLiteral n ts v → IsEntry n (ls ++ ts) (v.rename label)

/-- One entry more. -/
theorem IsEntries.cons_entry (hc : IsComma cs) (h : IsEntry n ts v) (hvs : IsEntries n us vs) :
    IsEntries n (cs ++ (ts ++ us)) (v :: vs) := by
  cases h with
  | mk hl hv =>
    rw [List.append_assoc]
    exact .cons hc hl hv hvs

theorem isComma_of_eq (h : cs = [] ∨ cs = [.comma]) : IsComma cs := by
  rcases h with rfl | rfl
  · exact .none
  · exact .one

/-- **Entries are written with commas between**, if each is written. -/
theorem IsEntries.commas {α : Type} {xs : List α} {f : α → List Token} {g : α → Value} :
    (∀ x ∈ xs, IsEntry n (f x) (g x)) → IsEntries n (commaTokens (xs.map f)) (xs.map g) := by
  refine commaTokens_induction (f := f)
    (P := fun xs ts => (∀ x ∈ xs, IsEntry n (f x) (g x)) → IsEntries n ts (xs.map g))
    (fun _ => .nil .none) (fun hcs ih h => ?_) xs
  obtain ⟨hx, hxs⟩ := List.forall_mem_cons.1 h
  exact .cons_entry (isComma_of_eq hcs) hx (ih hxs)

/-- **Declarations are written with commas between**, if each is written. -/
theorem IsParams.commas {α : Type} {xs : List α} {f : α → List Token} {g : α → Declaration} :
    (∀ x ∈ xs, IsParam n (f x) (g x)) → IsParams n (commaTokens (xs.map f)) (xs.map g) := by
  refine commaTokens_induction (f := f)
    (P := fun xs ts => (∀ x ∈ xs, IsParam n (f x) (g x)) → IsParams n ts (xs.map g))
    (fun _ => .nil .none) (fun hcs ih h => ?_) xs
  obtain ⟨hx, hxs⟩ := List.forall_mem_cons.1 h
  exact .cons (isComma_of_eq hcs) hx (ih hxs)

/-! ## First tokens -/

/-- Whether a literal or a declaration may start with the token. -/
def Token.begins : Token → Bool
  | .word _ | .quoted _ | .openParen => true
  | _ => false

theorem IsName.begins {name : String} {t : Token} (h : IsName name t) : t.begins = true := by
  cases h <;> rfl

theorem IsLiteral.exists_head (h : IsLiteral n ts v) :
    ∃ t more, ts = t :: more ∧ t.begins = true := by
  cases h with
  | word => exact ⟨_, _, rfl, rfl⟩
  | quoted => exact ⟨_, _, rfl, rfl⟩
  | array => exact ⟨_, _, rfl, rfl⟩

theorem IsLiteral.length_pos (h : IsLiteral n ts v) : 0 < ts.length := by
  obtain ⟨t, more, rfl, -⟩ := h.exists_head
  exact Nat.succ_pos _

theorem IsParam.exists_head (h : IsParam n ts d) : ∃ t more, ts = t :: more ∧ t.begins = true := by
  cases h with
  | word => exact ⟨_, _, rfl, rfl⟩
  | array => exact ⟨_, _, rfl, rfl⟩

/-- The first token of an entry, whether or not it has a name. -/
theorem IsLabel.exists_head (h : IsLabel label ls) (hv : IsLiteral n ts v) :
    ∃ t more, ls ++ ts = t :: more ∧ t.begins = true := by
  cases h with
  | none => exact hv.exists_head
  | some hname => exact ⟨_, _, rfl, hname.begins⟩

theorem ne_of_begins {t : Token} (h : t.begins = true) : t ≠ .comma ∧ t ≠ .closeParen := by
  constructor
  · rintro rfl
    cases h
  · rintro rfl
    cases h

/-- **What may stand behind** a literal or a declaration: nothing that could
still belong to it. -/
def Separate (us : List Token) : Prop :=
  us.head? ≠ some .colon ∧ us.head? ≠ some .equals

theorem separate_of_begins {t : Token} (h : t.begins = true) : Separate (t :: us) := by
  constructor
  · rintro ⟨⟩
    cases h
  · rintro ⟨⟩
    cases h

theorem IsComma.separate (h : IsComma cs) (hus : Separate us) : Separate (cs ++ us) := by
  cases h with
  | none => exact hus
  | one => exact ⟨by simp, by simp⟩

/-- Entries are separate from what is before them. -/
theorem IsEntries.separate (h : IsEntries n ts vs) (hus : Separate us) : Separate (ts ++ us) := by
  cases h with
  | nil hc => exact hc.separate hus
  | @cons _ cs ls ts ts' _ _ _ hc hl hv hvs =>
    obtain ⟨t, more, hhead, ht⟩ := hl.exists_head hv
    have htoks : cs ++ (ls ++ (ts ++ ts')) ++ us = cs ++ (ls ++ ts ++ (ts' ++ us)) := by
      simp only [List.append_assoc]
    rw [htoks, hhead]
    exact hc.separate (separate_of_begins ht)

/-- Declarations are separate from what is before them. -/
theorem IsParams.separate (h : IsParams n ts ds) (hus : Separate us) : Separate (ts ++ us) := by
  cases h with
  | nil hc => exact hc.separate hus
  | cons hc hd hds =>
    obtain ⟨t, more, rfl, ht⟩ := hd.exists_head
    rw [List.append_assoc]
    exact hc.separate (separate_of_begins ht)

end Signature

end CommandScript
