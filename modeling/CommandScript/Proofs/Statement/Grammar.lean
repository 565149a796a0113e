import CommandScript.Proofs.Statement.Token

/-!
# The grammar of scripts

What a script means, apart from how it is read:

    script := { [ head args ] ';' }
    head   := WORD | STRING
    args   := { value } { NAME value }
    value  := WORD | STRING | '(' args ')'

The relations say which tokens a value, a list of arguments and a script are
derived from, and with the tokens which tree: a word has the kind its text
allows, a quoted text is a string, an array holds its arguments in order,
and a value behind a name carries the name. The number is the depth of
arrays that may still open, `maxNesting` of them outside all.
-/

namespace CommandScript

namespace Statement

mutual

/-- **The tokens of a value.** -/
inductive IsValue : Nat → List Placed → Value → Prop
  /-- A word, of the kind its text allows. -/
  | word {n : Nat} {w : String} {p : Position} : IsValue n [⟨.word w, p⟩] (Value.word w p)
  /-- A quoted text, whatever it looks like. -/
  | quoted {n : Nat} {q : String} {p : Position} : IsValue n [⟨.quoted q, p⟩] (Value.quoted q p)
  /-- Arguments in parentheses. -/
  | array {n : Nat} {ts : List Placed} {vs : List Value} {p q : Position} :
      IsArguments n ts vs →
      IsValue (n + 1) (⟨.openParen, p⟩ :: (ts ++ [⟨.closeParen, q⟩])) (Value.list vs p)

/-- **The tokens of arguments**: values without names and then values with
names. -/
inductive IsArguments : Nat → List Placed → List Value → Prop
  | positional {n : Nat} {ts us : List Placed} {v : Value} {vs : List Value} :
      IsValue n ts v → IsArguments n us vs → IsArguments n (ts ++ us) (v :: vs)
  | named {n : Nat} {ts : List Placed} {vs : List Value} :
      IsNamed n ts vs → IsArguments n ts vs

/-- The tokens of arguments with names. -/
inductive IsNamed : Nat → List Placed → List Value → Prop
  | nil {n : Nat} : IsNamed n [] []
  | cons {n : Nat} {w : String} {p : Position} {ts us : List Placed} {v : Value}
      {vs : List Value} :
      IsValue n ts v → IsNamed n us vs →
      IsNamed n (⟨.name w, p⟩ :: (ts ++ us)) (v.rename (some w) :: vs)

end

/-- The command word that a token may be. -/
def Token.head? : Token → Option String
  | .word w => some w
  | .quoted q => some q
  | _ => none

/-- Where arguments start: at the first, or at the semicolon behind them. -/
def argumentsStart (terminator : Position) (vs : List Value) : Position :=
  (vs.head?.map Value.position).getD terminator

/-- **The tokens of a script**, and its statements in order. -/
inductive IsScript : List Placed → List Statement → Prop
  | nil : IsScript [] []
  /-- A semicolon with nothing before it makes no statement. -/
  | empty {p : Position} {ts : List Placed} {ss : List Statement} :
      IsScript ts ss → IsScript (⟨.semicolon, p⟩ :: ts) ss
  /-- A command word and its arguments make one. -/
  | statement {head : Token} {name : String} {p q : Position} {us ts : List Placed}
      {vs : List Value} {ss : List Statement} :
      head.head? = some name → IsArguments maxNesting us vs → IsScript ts ss →
      IsScript (⟨head, p⟩ :: (us ++ ⟨.semicolon, q⟩ :: ts))
        (⟨name, p, Value.list vs (argumentsStart q vs)⟩ :: ss)

variable {n : Nat} {ts us : List Placed} {v : Value} {vs : List Value}

/-! ## Names -/

/-- A value gets its name from where it stands, not from its own tokens. -/
theorem IsValue.name_eq_none (h : IsValue n ts v) : v.name = none := by
  cases h <;> rfl

/-- Arguments without values have no tokens. -/
theorem IsArguments.eq_nil (h : IsArguments n ts []) : ts = [] := by
  cases h with
  | named h =>
    cases h
    rfl

/-- No argument of the named part lacks a name. -/
theorem IsNamed.name_isSome : ∀ {ts : List Placed} {vs : List Value}, IsNamed n ts vs →
    ∀ v ∈ vs, v.name.isSome = true
  | _, _, .nil => fun v hv => absurd hv (by simp)
  | _, _, .cons _ h => fun v hv => by
    rcases List.mem_cons.1 hv with rfl | hv
    · rw [Value.name_rename]
      rfl
    · exact h.name_isSome v hv

/-! ## One more argument -/

/-- Arguments the last of which has no name go on with a value without
one. -/
theorem IsArguments.snoc_positional : ∀ {ts : List Placed} {vs : List Value},
    IsArguments n ts vs → IsValue n us v → (∀ w ∈ vs.getLast?, w.name = none) →
      IsArguments n (ts ++ us) (vs ++ [v])
  | _, _, @IsArguments.positional _ _ _ _ ws hw h, hv, hlast => by
    have hrest : ∀ x ∈ ws.getLast?, x.name = none := by
      intro x hx
      refine hlast x ?_
      rw [List.getLast?_cons, Option.mem_def.1 hx]
      rfl
    rw [List.append_assoc, List.cons_append]
    exact .positional hw (h.snoc_positional hv hrest)
  | _, _, .named h, hv, hlast => by
    cases h with
    | nil =>
      rw [List.nil_append, ← List.append_nil us]
      exact .positional hv (.named .nil)
    | @cons _ w p ts ts' u ws hu h =>
      -- the last argument is one of the named part, so it has a name
      have hne : u.rename (some w) :: ws ≠ [] := List.cons_ne_nil _ _
      have hnone := hlast _ (List.getLast?_eq_some_getLast hne)
      have hsome := (IsNamed.cons (w := w) (p := p) hu h).name_isSome _ (List.getLast_mem hne)
      rw [hnone] at hsome
      cases hsome

/-- Named arguments go on with a named value. -/
theorem IsNamed.snoc {w : String} {p : Position} : ∀ {ts : List Placed} {vs : List Value},
    IsNamed n ts vs → IsValue n us v →
      IsNamed n (ts ++ ⟨.name w, p⟩ :: us) (vs ++ [v.rename (some w)])
  | _, _, .nil, hv => by
    rw [List.nil_append, List.nil_append, ← List.append_nil us]
    exact .cons hv .nil
  | _, _, .cons hu h, hv => by
    rw [List.cons_append, List.cons_append, List.append_assoc]
    exact .cons hu (h.snoc hv)

/-- Arguments go on with a named value. -/
theorem IsArguments.snoc_named {w : String} {p : Position} : ∀ {ts : List Placed} {vs : List Value},
    IsArguments n ts vs → IsValue n us v →
      IsArguments n (ts ++ ⟨.name w, p⟩ :: us) (vs ++ [v.rename (some w)])
  | _, _, .positional hu h, hv => by
    rw [List.append_assoc, List.cons_append]
    exact .positional hu (h.snoc_named hv)
  | _, _, .named h, hv => .named (h.snoc hv)

end Statement

end CommandScript
