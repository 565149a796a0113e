import CommandScript.Proofs.Signature.Compiled
import CommandScript.Proofs.Signature.Parentheses

/-!
# The tokens of a printed signature

Printing a signature and reading its tokens gives the tokens that the tree
itself spells (`tokens_render`): a type, a name and a default for each
parameter, with commas between. Their parentheses match, and go as deep as
the tree does (`nesting_render`).
-/

namespace CommandScript

namespace Signature

/-! ## Trees in tokens -/

/-- The token of a parameter name, which needs quotes unless it is a run. -/
def nameToken (name : String) : Token :=
  if name ≠ "" ∧ name.toList.all Text.isWordChar then .word name else .quoted name

mutual

/-- **The tokens of a default.** -/
def valueTokens : Value → List Token
  | .scalar _ k s => [if k = .string then .quoted s else .word s]
  | .array _ vs => parenTokens (commaTokens (valuesTokens vs))

/-- The tokens of the items of a default. -/
def valuesTokens : List Value → List (List Token)
  | [] => []
  | v :: vs => valueTokens v :: valuesTokens vs

end

theorem valuesTokens_eq_map (vs : List Value) : valuesTokens vs = vs.map valueTokens := by
  induction vs with
  | nil => rfl
  | cons v vs ih => rw [valuesTokens, ih, List.map_cons]

/-- The tokens behind a parameter name. -/
def defaultTokens : Option Value → List Token
  | none => []
  | some v => .equals :: valueTokens v

mutual

/-- **The tokens of a parameter.** -/
def paramTokens : Param → List Token
  | .scalar h k => .word (h.typeName.getD k.name) :: nameToken h.name :: defaultTokens h.default
  | .array h ps =>
    (match h.typeName with
      | some t => [.word t]
      | none => parenTokens (commaTokens (paramsTokens ps))) ++
      nameToken h.name :: defaultTokens h.default

/-- The tokens of parameters. -/
def paramsTokens : List Param → List (List Token)
  | [] => []
  | p :: ps => paramTokens p :: paramsTokens ps

end

theorem paramsTokens_eq_map (ps : List Param) : paramsTokens ps = ps.map paramTokens := by
  induction ps with
  | nil => rfl
  | cons p ps ih => rw [paramsTokens, ih, List.map_cons]

/-! ## The depth of trees -/

mutual

/-- The number of arrays inside one another in a default. -/
def valueNesting : Value → Nat
  | .scalar _ _ _ => 0
  | .array _ vs => valuesNesting vs + 1

/-- The number of arrays inside one another in the items of a default. -/
def valuesNesting : List Value → Nat
  | [] => 0
  | v :: vs => max (valueNesting v) (valuesNesting vs)

end

/-- The number of arrays inside one another behind a name. -/
def defaultNesting : Option Value → Nat
  | none => 0
  | some v => valueNesting v

mutual

/-- **The number of arrays inside one another as a parameter is printed**:
those of a named type do not show. -/
def paramNesting : Param → Nat
  | .scalar h _ => defaultNesting h.default
  | .array h ps =>
    max (if h.typeName.isSome then 0 else paramsNesting ps + 1) (defaultNesting h.default)

/-- The number of arrays inside one another as parameters are printed. -/
def paramsNesting : List Param → Nat
  | [] => 0
  | p :: ps => max (paramNesting p) (paramsNesting ps)

end

theorem valuesNesting_eq (vs : List Value) :
    valuesNesting vs = (vs.map valueNesting).foldr max 0 := by
  induction vs with
  | nil => rfl
  | cons v vs ih => rw [valuesNesting, ih, List.map_cons, List.foldr_cons]

theorem paramsNesting_eq (ps : List Param) :
    paramsNesting ps = (ps.map paramNesting).foldr max 0 := by
  induction ps with
  | nil => rfl
  | cons p ps ih => rw [paramsNesting, ih, List.map_cons, List.foldr_cons]

theorem valuesNesting_le_iff {vs : List Value} {n : Nat} :
    valuesNesting vs ≤ n ↔ ∀ v ∈ vs, valueNesting v ≤ n := by
  induction vs with
  | nil => simp [valuesNesting]
  | cons v vs ih => rw [valuesNesting, Nat.max_le, ih, List.forall_mem_cons]

theorem paramsNesting_le_iff {ps : List Param} {n : Nat} :
    paramsNesting ps ≤ n ↔ ∀ p ∈ ps, paramNesting p ≤ n := by
  induction ps with
  | nil => simp [paramsNesting]
  | cons p ps ih => rw [paramsNesting, Nat.max_le, ih, List.forall_mem_cons]

mutual

theorem balanced_value : (v : Value) → Balanced (valueNesting v) (valueTokens v)
  | .scalar _ k s => by
    rw [valueTokens, valueNesting]
    split
    · exact Balanced.nil.cons (by simp) (by simp)
    · exact Balanced.nil.cons (by simp) (by simp)
  | .array _ vs => by
    rw [valueTokens, valueNesting, valuesTokens_eq_map, valuesNesting_eq]
    exact (Balanced.commas (balanced_values vs)).parens

theorem balanced_values : (vs : List Value) →
    ∀ v ∈ vs, Balanced (valueNesting v) (valueTokens v)
  | [] => by simp
  | v :: vs => by
    intro u hu
    rcases List.mem_cons.1 hu with hu | hu
    · rw [hu]
      exact balanced_value v
    · exact balanced_values vs u hu

end

theorem balanced_default (d : Option Value) : Balanced (defaultNesting d) (defaultTokens d) := by
  cases d with
  | none => exact Balanced.nil
  | some v => exact (balanced_value v).cons (by simp) (by simp)

/-- A name and a default. -/
theorem balanced_nameToken (name : String) (d : Option Value) :
    Balanced (defaultNesting d) (nameToken name :: defaultTokens d) := by
  unfold nameToken
  split
  · exact (balanced_default d).cons (by simp) (by simp)
  · exact (balanced_default d).cons (by simp) (by simp)

mutual

/-- **The parentheses of a printed parameter match**, and go as deep as the
parameter does. -/
theorem balanced_param : (p : Param) → Balanced (paramNesting p) (paramTokens p)
  | .scalar h k => by
    rw [paramTokens, paramNesting]
    exact (balanced_nameToken h.name h.default).cons (by simp) (by simp)
  | .array h ps => by
    rw [paramTokens, paramNesting]
    refine Balanced.append ?_ (balanced_nameToken h.name h.default)
    cases h.typeName with
    | some t => exact Balanced.nil.cons (by simp) (by simp)
    | none =>
      rw [paramsTokens_eq_map, paramsNesting_eq]
      exact (Balanced.commas (balanced_params ps)).parens

theorem balanced_params : (ps : List Param) →
    ∀ p ∈ ps, Balanced (paramNesting p) (paramTokens p)
  | [] => by simp
  | p :: ps => by
    intro q hq
    rcases List.mem_cons.1 hq with hq | hq
    · rw [hq]
      exact balanced_param p
    · exact balanced_params ps q hq

end

variable {ts us : List Token}

/-! ## Printed trees -/

/-- **A text spells tokens** in front of anything but a word character. -/
def Prints (text : String) (ts : List Token) : Prop :=
  ∀ ⦃rest : List Char⦄ ⦃us : List Token⦄, (∀ c ∈ rest.head?, Text.isWordChar c = false) →
    Spells rest us → Spells (text.toList ++ rest) (ts ++ us)

namespace Prints

variable {a b : String}

theorem word {w : String} (h : Text.IsRun w.toList) : Prints w [.word w] := by
  intro rest us hr hs
  have hword := Spells.word h hr hs
  rw [String.ofList_toList] at hword
  exact hword

theorem quoted {q : String} (h : '"' ∉ q.toList) : Prints ("\"" ++ q ++ "\"") [.quoted q] := by
  intro rest us _ hs
  have hquoted := Spells.quoted h hs
  rw [String.ofList_toList] at hquoted
  have htext : ("\"" ++ q ++ "\"").toList ++ rest = '"' :: (q.toList ++ '"' :: rest) := by simp
  rw [htext]
  exact hquoted

/-- One text, a blank and another. -/
theorem space (ha : Prints a ts) (hb : Prints b us) : Prints (a ++ " " ++ b) (ts ++ us) := by
  intro rest vs hr hs
  have htext : (a ++ " " ++ b).toList ++ rest = a.toList ++ ' ' :: (b.toList ++ rest) := by simp
  rw [htext, List.append_assoc]
  refine ha (fun c hc => ?_) (.blank (by decide) (hb hr hs))
  cases hc
  decide

/-- One text, an equals sign and another. -/
theorem equals (ha : Prints a ts) (hb : Prints b us) :
    Prints (a ++ " = " ++ b) (ts ++ .equals :: us) := by
  intro rest vs hr hs
  have htext : (a ++ " = " ++ b).toList ++ rest =
      a.toList ++ ' ' :: '=' :: ' ' :: (b.toList ++ rest) := by simp
  rw [htext, List.append_assoc]
  refine ha (fun c hc => ?_) (.blank (by decide) (.mark rfl (.blank (by decide) (hb hr hs))))
  cases hc
  decide

/-- Texts with commas between. -/
theorem commas {α : Type} {text : α → String} {f : α → List Token} :
    ∀ {xs : List α}, (∀ x ∈ xs, Prints (text x) (f x)) →
      Prints (", ".intercalate (xs.map text)) (commaTokens (xs.map f)) := by
  intro xs
  induction xs with
  | nil =>
    intro _ rest us _ hs
    exact hs
  | cons x xs ih =>
    intro h
    have hx := h x List.mem_cons_self
    have hxs := ih fun y hy => h y (List.mem_cons_of_mem _ hy)
    cases xs with
    | nil =>
      intro rest us hr hs
      have htoks : commaTokens [f x] = f x := List.append_nil _
      rw [List.map_singleton, List.map_singleton, String.intercalate_singleton, htoks]
      exact hx hr hs
    | cons y ys =>
      intro rest us hr hs
      have htoks : commaTokens ((x :: y :: ys).map f) ++ us =
          f x ++ .comma :: (commaTokens ((y :: ys).map f) ++ us) := by
        change f x ++ (.comma :: commaTokens ((y :: ys).map f)) ++ us = _
        rw [List.append_assoc]
        rfl
      have htext : (", ".intercalate ((x :: y :: ys).map text)).toList ++ rest =
          (text x).toList ++
            ',' :: ' ' :: ((", ".intercalate ((y :: ys).map text)).toList ++ rest) := by
        rw [List.map_cons, List.map_cons, String.intercalate_cons_cons, ← List.map_cons]
        simp only [String.toList_append, List.append_assoc]
        rfl
      rw [htoks, htext]
      refine hx (fun c hc => ?_) (.mark rfl (.blank (by decide) (hxs hr hs)))
      cases hc
      decide

/-- A text in parentheses. -/
theorem parens (ha : Prints a ts) : Prints ("(" ++ a ++ ")") (parenTokens ts) := by
  intro rest us _ hs
  have htext : ("(" ++ a ++ ")").toList ++ rest = '(' :: (a.toList ++ ')' :: rest) := by simp
  rw [htext, parenTokens_append]
  refine .mark rfl (ha (fun c hc => ?_) (.mark rfl hs))
  cases hc
  decide

/-- **A text that spells tokens has them.** -/
theorem tokens (ha : Prints a ts) :
    ∃ toks, Signature.tokens a = .ok toks ∧ toks.map Placed.token = ts := by
  have hspells := @ha [] [] (by simp) spells_nil
  rw [List.append_nil, List.append_nil] at hspells
  exact tokens_of_spells hspells

end Prints

/-- A name is printed in quotes where it needs them. -/
theorem prints_name {name : String} (h : '"' ∉ name.toList) :
    Prints (Param.nameText name) [nameToken name] := by
  unfold Param.nameText nameToken
  split
  · rename_i hrun
    obtain ⟨hne, hall⟩ := hrun
    refine Prints.word ⟨fun hnil => hne (String.toList_eq_nil_iff.1 hnil), fun c hc => ?_⟩
    exact List.all_eq_true.1 hall c hc
  · exact Prints.quoted h

/-- **A settled default is printed in the tokens it spells.** -/
theorem prints_value {p : Param} {d : Value} (h : Param.Settled p d) :
    Prints (Param.defaultText d) (valueTokens d) := by
  induction h with
  | @scalar h kind k s hk hq =>
    by_cases hs : k = .string
    · subst hs
      exact Prints.quoted hq
    · have htext : Param.defaultText (.scalar ⟨some h.name, .synthetic⟩ k s) = s := by
        cases k with
        | string => exact absurd rfl hs
        | _ => rfl
      rw [valueTokens, if_neg hs, htext]
      exact Prints.word (Param.isRun_of_coerce hk hs)
  | @array h ps items hlen _ ih =>
    rw [valueTokens, valuesTokens_eq_map, Param.defaultText, Param.defaultTexts_eq_map]
    refine Prints.parens (Prints.commas fun v hv => ?_)
    obtain ⟨i, p, hp, hi⟩ := Param.exists_param_of_mem hlen hv
    exact ih i p v hp hi

/-- The name of a parameter and its default. -/
theorem prints_declared {p : Param} (h : IsDeclared p) :
    Prints (Param.nameText p.name ++ Param.defaultClause p.default?)
      (nameToken p.name :: defaultTokens p.default?) := by
  cases hd : p.default? with
  | none =>
    change Prints (Param.nameText p.name ++ "") [nameToken p.name]
    rw [String.append_empty]
    exact prints_name h.name
  | some d =>
    have hclause : Param.nameText p.name ++ Param.defaultClause (some d) =
        Param.nameText p.name ++ " = " ++ Param.defaultText d := by
      rw [String.append_assoc]
      rfl
    rw [hclause]
    exact (prints_name h.name).equals (prints_value (h.default d hd))

/-- **A compiled parameter is printed in the tokens it spells.** -/
theorem prints_param {types : NamedTypes} {p : Param} (h : Compiled types p) :
    Prints p.render (paramTokens p) := by
  induction h with
  | @scalar h k ht hk hp =>
    have hspace := (Prints.word hk.run).space (prints_declared hp)
    rw [Param.render, paramTokens, ht, String.append_assoc]
    exact hspace
  | @named h w overloads s ht hw _ _ _ _ hp =>
    have hspace := (Prints.word hw).space (prints_declared hp)
    rw [Param.render, paramTokens, ht, String.append_assoc]
    exact hspace
  | @array h ps ht _ _ hp ih =>
    have hspace := (Prints.commas ih).parens.space (prints_declared hp)
    rw [Param.render, paramTokens, ht, String.append_assoc, Param.renderAll_eq_map,
      paramsTokens_eq_map]
    exact hspace

/-- The tokens of a signature. -/
def signatureTokens (ps : List Param) : List Token :=
  parenTokens (commaTokens (paramsTokens ps))

/-- **A compiled signature has the tokens it spells.** -/
theorem tokens_render {types : NamedTypes} {ps : List Param} (h : ∀ p ∈ ps, Compiled types p) :
    ∃ toks, tokens (render ⟨ps⟩) = .ok toks ∧ toks.map Placed.token = signatureTokens ps := by
  have hprints : Prints (render ⟨ps⟩) (signatureTokens ps) := by
    unfold render signatureTokens
    rw [paramsTokens_eq_map]
    exact (Prints.commas fun p hp => prints_param (h p hp)).parens
  exact hprints.tokens

/-- The parentheses of a signature match. -/
theorem balanced_signature (ps : List Param) :
    Balanced (paramsNesting ps + 1) (signatureTokens ps) := by
  unfold signatureTokens
  rw [paramsTokens_eq_map, paramsNesting_eq]
  exact (Balanced.commas (balanced_params ps)).parens

/-- **The depth of a printed signature** is that of its parameters, and one
for its own parentheses. -/
theorem nesting_render {types : NamedTypes} {ps : List Param} (h : ∀ p ∈ ps, Compiled types p) :
    nesting (render ⟨ps⟩) = paramsNesting ps + 1 := by
  obtain ⟨toks, htoks, hmap⟩ := tokens_render h
  have hdepth := (balanced_signature ps).depth 0 []
  have hnil : depth 0 [] = 0 := rfl
  rw [List.append_nil, hnil] at hdepth
  unfold nesting
  rw [htoks]
  change depth 0 (toks.map Placed.token) = _
  rw [hmap, hdepth]
  omega

end Signature

end CommandScript
