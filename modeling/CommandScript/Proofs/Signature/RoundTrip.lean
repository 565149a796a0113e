import CommandScript.Proofs.Result
import CommandScript.Proofs.Signature.Derivation
import CommandScript.Proofs.Signature.Spelling
import CommandScript.Proofs.Vocabulary.TypeTable

/-!
# Reading what is printed

The tokens that a tree spells derive from the grammar: those of a default as
the literal it shows (`isLiteral_of_settled`), those of a parameter as its
declaration (`isParam_ofParam`), and from these lists of either, with commas
between. The depth allowed is enough if the parentheses go no deeper. The
parameter is among what its declaration stands for
(`mem_alternatives_ofParam`), and where types have one overload it is all of
that. There a printed signature is read as itself (`parse_render`).
-/

namespace CommandScript

namespace Signature

variable {types : NamedTypes} {n : Nat}

/-! ## Defaults -/

theorem rename_reread (v : Value) : v.reread.rename none = v.reread := by
  cases v <;> rfl

/-- **The items of a default are printed as entries**, if each is printed as
the literal it shows. -/
theorem isEntries_commas {vs : List Value}
    (h : ∀ v ∈ vs, IsLiteral n (valueTokens v) v.reread) :
    IsEntries n (commaTokens (vs.map valueTokens)) (vs.map Value.reread) := by
  refine IsEntries.commas fun v hv => ?_
  have hentry := IsEntry.mk .none (h v hv)
  rwa [rename_reread] at hentry

/-- **A settled default is printed as the literal it shows.** -/
theorem isLiteral_of_settled {p : Param} {d : Value} (h : Param.Settled p d) :
    ∀ {n : Nat}, valueNesting d ≤ n → IsLiteral n (valueTokens d) d.reread := by
  induction h with
  | @scalar h kind k s _ _ =>
    intro n _
    -- a string is printed in quotes, and any other kind is seen in the word again
    by_cases hk : k = .string
    · subst hk
      exact .quoted
    · have hshown : Value.shownKind k s = ScalarKind.ofText s := if_neg hk
      rw [valueTokens, if_neg hk, Value.reread, hshown]
      exact .word
  | @array h ps items hlen _ ih =>
    intro n hn
    rw [valueNesting] at hn
    obtain ⟨n, rfl⟩ : ∃ m, n = m + 1 := ⟨n - 1, by omega⟩
    rw [valueTokens, valuesTokens_eq_map, Value.reread, Value.rereadAll_eq_map]
    refine .array (isEntries_commas fun v hv => ?_)
    obtain ⟨i, p, hp, hi⟩ := Param.exists_param_of_mem hlen hv
    exact ih i p v hp hi (valuesNesting_le_iff.1 (Nat.le_of_succ_le_succ hn) v hv)

/-! ## Parameters -/

/-- The parameter without its default. -/
def bare : Param → Param
  | .scalar h k => .scalar { h with default := none } k
  | .array h ps => .array { h with default := none } ps

theorem withDefault_bare {p : Param} {d : Value} (h : p.default? = some d) :
    (bare p).withDefault d = p := by
  cases p with
  | scalar hd k =>
    have hdef : hd.default = some d := h
    change Param.scalar { hd with default := some d } k = _
    rw [← hdef]
  | array hd ps =>
    have hdef : hd.default = some d := h
    change Param.array { hd with default := some d } ps = _
    rw [← hdef]

theorem bare_of_none {p : Param} (h : p.default? = none) : bare p = p := by
  cases p with
  | scalar hd k =>
    have hdef : hd.default = none := h
    change Param.scalar { hd with default := none } k = _
    rw [← hdef]
  | array hd ps =>
    have hdef : hd.default = none := h
    change Param.array { hd with default := none } ps = _
    rw [← hdef]

theorem settled_bare {p : Param} {d : Value} (h : Param.Settled p d) :
    Param.Settled (bare p) d := by
  cases h with
  | @scalar h kind k s hk hq =>
    exact Param.Settled.scalar (h := { h with default := none }) hk hq
  | @array h ps items hlen hitems =>
    exact Param.Settled.array (h := { h with default := none }) hlen hitems

/-- **A printed default is given to the parameter it was printed for.** -/
theorem give_bare {p : Param} (h : IsDeclared p) :
    Declaration.give (p.default?.map Value.reread) (bare p) = some p := by
  cases hd : p.default? with
  | none => exact congrArg some (bare_of_none hd)
  | some d =>
    have hsettled := h.default d hd
    change (d.reread.resolve (bare p)).map _ = _
    rw [Param.resolve_reread (settled_bare hsettled), Option.map_some, hsettled.detach,
      withDefault_bare hd]

theorem isName_nameToken (name : String) : IsName name (nameToken name) := by
  unfold nameToken
  split
  · exact .word
  · exact .quoted

theorem isDefault_of_declared {p : Param} (h : IsDeclared p) (hn : defaultNesting p.default? ≤ n) :
    IsDefault n (defaultTokens p.default?) (p.default?.map Value.reread) := by
  cases hd : p.default? with
  | none => exact .none
  | some d =>
    rw [hd] at hn
    exact .some (isLiteral_of_settled (h.default d hd) hn)

/-! ## Declarations of parameters -/

mutual

/-- **The declaration that a parameter is printed as.** -/
def Declaration.ofParam : Param → Declaration
  | .scalar h k => .word (h.typeName.getD k.name) h.name (h.default.map Value.reread)
  | .array h ps =>
    match h.typeName with
    | some w => .word w h.name (h.default.map Value.reread)
    | none => .array (Declaration.ofParams ps) h.name (h.default.map Value.reread)

/-- The declarations that parameters are printed as. -/
def Declaration.ofParams : List Param → List Declaration
  | [] => []
  | p :: ps => Declaration.ofParam p :: Declaration.ofParams ps

end

theorem Declaration.ofParams_eq_map (ps : List Param) : ofParams ps = ps.map ofParam := by
  induction ps with
  | nil => rfl
  | cons p ps ih => rw [ofParams, ih, List.map_cons]

theorem Declaration.default?_ofParam (p : Param) :
    (ofParam p).default? = p.default?.map Value.reread := by
  cases p with
  | scalar h k => rfl
  | array h ps =>
    rw [ofParam]
    split <;> rfl

/-- **A compiled parameter is printed in the tokens of its declaration.** -/
theorem isParam_ofParam {p : Param} (h : Compiled types p) :
    ∀ {n : Nat}, paramNesting p ≤ n → IsParam n (paramTokens p) (Declaration.ofParam p) := by
  induction h with
  | @scalar h k ht hk hp =>
    intro n hn
    rw [paramNesting] at hn
    rw [paramTokens, Declaration.ofParam, ht]
    exact .word (isName_nameToken _) (isDefault_of_declared hp hn)
  | @named h w overloads s ht _ _ _ _ _ hp =>
    intro n hn
    have hdefault : defaultNesting h.default ≤ n := by
      rw [paramNesting] at hn
      omega
    rw [paramTokens, Declaration.ofParam, ht]
    exact .word (isName_nameToken _) (isDefault_of_declared hp hdefault)
  | @array h ps ht _ _ hp ih =>
    intro n hn
    rw [paramNesting, ht] at hn
    obtain ⟨n, rfl⟩ : ∃ m, n = m + 1 := ⟨n - 1, by simp at hn; omega⟩
    have hnest : paramsNesting ps ≤ n ∧ defaultNesting h.default ≤ n + 1 := by
      simp only [Option.isSome_none, Bool.false_eq_true, if_false] at hn
      omega
    have hinner := IsParams.commas fun p hp => ih p hp (paramsNesting_le_iff.1 hnest.1 p hp)
    rw [paramTokens, Declaration.ofParam, ht, paramsTokens_eq_map, Declaration.ofParams_eq_map]
    exact .array hinner (isName_nameToken _) (isDefault_of_declared hp hnest.2)

/-- What a spelled kind asks for is the kind. -/
theorem named_of_isSpelled {k : Kind} {name : String} (h : IsSpelled types k) :
    Declaration.named types k.name name = [.scalar { name } k] := by
  unfold Declaration.named
  rcases h.kind with hof | ⟨hof, htypes, hk⟩
  · rw [hof]
  · rw [hof, htypes, ← hk]

/-! ## What printed declarations stand for -/

section Shapes

variable {h : ParamHead} {k : Kind} {w : String} {overloads : List Signature} {ps : List Param}

theorem shapes_ofParam_scalar (ht : h.typeName = none) (hk : IsSpelled types k) :
    (Declaration.ofParam (.scalar h k)).shapes types = [bare (.scalar h k)] := by
  rw [Declaration.ofParam, Declaration.shapes, bare, ht, Option.getD_none, named_of_isSpelled hk]

/-- A named type is printed by its name, and so stands for all its
overloads. -/
theorem shapes_ofParam_named (ht : h.typeName = some w) (hof : Kind.ofWord w = none)
    (htypes : types w = some overloads) :
    (Declaration.ofParam (.array h ps)).shapes types =
      overloads.map fun s => bare (.array h s.params) := by
  simp only [Declaration.ofParam, ht, Declaration.shapes, Declaration.named, hof, htypes, bare]

theorem shapes_ofParam_array (ht : h.typeName = none) :
    (Declaration.ofParam (.array h ps)).shapes types =
      (Declaration.expand types (Declaration.ofParams ps)).map fun qs => bare (.array h qs) := by
  simp only [Declaration.ofParam, ht, Declaration.shapes, bare]

end Shapes

/-- **A parameter is among what its declaration stands for**, if it is but for
the default: what is printed as the default is given to it again. -/
theorem mem_alternatives_of_mem_shapes {p : Param} (hp : IsDeclared p)
    (h : bare p ∈ (Declaration.ofParam p).shapes types) :
    p ∈ (Declaration.ofParam p).alternatives types := by
  refine List.mem_filterMap.2 ⟨bare p, h, ?_⟩
  rw [Declaration.default?_ofParam]
  exact give_bare hp

/-- Parameters are among the lists that their declarations stand for. -/
theorem mem_expand_ofParams {ps : List Param}
    (h : ∀ p ∈ ps, p ∈ (Declaration.ofParam p).alternatives types) :
    ps ∈ Declaration.expand types (Declaration.ofParams ps) := by
  induction ps with
  | nil =>
    rw [Declaration.ofParams, Declaration.expand]
    exact List.mem_cons_self
  | cons p ps ih =>
    have hps := ih fun q hq => h q (List.mem_cons_of_mem _ hq)
    rw [Declaration.ofParams, Declaration.expand_cons]
    exact List.mem_flatMap.2 ⟨p, h p List.mem_cons_self, List.mem_map.2 ⟨ps, hps, rfl⟩⟩

/-- **A compiled parameter is among what its declaration stands for.** -/
theorem mem_alternatives_ofParam {p : Param} (h : Compiled types p) :
    p ∈ (Declaration.ofParam p).alternatives types := by
  induction h with
  | scalar ht hk hp =>
    refine mem_alternatives_of_mem_shapes hp ?_
    rw [shapes_ofParam_scalar ht hk]
    exact List.mem_cons_self
  | named ht _ hof htypes hs _ hp =>
    refine mem_alternatives_of_mem_shapes hp ?_
    rw [shapes_ofParam_named ht hof htypes]
    exact List.mem_map_of_mem hs
  | array ht _ _ hp ih =>
    refine mem_alternatives_of_mem_shapes hp ?_
    rw [shapes_ofParam_array ht]
    exact List.mem_map_of_mem (mem_expand_ofParams ih)

theorem defaultsLast_ofParams {ps : List Param} (h : DefaultsLast ps) :
    Declaration.DefaultsLast (Declaration.ofParams ps) := by
  rw [Declaration.ofParams_eq_map]
  refine List.pairwise_map.2 (h.imp fun {p q} hpq => ?_)
  rw [Declaration.default?_ofParam, Declaration.default?_ofParam, Option.isSome_map,
    Option.isSome_map]
  exact hpq

/-- Declarations of compiled parameters hold together if they fit. -/
theorem accepted_ofParams {ps : List Param} (hlast : DefaultsLast ps)
    (hfits : ∀ p ∈ ps, (Declaration.ofParam p).Fits types) :
    Accepted types none (Declaration.ofParams ps) := by
  refine ⟨?_, defaultsLast_ofParams hlast, by simp⟩
  rw [Declaration.ofParams_eq_map]
  exact List.forall_mem_map.2 hfits

/-- **A printed signature has the tokens of its declarations**, if its
parentheses go no deeper than a reader allows. -/
theorem isSignature_ofParams {ps : List Param} (hps : ∀ p ∈ ps, Compiled types p)
    (hdepth : nesting (render ⟨ps⟩) ≤ maxNesting + 1) :
    IsSignature (signatureTokens ps) (Declaration.ofParams ps) := by
  rw [nesting_render hps] at hdepth
  have hnest := paramsNesting_le_iff.1 (Nat.le_of_succ_le_succ hdepth)
  rw [signatureTokens, paramsTokens_eq_map, Declaration.ofParams_eq_map]
  exact .wrapped (IsParams.commas fun p hp => isParam_ofParam (hps p hp) (hnest p hp))

/-! ## Types with one overload -/

/-- A declaration that stands for its parameter but for the default, which is
printed with it. -/
theorem alternatives_of_shapes {p : Param} (hp : IsDeclared p)
    (hshapes : (Declaration.ofParam p).shapes types = [bare p]) :
    (Declaration.ofParam p).DefaultFits types ∧
      (Declaration.ofParam p).alternatives types = [p] := by
  refine Declaration.alternatives_of_give hshapes ?_
  rw [Declaration.default?_ofParam]
  exact give_bare hp

theorem expand_ofParams {ps : List Param}
    (h : ∀ p ∈ ps, (Declaration.ofParam p).alternatives types = [p]) :
    Declaration.expand types (Declaration.ofParams ps) = [ps] := by
  induction ps with
  | nil => rfl
  | cons p ps ih =>
    rw [Declaration.ofParams, Declaration.expand_cons, h p List.mem_cons_self,
      ih fun q hq => h q (List.mem_cons_of_mem _ hq)]
    rfl

/-- **A compiled parameter is printed as a declaration of it alone**, where
types have one overload. -/
theorem fits_ofParam {p : Param} (hsingle : SingleTypes types) (h : Compiled types p) :
    (Declaration.ofParam p).Fits types ∧ (Declaration.ofParam p).alternatives types = [p] := by
  induction h with
  | @scalar h k ht hk hp =>
    obtain ⟨hfit, halternatives⟩ := alternatives_of_shapes hp (shapes_ofParam_scalar ht hk)
    exact ⟨.word hfit, halternatives⟩
  | @named h w overloads s ht _ hof htypes hs _ hp =>
    -- of a single overload there is one shape, and it is the one that was printed
    obtain ⟨s', rfl⟩ := hsingle w overloads htypes
    obtain rfl := List.mem_singleton.1 hs
    obtain ⟨hfit, halternatives⟩ := alternatives_of_shapes hp (shapes_ofParam_named ht hof htypes)
    refine ⟨?_, halternatives⟩
    rw [Declaration.ofParam, ht] at hfit ⊢
    exact .word hfit
  | @array h ps ht _ hlast hp ih =>
    have hshapes : (Declaration.ofParam (.array h ps)).shapes types = [bare (.array h ps)] := by
      rw [shapes_ofParam_array ht, expand_ofParams fun p hp => (ih p hp).2]
      rfl
    obtain ⟨hfit, halternatives⟩ := alternatives_of_shapes hp hshapes
    have haccepted := accepted_ofParams hlast fun p hp => (ih p hp).1
    refine ⟨?_, halternatives⟩
    rw [Declaration.ofParam, ht] at hfit ⊢
    exact .array haccepted.fits haccepted.defaultsLast hfit

/-- **A printed signature is read as itself**, where types have one overload
and the parentheses go no deeper than a reader allows. -/
theorem parse_render_of_compiled {ps : List Param} (hsingle : SingleTypes types)
    (hps : ∀ p ∈ ps, Compiled types p) (hlast : DefaultsLast ps)
    (hdepth : nesting (render ⟨ps⟩) ≤ maxNesting + 1) :
    parse types (render ⟨ps⟩) = .ok [⟨ps⟩] := by
  obtain ⟨toks, htoks, hmap⟩ := tokens_render hps
  have hsignature := isSignature_ofParams hps hdepth
  rw [← hmap] at hsignature
  have haccepted := accepted_ofParams hlast fun p hp => (fits_ofParam hsingle (hps p hp)).1
  have hexpand := expand_ofParams fun p hp => (fits_ofParam hsingle (hps p hp)).2
  have hnonempty : NonemptyTypes types := by
    intro w overloads hw
    obtain ⟨s, rfl⟩ := hsingle w overloads hw
    exact List.cons_ne_nil _ _
  exact parse_of_paramLists htoks
    ((paramLists_eq_ok_iff hnonempty).2 ⟨_, hsignature, haccepted, hexpand.symm⟩)

end Signature

namespace TypeTable

variable {t : TypeTable} {source : String} {signatures : List Signature}

/-- **Printing and reading are inverse.** Where each type has one overload, a
text that is read at all stands for one signature, and the printed form of
that is read as it again, unless its parentheses go deeper than a reader
allows. -/
theorem parse_render (ht : t.Built)
    (hone : ∀ n overloads, t.get? n = some overloads → overloads.length = 1)
    (h : t.parse source = .ok signatures) :
    ∃ s, signatures = [s] ∧
      (Signature.nesting s.render ≤ maxNesting + 1 → t.parse s.render = .ok [s]) := by
  have hsingle := singleTypes hone
  obtain ⟨s, rfl⟩ := Signature.exists_of_parse hsingle h
  obtain ⟨hps, hlast⟩ :=
    Signature.compiled_of_parse ht.soundTypes h s List.mem_cons_self
  exact ⟨s, rfl, Signature.parse_render_of_compiled hsingle hps hlast⟩

/-- A point with a default for one coordinate. -/
def point : Signature :=
  ⟨[.scalar { name := "x" } .int,
    .scalar { name := "y", default := some (.scalar ⟨some "y", .synthetic⟩ .int "0") } .int]⟩

/-- A table with the point as the only type. -/
def points : TypeTable :=
  ({} : TypeTable).enter "point" [point]

theorem built_points : points.Built := by
  have hread : ({} : TypeTable).parseAll ["int x, int y = 0"] = .ok [point] :=
    eq_ok_of_toOption (by decide +kernel)
  exact .register .empty (register_of_parseAll (by decide +kernel) rfl (by simp) hread)

/-- The signature of a call with a point. -/
def pointCall : Signature :=
  ⟨[.array
      { name := "p"
        default := some (.array ⟨some "p", .synthetic⟩
          [.scalar ⟨some "x", .synthetic⟩ .int "7", .scalar ⟨some "y", .synthetic⟩ .int "0"])
        typeName := some "point" }
      [.scalar { name := "x" } .int,
        .scalar { name := "y", default := some (.scalar ⟨some "y", .synthetic⟩ .int "0") } .int],
    .scalar
      { name := "q r"
        default := some (.scalar ⟨some "q r", .synthetic⟩ .string "red") } .any]⟩

theorem parse_pointCall : points.parse "point p = (7), any \"q r\" = red" = .ok [pointCall] :=
  eq_ok_of_toOption (by decide +kernel)

theorem parse_render_pointCall :
    points.Built ∧ (∀ n overloads, points.get? n = some overloads → overloads.length = 1) ∧
      points.parse "point p = (7), any \"q r\" = red" = .ok [pointCall] ∧
      points.parse pointCall.render = .ok [pointCall] := by
  have hparse : points.parse "point p = (7), any \"q r\" = red" = .ok [pointCall] :=
    eq_ok_of_toOption (by decide +kernel)
  have hone : ∀ n overloads, points.get? n = some overloads → overloads.length = 1 := by
    intro n overloads hn
    rcases eq_or_of_get?_enter hn with ⟨-, rfl⟩ | hn
    · rfl
    · exact absurd hn get?_empty_ne_some
  have hdepth : Signature.nesting pointCall.render ≤ maxNesting + 1 := by decide +kernel
  obtain ⟨s, hs, hread⟩ := parse_render built_points hone hparse
  cases hs
  exact ⟨built_points, hone, hparse, hread hdepth⟩

end TypeTable

end CommandScript
