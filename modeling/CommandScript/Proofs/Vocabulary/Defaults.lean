import CommandScript.Proofs.Signature.Argument
import CommandScript.Proofs.Signature.Unambiguous
import CommandScript.Proofs.Vocabulary.Acceptance

/-!
# Defaults are arguments

A default means what the same literal means where a command is called. In a
signature of one parameter, a value that a scanner can build may be written
behind the parameter if and only if it resolves to whatever the parameter may
be, and what it resolves to is then the default, places aside
(`Built.default_eq_argument`). Leaving the argument out therefore comes to
the same as passing it.

The grammar has one derivation of such a signature, which is the declaration
without the default and the literal behind it, so whether it is read is a
matter of whether the literal fits.
-/

namespace CommandScript

namespace Signature

variable {types : NamedTypes} {source : String} {signatures : List Signature} {n : Nat}
  {ts us : List Token} {d : Declaration} {ds : List Declaration}

/-! ## Signatures that derive -/

/-- **A text that derives is read** if and only if its declarations hold
together, for there are no others that it could write. -/
theorem parse_eq_ok_iff_accepted (htypes : NonemptyTypes types)
    (htokens : HasTokens source.toList ts) (hds : IsSignature ts ds) :
    parse types source = .ok signatures ↔
      Accepted types none ds ∧ signatures = (Declaration.expand types ds).map fun ps => ⟨ps⟩ := by
  rw [parse_eq_ok_iff htypes]
  constructor
  · rintro ⟨ts', ds', htokens', hds', haccepted, hsignatures⟩
    obtain rfl := htokens.unique htokens'
    obtain rfl := hds.unique hds'
    exact ⟨haccepted, hsignatures⟩
  · rintro ⟨haccepted, hsignatures⟩
    exact ⟨ts, ds, htokens, hds, haccepted, hsignatures⟩

/-- One declaration is a list of declarations. -/
theorem IsParam.isParams (h : IsParam n ts d) : IsParams n ts [d] := by
  have hcons := IsParams.cons .none h (.nil .none)
  rwa [List.nil_append, List.append_nil] at hcons

theorem Declaration.expand_singleton (types : NamedTypes) (d : Declaration) :
    expand types [d] = (d.alternatives types).map fun p => [p] := by
  have hnil : expand types [] = [[]] := by rw [expand]
  rw [expand_cons, hnil, List.map_eq_flatMap]
  rfl

/-- One declaration holds together if it fits. -/
theorem accepted_singleton : Accepted types none [d] ↔ d.Fits types :=
  ⟨fun h => h.fits d List.mem_cons_self,
    fun h => ⟨by simpa using h, List.pairwise_singleton _ _, by simp⟩⟩

/-- **A signature of one parameter** is read if its declaration fits, and
makes a signature for each parameter that the declaration may stand for. -/
theorem parse_eq_ok_iff_fits (htypes : NonemptyTypes types)
    (htokens : HasTokens source.toList (parenTokens ts)) (hd : IsParam maxNesting ts d) :
    parse types source = .ok signatures ↔
      d.Fits types ∧ signatures = (d.alternatives types).map fun p => ⟨[p]⟩ := by
  have hexpand : (Declaration.expand types [d]).map (fun ps => (⟨ps⟩ : Signature)) =
      (d.alternatives types).map fun p => ⟨[p]⟩ := by
    rw [Declaration.expand_singleton, List.map_map]
    rfl
  rw [parse_eq_ok_iff_accepted htypes htokens (.wrapped hd.isParams), accepted_singleton, hexpand]

/-! ## Types and names -/

/-- **The tokens of a type**, and what is declared with it under a name and
with a default. -/
inductive IsType : Nat → List Token → (String → Option Value → Declaration) → Prop
  | word {n : Nat} {type : String} : IsType n [.word type] (.word type)
  | array {n : Nat} {ts : List Token} {inner : List Declaration} :
      IsParams n ts inner → IsType (n + 1) (parenTokens ts) (.array inner)

/-- A text that is a type. -/
def WritesType (text : String) : Prop :=
  ∃ ts declare, HasTokens text.toList ts ∧ IsType maxNesting ts declare

/-- A text that is the name of a parameter. -/
def WritesName (text : String) : Prop :=
  ∃ t name, HasTokens text.toList [t] ∧ IsName name t

variable {declare : String → Option Value → Declaration} {name : String}
  {default : Option Value}

theorem IsType.isParam {t : Token} (h : IsType n ts declare) (hname : IsName name t)
    (hdefault : IsDefault n us default) : IsParam n (ts ++ t :: us) (declare name default) := by
  cases h with
  | word => exact .word hname hdefault
  | array hinner => exact .array hinner hname hdefault

theorem IsType.default?_eq (h : IsType n ts declare) : (declare name default).default? = default := by
  cases h <;> rfl

/-- The default does not matter to what the parameter may be. -/
theorem IsType.shapes_eq (h : IsType n ts declare) :
    (declare name default).shapes types = (declare name none).shapes types := by
  cases h with
  | word => rfl
  | array => rw [Declaration.shapes, Declaration.shapes]

/-- The default must fit, and all else fits without it. -/
theorem IsType.fits_iff (h : IsType n ts declare) :
    (declare name default).Fits types ↔
      (declare name none).Fits types ∧ (declare name default).DefaultFits types := by
  have hnone : (declare name none).DefaultFits types := by
    intro v hv
    rw [h.default?_eq] at hv
    cases hv
  constructor
  · intro hfits
    cases h with
    | word =>
      cases hfits with
      | word hdefault => exact ⟨.word hnone, hdefault⟩
    | array =>
      cases hfits with
      | array hinner hlast hdefault => exact ⟨.array hinner hlast hnone, hdefault⟩
  · rintro ⟨hfits, hdefault⟩
    cases h with
    | word => exact .word hdefault
    | array =>
      cases hfits with
      | array hinner hlast _ => exact .array hinner hlast hdefault

/-- **A type and a name** make a signature for each parameter that they
declare. -/
theorem IsType.parse_bare (h : IsType maxNesting ts declare) (htypes : NonemptyTypes types)
    {t : Token} (hname : IsName name t) (htokens : HasTokens source.toList (parenTokens (ts ++ [t])))
    (hparse : parse types source = .ok signatures) :
    (declare name none).Fits types ∧
      signatures = ((declare name none).shapes types).map fun p => ⟨[p]⟩ := by
  obtain ⟨hfits, hsignatures⟩ :=
    (parse_eq_ok_iff_fits htypes htokens (h.isParam hname .none)).1 hparse
  have halternatives : (declare name none).alternatives types = (declare name none).shapes types := by
    rw [Declaration.alternatives, h.default?_eq]
    exact List.filterMap_some
  rw [halternatives] at hsignatures
  exact ⟨hfits, hsignatures⟩

/-- **A literal behind a type and a name** must fit all that they declare, and
is given to each. -/
theorem IsType.parse_default_iff (h : IsType maxNesting ts declare) (htypes : NonemptyTypes types)
    {t : Token} {w : Value} (hname : IsName name t) (hw : IsLiteral maxNesting us w)
    (htokens : HasTokens source.toList (parenTokens (ts ++ t :: .equals :: us)))
    (hfits : (declare name none).Fits types) :
    parse types source = .ok signatures ↔
      (∀ p ∈ (declare name none).shapes types, (w.resolve p).isSome = true) ∧
        signatures = (((declare name none).shapes types).filterMap
          (Declaration.give (some w))).map fun p => ⟨[p]⟩ := by
  have hshapes : (declare name (some w)).shapes types = (declare name none).shapes types :=
    h.shapes_eq
  have hdefault : (declare name (some w)).DefaultFits types ↔
      ∀ p ∈ (declare name none).shapes types, (w.resolve p).isSome = true := by
    unfold Declaration.DefaultFits
    rw [h.default?_eq, hshapes]
    simp
  rw [parse_eq_ok_iff_fits htypes htokens (h.isParam hname (.some hw)), h.fits_iff, hdefault,
    Declaration.alternatives, h.default?_eq, hshapes, and_iff_right hfits]

/-! ## Printed signatures -/

/-- Characters that have tokens print them. -/
theorem HasTokens.prints {text : String} (h : HasTokens text.toList ts) : Prints text ts := by
  intro rest vs hr hs
  generalize text.toList = cs at h
  induction h with
  | nil => exact hs
  | blank hc _ ih => exact .blank hc ih
  | mark hc _ ih => exact .mark hc ih
  | @quoted q more us hq _ ih =>
    have htext : '"' :: (q ++ '"' :: more) ++ rest = '"' :: (q ++ '"' :: (more ++ rest)) := by
      simp
    rw [htext]
    exact .quoted hq ih
  | @word w more us hw hend _ ih =>
    rw [List.append_assoc]
    refine .word hw (fun c hc => ?_) ih
    -- what stands behind the run is what stood there, or what is now behind all
    cases more with
    | nil => exact hr c hc
    | cons d more => exact hend c hc

/-- A text that prints tokens has them. -/
theorem Prints.hasTokens {text : String} (h : Prints text ts) : HasTokens text.toList ts :=
  exists_tokens_iff.1 h.tokens

/-! ## Literals as defaults -/

/-- A literal that fits every parameter is given to each. -/
theorem forall₂_give {v : Value} : ∀ {ps : List Param}, (∀ p ∈ ps, (v.resolve p).isSome = true) →
    List.Forall₂ (fun p q => ∃ d, v.resolve p = some d ∧ q = p.withDefault d.detach) ps
      (ps.filterMap (Declaration.give (some v))) := by
  intro ps
  induction ps with
  | nil => exact fun _ => .nil
  | cons p ps ih =>
    intro h
    obtain ⟨hp, hps⟩ := List.forall_mem_cons.1 h
    obtain ⟨d, hd⟩ := Option.isSome_iff_exists.1 hp
    have hgive : Declaration.give (some v) p = some (p.withDefault d.detach) := by
      rw [Declaration.give, hd]
      rfl
    rw [List.filterMap_cons, hgive]
    exact .cons ⟨d, hd, rfl⟩ (ih hps)

/-- **Leaving out the argument** of a signature comes to the same as passing
it by order, places aside. -/
def Omits (s : Signature) (v : Value) : Prop :=
  ∀ p q : Position, ∃ w,
    (s.resolve (.list [] p)).map Value.detach = some w ∧
      (s.resolve (.list [v.rename none] q)).map Value.detach = some w

/-- A parameter whose default is what the argument resolves to, places aside,
may do without the argument. -/
theorem omits_withDefault {p : Param} {v d : Value} (hd : v.resolve p = some d) :
    Omits ⟨[p.withDefault d.detach]⟩ v := by
  have hdefault : (p.withDefault d.detach).default? = some d.detach := by cases p <;> rfl
  have homitted : Param.resolveList [p.withDefault d.detach] [] = some [d.detach] := by
    change Binding.complete [none] [p.withDefault d.detach] = _
    rw [Binding.complete, hdefault]
    rfl
  have hpassed : Param.resolveList [p.withDefault d.detach] [v.rename none] = some [d] := by
    have htaker : (Binding.empty [p.withDefault d.detach]).taker [p.withDefault d.detach] none =
        some (0, p.withDefault d.detach) := rfl
    rw [Param.resolveList, Value.resolveAll_cons, Value.name_rename, htaker, Option.bind_some,
      Value.resolve_rename, Value.resolve_withDefault, hd]
    rfl
  intro place place'
  refine ⟨.list [d.detach], ?_, ?_⟩
  · change ((Param.resolveList _ []).map _).map _ = _
    rw [homitted]
    exact congrArg (fun e => some (Value.list [e])) d.detach_detach
  · change ((Param.resolveList _ _).map _).map _ = _
    rw [hpassed]
    rfl

end Signature

namespace TypeTable

open Signature (WritesType WritesName)

variable {t : TypeTable} {type name : String} {signatures : List Signature}

/-- **A default means what the argument means.** Let a parameter be declared
by a type and a name, and take any argument of a scanned statement. Its
printed form may be written behind the parameter as a default if and only if
the argument resolves to all that the parameter may be, and what it resolves
to there, without places, is then the default. So the argument may as well be
left out. -/
theorem Built.default_eq_argument (ht : t.Built) (htype : WritesType type)
    (hname : WritesName name)
    (hparse : t.parse ("(" ++ (type ++ " " ++ name) ++ ")") = .ok signatures)
    {made : Statement} (hmade : made.IsScanned) {arguments : List Value}
    (harguments : made.arguments.items? = some arguments) {v : Value} (hv : v ∈ arguments) :
    ∃ ps : List Param, signatures = ps.map (fun p => ⟨[p]⟩) ∧
      ((∃ defaulted, t.parse ("(" ++ (type ++ " " ++ name ++ " = " ++ v.literal) ++ ")") =
          .ok defaulted) ↔ ∀ p ∈ ps, (v.resolve p).isSome = true) ∧
      ∀ defaulted, t.parse ("(" ++ (type ++ " " ++ name ++ " = " ++ v.literal) ++ ")") =
          .ok defaulted →
        List.Forall₂ (fun p s => ∃ d, v.resolve p = some d ∧ s = ⟨[p.withDefault d.detach]⟩ ∧
          s.Omits v) ps defaulted := by
  obtain ⟨ts, declare, hts, hdeclare⟩ := htype
  obtain ⟨u, given, hu, hgiven⟩ := hname
  have hscanned : v.IsScanned maxNesting := hmade.isScanned_of_mem harguments hv
  have hdeclared := hts.prints.space hu.prints
  have hdefaulted := (hdeclared.equals (Signature.prints_literal hscanned)).parens.hasTokens
  rw [List.append_assoc] at hdefaulted
  obtain ⟨hfits, hsignatures⟩ :=
    hdeclare.parse_bare ht.nonemptyTypes hgiven hdeclared.parens.hasTokens hparse
  have hread : ∀ defaulted, t.parse _ = .ok defaulted ↔ _ := fun defaulted =>
    hdeclare.parse_default_iff ht.nonemptyTypes hgiven
      (Signature.isLiteral_of_isScanned hscanned) hdefaulted hfits
  -- the literal is the argument without its name and places
  have hsame : ∀ p, ((v.detach.rename none).resolve p).map Value.detach =
      (v.resolve p).map Value.detach := by
    intro p
    rw [Value.resolve_rename, Value.resolve_detach]
  refine ⟨_, hsignatures, ?_, fun defaulted hdef => ?_⟩
  · have hfit : ∀ p, ((v.detach.rename none).resolve p).isSome = (v.resolve p).isSome := by
      intro p
      have hsome := congrArg Option.isSome (hsame p)
      rwa [Option.isSome_map, Option.isSome_map] at hsome
    simp only [hread, exists_and_left, exists_eq, and_true, hfit]
  · obtain ⟨hall, rfl⟩ := (hread defaulted).1 hdef
    rw [List.forall₂_map_right_iff]
    refine (Signature.forall₂_give hall).imp fun p q hgive => ?_
    obtain ⟨e, he, rfl⟩ := hgive
    have hdetached := hsame p
    rw [he] at hdetached
    obtain ⟨d, hd, hplaces⟩ := Option.map_eq_some_iff.1 hdetached.symm
    rw [← hplaces]
    exact ⟨d, hd, rfl, Signature.omits_withDefault hd⟩

/-- A call with a point, whose coordinates are passed by name. -/
def pointPass : Statement :=
  ⟨"pass", ⟨1, 1⟩,
    .list [.list [(Value.word "3" ⟨1, 10⟩).rename (some "Y"),
      (Value.word "-1" ⟨1, 16⟩).rename (some "x")] ⟨1, 6⟩] ⟨1, 6⟩⟩

/-- A parameter for a point. -/
def pointParam : Param :=
  .array { name := "p", typeName := some "point" }
    [.scalar { name := "x" } .int,
      .scalar { name := "y", default := some (.scalar ⟨some "y", .synthetic⟩ .int "0") } .int]

/-- What becomes of the point that is passed. -/
def passedPoint : Value :=
  .array ⟨some "p", .synthetic⟩
    [.scalar ⟨some "x", .synthetic⟩ .int "-1", .scalar ⟨some "y", .synthetic⟩ .int "3"]

theorem default_eq_argument_pointPass :
    points.Built ∧ WritesType "point" ∧ WritesName "p" ∧
      points.parse "(point p)" = .ok [⟨[pointParam]⟩] ∧ pointPass.IsScanned ∧
      points.parse "(point p = (Y: 3, x: -1))" =
        .ok [⟨[pointParam.withDefault passedPoint]⟩] ∧
      ∀ v ∈ pointPass.arguments.items?.getD [],
        Signature.Omits ⟨[pointParam.withDefault passedPoint]⟩ v := by
  have htype : WritesType "point" :=
    ⟨_, _, Signature.exists_tokens_iff.1 ⟨_, eq_ok_of_toOption
      (a := [⟨.word "point", 1⟩]) (by decide +kernel), rfl⟩, .word⟩
  have hname : WritesName "p" :=
    ⟨_, _, Signature.exists_tokens_iff.1 ⟨_, eq_ok_of_toOption
      (a := [⟨.word "p", 1⟩]) (by decide +kernel), rfl⟩, .word⟩
  have hbare : points.parse "(point p)" = .ok [⟨[pointParam]⟩] :=
    eq_ok_of_toOption (by decide +kernel)
  have hread : Statement.readAll "pass (Y: 3, x: -1);" = .ok [pointPass] :=
    eq_ok_of_toOption (by decide +kernel)
  have hdefaulted : points.parse "(point p = (Y: 3, x: -1))" =
      .ok [⟨[pointParam.withDefault passedPoint]⟩] :=
    eq_ok_of_toOption (by decide +kernel)
  have hscanned : pointPass.IsScanned :=
    Statement.isScanned_of_readAll hread _ List.mem_cons_self
  refine ⟨built_points, htype, hname, hbare, hscanned, hdefaulted, fun v hv => ?_⟩
  obtain rfl := List.mem_singleton.1 hv
  obtain ⟨ps, hps, -, hall⟩ := Built.default_eq_argument built_points htype hname hbare hscanned
    rfl List.mem_cons_self
  have hgiven := hall _ hdefaulted
  obtain ⟨p, rest, ⟨d, -, -, homits⟩, -, -⟩ := List.forall₂_cons_right_iff.1 hgiven
  exact homits

end TypeTable

end CommandScript
