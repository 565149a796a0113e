import CommandScript.Proofs.Signature.Derivation
import Mathlib.Algebra.BigOperators.Group.List.Basic
import Mathlib.Data.List.Forall2

/-!
# Choices among overloads

Wherever declarations name a type, they leave open which of its overloads is
meant. A choice is one number for each of these places, in the order of the
text (`Declaration.occurrences`), and it makes one parameter of a declaration
and one list of declarations (`Chosen`, `unique_of_chosenAll`). Declarations
stand for the lists that all choices make, in the order of the choices, which
is lexicographic (`forall₂_chosenAll`, `pairwise_choices`).
-/

namespace CommandScript

namespace Signature

variable {types : NamedTypes} {d : Declaration} {ds : List Declaration} {n : Nat}
  {bounds pick pick' : List Nat} {ts : List Token}

/-! ## Choices -/

/-- **All choices** of a number below each bound, the first varying slowest. -/
def choices : List Nat → List (List Nat)
  | [] => [[]]
  | bound :: bounds => (List.range bound).flatMap fun i => (choices bounds).map (i :: ·)

theorem mem_choices_iff : pick ∈ choices bounds ↔ List.Forall₂ (· < ·) pick bounds := by
  induction bounds generalizing pick with
  | nil => simp [choices]
  | cons bound bounds ih =>
    rw [choices, List.mem_flatMap, List.forall₂_cons_right_iff]
    simp only [List.mem_range, List.mem_map, ih]
    constructor
    · rintro ⟨i, hi, rest, hrest, rfl⟩
      exact ⟨i, rest, hi, hrest, rfl⟩
    · rintro ⟨i, rest, hi, hrest, rfl⟩
      exact ⟨i, hi, rest, hrest, rfl⟩

/-- **Choices are in lexicographic order**, and none comes twice. -/
theorem pairwise_choices (bounds : List Nat) : (choices bounds).Pairwise (· < ·) := by
  induction bounds with
  | nil => exact List.pairwise_singleton _ _
  | cons bound bounds ih =>
    rw [choices, List.pairwise_flatMap]
    constructor
    · intro i _
      exact List.pairwise_map.2 (ih.imp fun h => List.cons_lt_cons_iff.2 (.inr ⟨rfl, h⟩))
    · refine List.pairwise_lt_range.imp fun {i j} hij => ?_
      intro first hfirst later hlater
      obtain ⟨rest, -, rfl⟩ := List.mem_map.1 hfirst
      obtain ⟨rest', -, rfl⟩ := List.mem_map.1 hlater
      exact List.cons_lt_cons_iff.2 (.inl hij)

/-- There are as many choices as the bounds multiply to. -/
theorem length_choices (bounds : List Nat) : (choices bounds).length = bounds.prod := by
  induction bounds with
  | nil => rfl
  | cons bound bounds ih => simp [choices, List.length_flatMap, List.map_const', ih]

/-- Choices for bounds in two parts, the second part varying faster. -/
theorem choices_append (bounds bounds' : List Nat) :
    choices (bounds ++ bounds') =
      (choices bounds).flatMap fun pick => (choices bounds').map (pick ++ ·) := by
  induction bounds with
  | nil => simp [choices]
  | cons bound bounds ih =>
    simp only [List.cons_append, choices, ih, List.flatMap_assoc, List.map_flatMap,
      List.flatMap_map, List.map_map]
    rfl

/-! ## Occurrences of types -/

namespace Declaration

mutual

/-- **The types that a declaration names**, in the order of the text. -/
def occurrences (types : NamedTypes) : Declaration → List String
  | word type _ _ =>
    match Kind.ofWord type, types type with
    | none, some _ => [type]
    | _, _ => []
  | array inner _ _ => occurrencesAll types inner

/-- The types that declarations name, in the order of the text. -/
def occurrencesAll (types : NamedTypes) : List Declaration → List String
  | [] => []
  | d :: ds => occurrences types d ++ occurrencesAll types ds

end

end Declaration

/-- The numbers of overloads of types. -/
def overloadCounts (types : NamedTypes) (names : List String) : List Nat :=
  names.map fun type => ((types type).getD []).length

mutual

/-- The types that a declaration names stand among its tokens. -/
theorem IsParam.occurrences_sublist : ∀ {n : Nat} {ts : List Token} {d : Declaration},
    IsParam n ts d → ((d.occurrences types).map Token.word).Sublist ts
  | _, _, _, .word _ _ => by
    rw [Declaration.occurrences]
    split
    · exact (List.nil_sublist _).cons_cons _
    · exact List.nil_sublist _
  | _, _, _, .array hinner _ _ => by
    rw [Declaration.occurrences]
    exact ((hinner.occurrences_sublist.trans (List.sublist_append_left _ _)).cons _).trans
      (List.sublist_append_left _ _)

/-- **The types that declarations name stand among their tokens**, in this
order. -/
theorem IsParams.occurrences_sublist : ∀ {n : Nat} {ts : List Token} {ds : List Declaration},
    IsParams n ts ds → ((Declaration.occurrencesAll types ds).map Token.word).Sublist ts
  | _, _, _, .nil _ => List.nil_sublist _
  | _, _, _, .cons hc hd hds => by
    rw [Declaration.occurrencesAll, List.map_append]
    exact (hd.occurrences_sublist.append hds.occurrences_sublist).trans
      (List.sublist_append_right _ _)

end

/-- The types that the declarations of a signature name stand among its
tokens. -/
theorem IsSignature.occurrences_sublist (h : IsSignature ts ds) :
    ((Declaration.occurrencesAll types ds).map Token.word).Sublist ts := by
  cases h with
  | bare hds => exact hds.occurrences_sublist
  | wrapped hds => exact (hds.occurrences_sublist.trans (List.sublist_append_left _ _)).cons _

/-! ## What a choice makes -/

mutual

/-- **What a choice makes of a declaration.** A word that names a type makes an
array with the parameters of the overload chosen, which remembers the name. All
else is as it is declared. The default is what the literal is to what has been
made. -/
inductive Chosen (types : NamedTypes) : Declaration → List Nat → Param → Prop
  | primitive {type name : String} {default : Option Value} {kind : Kind} {p : Param} :
      Kind.ofWord type = some kind → Declaration.give default (.scalar { name } kind) = some p →
      Chosen types (.word type name default) [] p
  | unknown {type name : String} {default : Option Value} {p : Param} :
      Kind.ofWord type = none → types type = none →
      Declaration.give default (.scalar { name } (.unknown type)) = some p →
      Chosen types (.word type name default) [] p
  | named {type name : String} {default : Option Value} {overloads : List Signature} {i : Nat}
      {s : Signature} {p : Param} :
      Kind.ofWord type = none → types type = some overloads → overloads[i]? = some s →
      Declaration.give default (.array { name, typeName := some type } s.params) = some p →
      Chosen types (.word type name default) [i] p
  | array {inner : List Declaration} {name : String} {default : Option Value} {pick : List Nat}
      {ps : List Param} {p : Param} :
      ChosenAll types inner pick ps → Declaration.give default (.array { name } ps) = some p →
      Chosen types (.array inner name default) pick p

/-- **What a choice makes of declarations**, one parameter of each. -/
inductive ChosenAll (types : NamedTypes) : List Declaration → List Nat → List Param → Prop
  | nil : ChosenAll types [] [] []
  | cons {d : Declaration} {ds : List Declaration} {pick picks : List Nat} {p : Param}
      {ps : List Param} :
      Chosen types d pick p → ChosenAll types ds picks ps →
      ChosenAll types (d :: ds) (pick ++ picks) (p :: ps)

end

theorem exists_of_chosenAll_cons {ps : List Param} (h : ChosenAll types (d :: ds) pick ps) :
    ∃ first rest p tail, pick = first ++ rest ∧ ps = p :: tail ∧ Chosen types d first p ∧
      ChosenAll types ds rest tail := by
  cases h with
  | cons hp hps => exact ⟨_, _, _, _, rfl, rfl, hp, hps⟩

mutual

/-- A choice has one number for each type that is named. -/
theorem Chosen.length_eq : ∀ {d : Declaration} {pick : List Nat} {p : Param},
    Chosen types d pick p → pick.length = (d.occurrences types).length
  | _, _, _, .primitive hof _ => by rw [Declaration.occurrences, hof]; rfl
  | _, _, _, .unknown hof htypes _ => by rw [Declaration.occurrences, hof, htypes]; rfl
  | _, _, _, .named hof htypes _ _ => by rw [Declaration.occurrences, hof, htypes]; rfl
  | _, _, _, .array hps _ => by rw [Declaration.occurrences, hps.length_eq]

theorem ChosenAll.length_eq : ∀ {ds : List Declaration} {pick : List Nat} {ps : List Param},
    ChosenAll types ds pick ps → pick.length = (Declaration.occurrencesAll types ds).length
  | _, _, _, .nil => by rw [Declaration.occurrencesAll]; rfl
  | _, _, _, .cons hp hps => by
    rw [Declaration.occurrencesAll, List.length_append, List.length_append, hp.length_eq,
      hps.length_eq]

end

mutual

/-- **A choice makes one parameter** of a declaration. -/
theorem Chosen.unique : ∀ {d : Declaration} {pick : List Nat} {p q : Param},
    Chosen types d pick p → Chosen types d pick q → p = q
  | _, _, _, _, .primitive hof hp, h => by
    cases h with
    | primitive hof' hq =>
      cases hof.symm.trans hof'
      exact Option.some.inj (hp.symm.trans hq)
    | unknown hof' _ _ => cases hof.symm.trans hof'
  | _, _, _, _, .unknown hof htypes hp, h => by
    cases h with
    | primitive hof' _ => cases hof.symm.trans hof'
    | unknown _ _ hq => exact Option.some.inj (hp.symm.trans hq)
  | _, _, _, _, .named hof htypes hs hp, h => by
    cases h with
    | named _ htypes' hs' hq =>
      cases htypes.symm.trans htypes'
      cases hs.symm.trans hs'
      exact Option.some.inj (hp.symm.trans hq)
  | _, _, _, _, .array hps hp, h => by
    cases h with
    | array hqs hq =>
      rw [hps.unique hqs] at hp
      exact Option.some.inj (hp.symm.trans hq)

/-- **A choice makes one parameter list** of declarations. -/
theorem ChosenAll.unique : ∀ {ds : List Declaration} {pick : List Nat} {ps qs : List Param},
    ChosenAll types ds pick ps → ChosenAll types ds pick qs → ps = qs
  | _, _, _, _, .nil, h => by
    cases h
    rfl
  | _, _, _, _, .cons hp hps, h => by
    obtain ⟨first, rest, q, tail, hpick, rfl, hq, htail⟩ := exists_of_chosenAll_cons h
    -- both choices have one number for each type that the first declaration names
    obtain ⟨rfl, rfl⟩ := List.append_inj hpick (hp.length_eq.trans hq.length_eq.symm)
    rw [hp.unique hq, hps.unique htail]

end

/-! ## What no choice touches -/

/-- **Parameters that differ in nothing but** their defaults and the overloads of
types that they name, at any depth. -/
inductive Variants : Param → Param → Prop
  | scalar {h h' : ParamHead} {kind : Kind} :
      h.name = h'.name → h.typeName = h'.typeName → Variants (.scalar h kind) (.scalar h' kind)
  | named {h h' : ParamHead} {type : String} {ps qs : List Param} :
      h.name = h'.name → h.typeName = some type → h'.typeName = some type →
      Variants (.array h ps) (.array h' qs)
  | array {h h' : ParamHead} {ps qs : List Param} :
      h.name = h'.name → h.typeName = none → h'.typeName = none → List.Forall₂ Variants ps qs →
      Variants (.array h ps) (.array h' qs)

theorem Variants.withDefault {p q : Param} (h : Variants p q) (v w : Value) :
    Variants (p.withDefault v) (q.withDefault w) := by
  cases h with
  | scalar hname htype => exact .scalar hname htype
  | named hname htype htype' => exact .named hname htype htype'
  | array hname htype htype' hps => exact .array hname htype htype' hps

theorem Variants.give {default : Option Value} {p p' q q' : Param} (h : Variants p q)
    (hp : Declaration.give default p = some p') (hq : Declaration.give default q = some q') :
    Variants p' q' := by
  cases default with
  | none =>
    cases hp
    cases hq
    exact h
  | some v =>
    obtain ⟨d, -, rfl⟩ := Option.map_eq_some_iff.1 hp
    obtain ⟨e, -, rfl⟩ := Option.map_eq_some_iff.1 hq
    exact h.withDefault _ _

mutual

/-- **Choices make variants** of one parameter. -/
theorem Chosen.variants : ∀ {d : Declaration} {pick pick' : List Nat} {p q : Param},
    Chosen types d pick p → Chosen types d pick' q → Variants p q
  | _, _, _, _, _, .primitive hof hp, h => by
    cases h with
    | primitive hof' hq =>
      cases hof.symm.trans hof'
      exact (Variants.scalar rfl rfl).give hp hq
    | unknown hof' _ _ => cases hof.symm.trans hof'
    | named hof' _ _ _ => cases hof.symm.trans hof'
  | _, _, _, _, _, .unknown hof htypes hp, h => by
    cases h with
    | primitive hof' _ => cases hof.symm.trans hof'
    | unknown _ _ hq => exact (Variants.scalar rfl rfl).give hp hq
    | named _ htypes' _ _ => cases htypes.symm.trans htypes'
  | _, _, _, _, _, .named hof htypes _ hp, h => by
    cases h with
    | primitive hof' _ => cases hof.symm.trans hof'
    | unknown _ htypes' _ => cases htypes.symm.trans htypes'
    | named _ _ _ hq => exact (Variants.named rfl rfl rfl).give hp hq
  | _, _, _, _, _, .array hps hp, h => by
    cases h with
    | array hqs hq => exact (Variants.array rfl rfl rfl (hps.variants hqs)).give hp hq

/-- **Choices make variants** of one parameter list. -/
theorem ChosenAll.variants : ∀ {ds : List Declaration} {pick pick' : List Nat}
    {ps qs : List Param}, ChosenAll types ds pick ps → ChosenAll types ds pick' qs →
      List.Forall₂ Variants ps qs
  | _, _, _, _, _, .nil, h => by
    cases h
    exact .nil
  | _, _, _, _, _, .cons hp hps, h => by
    obtain ⟨_, _, q, tail, -, rfl, hq, htail⟩ := exists_of_chosenAll_cons h
    exact .cons (hp.variants hq) (hps.variants htail)

end

/-! ## All that declarations stand for -/

/-- A default that fits is given to each shape. -/
theorem forall₂_alternatives {α : Type} {R : α → Param → Prop} {xs : List α}
    (hd : d.DefaultFits types) (h : List.Forall₂ R xs (d.shapes types)) :
    List.Forall₂ (fun x p => ∃ q, R x q ∧ Declaration.give d.default? q = some p) xs
      (d.alternatives types) := by
  have hgive : ∀ q ∈ d.shapes types, ∃ p, Declaration.give d.default? q = some p := by
    intro q hq
    cases hdefault : d.default? with
    | none => exact ⟨q, rfl⟩
    | some v =>
      obtain ⟨e, he⟩ := Option.isSome_iff_exists.1 (hd v hdefault q hq)
      exact ⟨q.withDefault e.detach, by rw [Declaration.give, he]; rfl⟩
  unfold Declaration.alternatives
  generalize d.shapes types = shapes at h hgive
  induction h with
  | nil => exact .nil
  | @cons x q xs shapes hx _ ih =>
    obtain ⟨hfirst, hrest⟩ := List.forall_mem_cons.1 hgive
    obtain ⟨p, hp⟩ := hfirst
    rw [List.filterMap_cons_some hp]
    exact .cons ⟨q, hx, hp⟩ (ih hrest)

/-- The members of a list, each with its index. -/
theorem forall₂_range {α : Type} (xs : List α) :
    List.Forall₂ (fun i x => xs[i]? = some x) (List.range xs.length) xs := by
  refine List.forall₂_iff_get.2 ⟨List.length_range, fun i _ hi => ?_⟩
  simp [hi]

theorem choices_singleton (bound : Nat) : choices [bound] = (List.range bound).map fun i => [i] :=
  List.map_eq_flatMap.symm

section Word

variable {type name : String} {default : Option Value}

/-- What a choice makes of a word is given the default. -/
theorem Chosen.give {p q : Param} (h : Chosen types (.word type name none) pick q)
    (hgive : Declaration.give default q = some p) :
    Chosen types (.word type name default) pick p := by
  cases h with
  | primitive hof hq =>
    cases hq
    exact .primitive hof hgive
  | unknown hof htypes hq =>
    cases hq
    exact .unknown hof htypes hgive
  | named hof htypes hs hq =>
    cases hq
    exact .named hof htypes hs hgive

/-- What choices make of a word is all that it asks for, in order. -/
theorem forall₂_chosen_named (types : NamedTypes) (type name : String) :
    List.Forall₂ (Chosen types (.word type name none))
      (choices (overloadCounts types ((Declaration.word type name default).occurrences types)))
      (Declaration.named types type name) := by
  unfold Declaration.named Declaration.occurrences
  cases hof : Kind.ofWord type with
  | some kind => exact .cons (.primitive hof rfl) .nil
  | none =>
    cases htypes : types type with
    | none => exact .cons (.unknown hof htypes rfl) .nil
    | some overloads =>
      have hcounts : overloadCounts types [type] = [overloads.length] := by
        unfold overloadCounts
        rw [List.map_cons, htypes]
        rfl
      simp only [hcounts]
      rw [choices_singleton, List.forall₂_map_left_iff, List.forall₂_map_right_iff]
      exact (forall₂_range overloads).imp fun i s hs => .named hof htypes hs rfl

end Word

/-- **Choices for declarations in a row**: what they make is all that these
stand for, in order, if so it is for each. -/
theorem forall₂_chosenAll
    (h : ∀ d ∈ ds, List.Forall₂ (Chosen types d)
      (choices (overloadCounts types (d.occurrences types))) (d.alternatives types)) :
    List.Forall₂ (ChosenAll types ds)
      (choices (overloadCounts types (Declaration.occurrencesAll types ds)))
      (Declaration.expand types ds) := by
  induction ds with
  | nil =>
    rw [Declaration.expand]
    exact .cons .nil .nil
  | cons d ds ih =>
    obtain ⟨hd, hds⟩ := List.forall_mem_cons.1 h
    rw [Declaration.expand_cons, Declaration.occurrencesAll, overloadCounts, List.map_append,
      choices_append]
    refine List.rel_flatMap hd fun pick p hp => ?_
    rw [List.forall₂_map_left_iff, List.forall₂_map_right_iff]
    exact (ih hds).imp fun picks ps hps => .cons hp hps

/-- **What choices make of a declaration is all that it stands for**, in
order. -/
theorem Declaration.Fits.forall₂_chosen (h : d.Fits types) :
    List.Forall₂ (Chosen types d) (choices (overloadCounts types (d.occurrences types)))
      (d.alternatives types) := by
  induction h with
  | @word type name default hd =>
    refine (forall₂_alternatives hd (forall₂_chosen_named types type name)).imp fun pick p hp => ?_
    obtain ⟨q, hq, hgive⟩ := hp
    exact hq.give hgive
  | @array inner name default _ _ hd ih =>
    have hshapes : List.Forall₂ (fun pick p => ∃ ps, ChosenAll types inner pick ps ∧
        p = .array { name } ps)
        (choices (overloadCounts types (Declaration.occurrencesAll types inner)))
        ((Declaration.array inner name default).shapes types) := by
      rw [Declaration.shapes, List.forall₂_map_right_iff]
      exact (forall₂_chosenAll ih).imp fun pick ps hps => ⟨ps, hps, rfl⟩
    rw [Declaration.occurrences]
    refine (forall₂_alternatives hd hshapes).imp fun pick p hp => ?_
    obtain ⟨_, ⟨ps, hps, rfl⟩, hgive⟩ := hp
    exact .array hps hgive

/-- **Signatures that enumerate the choices** which declarations leave open. -/
structure Enumerate (types : NamedTypes) (ds : List Declaration) (signatures : List Signature) :
    Prop where
  /-- There are as many as the overloads of the types that are named, once for
  each time that they are, multiply to. -/
  length_eq : signatures.length =
    (overloadCounts types (Declaration.occurrencesAll types ds)).prod
  /-- Each is what a choice makes and nothing else. All choices occur, once each
  and in lexicographic order. -/
  ordered : ∃ picks : List (List Nat), picks.Pairwise (· < ·) ∧
    (∀ pick, pick ∈ picks ↔
      List.Forall₂ (· < ·) pick (overloadCounts types (Declaration.occurrencesAll types ds))) ∧
    List.Forall₂ (fun pick s => ∀ ps, ChosenAll types ds pick ps ↔ ps = s.params) picks signatures
  /-- They differ in nothing but overloads and defaults. -/
  variants : ∀ s ∈ signatures, ∀ s' ∈ signatures, List.Forall₂ Variants s.params s'.params

theorem exists_of_forall₂ {α β : Type} {R : α → β → Prop} {xs : List α} {ys : List β}
    (h : List.Forall₂ R xs ys) : ∀ y ∈ ys, ∃ x, R x y := by
  induction h with
  | nil => simp
  | cons hxy _ ih => exact List.forall_mem_cons.2 ⟨⟨_, hxy⟩, ih⟩

/-- **What declarations stand for enumerates the choices.** -/
theorem enumerate_expand (h : ∀ d ∈ ds, d.Fits types) :
    Enumerate types ds ((Declaration.expand types ds).map fun ps => ⟨ps⟩) := by
  have hall := forall₂_chosenAll fun d hd => (h d hd).forall₂_chosen
  refine ⟨?_, ⟨_, pairwise_choices _, fun pick => mem_choices_iff, ?_⟩, ?_⟩
  · rw [List.length_map, ← hall.length_eq, length_choices]
  · rw [List.forall₂_map_right_iff]
    refine hall.imp fun pick ps hps qs => ⟨fun hqs => hqs.unique hps, ?_⟩
    rintro rfl
    exact hps
  · simp only [List.forall_mem_map]
    intro ps hps qs hqs
    obtain ⟨pick, hps⟩ := exists_of_forall₂ hall ps hps
    obtain ⟨pick', hqs⟩ := exists_of_forall₂ hall qs hqs
    exact hps.variants hqs

end Signature

end CommandScript
