import CommandScript.Proofs.Signature.Literal

/-!
# The reader of signatures follows the grammar

What the reader takes off its tokens derives from the grammar
(`derives_of_params`), by induction on the calls it has left, and stands for
what is read. What derives is taken off, if its defaults fit
(`params_of_isParams`), by induction on the derivation. Since parentheses
match in all that derives, a leading one closes with the last token exactly
where it is the signature's own, and a signature is read if and only if its
tokens derive and its declarations hold together (`paramLists_eq_ok_iff`).
-/

namespace CommandScript

namespace Signature

variable {r : Reader} {types : NamedTypes} {n room calls : Nat} {nested : Bool}
  {toks rest : List Placed} {ts us : List Token} {v : Value} {default : Option Value}
  {d : Declaration} {ds : List Declaration}

/-! ## What declarations stand for -/

/-- Types with overloads. -/
def NonemptyTypes (types : NamedTypes) : Prop :=
  ∀ w overloads, types w = some overloads → overloads ≠ []

/-- The parameters that a declaration may stand for, each with the default. -/
def Declaration.alternatives (types : NamedTypes) (d : Declaration) : List Param :=
  (d.shapes types).filterMap (give d.default?)

theorem Declaration.expand_cons :
    expand types (d :: ds) =
      (d.alternatives types).flatMap fun p => (expand types ds).map (p :: ·) := by
  rw [expand]
  rfl

theorem Declaration.default?_of_mem_shapes {p : Param} (hp : p ∈ d.shapes types) :
    p.default? = none := by
  cases d with
  | word type name default =>
    rw [shapes, named] at hp
    split at hp
    · obtain rfl := List.mem_singleton.1 hp
      rfl
    · split at hp
      · obtain ⟨s, -, rfl⟩ := List.mem_map.1 hp
        rfl
      · obtain rfl := List.mem_singleton.1 hp
        rfl
  | array inner name default =>
    rw [shapes] at hp
    obtain ⟨ps, -, rfl⟩ := List.mem_map.1 hp
    rfl

/-- All that a declaration may stand for has a default, or none has. -/
theorem Declaration.isOptional_of_mem {p : Param} (hp : p ∈ d.alternatives types) :
    p.isOptional = d.default?.isSome := by
  obtain ⟨q, hq, hgive⟩ := List.mem_filterMap.1 hp
  cases hd : d.default? with
  | none =>
    rw [hd] at hgive
    cases hgive
    unfold Param.isOptional
    rw [default?_of_mem_shapes hq]
  | some v =>
    rw [hd] at hgive
    obtain ⟨e, -, rfl⟩ := Option.map_eq_some_iff.1 hgive
    exact isOptional_withDefault q _

theorem Declaration.alternatives_ne_nil (hd : DefaultFits types d) (h : d.shapes types ≠ []) :
    d.alternatives types ≠ [] := by
  obtain ⟨p, ps, hps⟩ := List.exists_cons_of_ne_nil h
  have hp : p ∈ d.shapes types := by
    rw [hps]
    exact List.mem_cons_self
  have hgive : ∃ q, give d.default? p = some q := by
    cases hdef : d.default? with
    | none => exact ⟨p, rfl⟩
    | some v =>
      obtain ⟨e, he⟩ := Option.isSome_iff_exists.1 (hd v hdef p hp)
      exact ⟨p.withDefault e.detach, by rw [give, he]; rfl⟩
  obtain ⟨q, hq⟩ := hgive
  exact List.ne_nil_of_mem (List.mem_filterMap.2 ⟨p, hp, hq⟩)

/-- **A declaration of one thing**, which takes the default. -/
theorem Declaration.alternatives_of_give {p q : Param} (hshapes : d.shapes types = [p])
    (hgive : give d.default? p = some q) : DefaultFits types d ∧ d.alternatives types = [q] := by
  constructor
  · intro v hv u hu
    rw [hshapes] at hu
    obtain rfl := List.mem_singleton.1 hu
    rw [hv] at hgive
    obtain ⟨e, he, -⟩ := Option.map_eq_some_iff.1 hgive
    rw [he]
    rfl
  · rw [alternatives, hshapes, List.filterMap_cons, hgive]
    rfl

theorem Declaration.expand_ne_nil (h : ∀ d ∈ ds, d.alternatives types ≠ []) :
    expand types ds ≠ [] := by
  induction ds with
  | nil =>
    rw [expand]
    exact List.cons_ne_nil _ _
  | cons d ds ih =>
    obtain ⟨p, hp⟩ := List.exists_mem_of_ne_nil _ (h d List.mem_cons_self)
    obtain ⟨ps, hps⟩ := List.exists_mem_of_ne_nil _ (ih fun e he => h e (List.mem_cons_of_mem _ he))
    rw [expand_cons]
    exact List.ne_nil_of_mem (List.mem_flatMap.2 ⟨p, hp, List.mem_map.2 ⟨ps, hps, rfl⟩⟩)

/-- **A declaration whose defaults fit stands for something**, where types
have overloads. -/
theorem Declaration.Fits.ne_nil (htypes : NonemptyTypes types) (h : d.Fits types) :
    d.alternatives types ≠ [] := by
  induction h with
  | @word type name default hd =>
    refine alternatives_ne_nil hd ?_
    rw [shapes, named]
    split
    · exact List.cons_ne_nil _ _
    · split
      · rename_i overloads hget
        exact fun hnil => htypes type overloads hget (List.map_eq_nil_iff.1 hnil)
      · exact List.cons_ne_nil _ _
  | array _ _ hd ih =>
    refine alternatives_ne_nil hd ?_
    rw [shapes]
    exact fun hnil => expand_ne_nil ih (List.map_eq_nil_iff.1 hnil)

/-- **Declarations that hold together**, behind one with a default or not. -/
structure Accepted (types : NamedTypes) (earlier : Option String) (ds : List Declaration) :
    Prop where
  /-- The defaults fit. -/
  fits : ∀ d ∈ ds, d.Fits types
  /-- The defaults come last. -/
  defaultsLast : Declaration.DefaultsLast ds
  /-- Behind an earlier default, all have one. -/
  behind : earlier.isSome = true → ∀ d ∈ ds, d.default?.isSome = true

/-- **The rule for defaults, one declaration at a time**: a reader that
carries the last name with a default accepts what holds together. It looks at
the first alternative only, and all are alike. -/
theorem accepted_cons_iff (htypes : NonemptyTypes types) (hd : d.Fits types)
    {earlier : Option String} (column : Nat) :
    Accepted types earlier (d :: ds) ↔
      ∃ later, Reader.trailing column earlier (d.alternatives types) = .ok later ∧
        Accepted types later ds := by
  have hne := hd.ne_nil htypes
  have hoptional : ∀ p ∈ d.alternatives types, p.isOptional = d.default?.isSome :=
    fun _ hp => Declaration.isOptional_of_mem hp
  constructor
  · intro h
    obtain ⟨hfirst, hlast⟩ := List.pairwise_cons.1 h.defaultsLast
    obtain ⟨p, ps, hps⟩ := List.exists_cons_of_ne_nil hne
    rw [hps] at hoptional ⊢
    have hp := hoptional p List.mem_cons_self
    have hbefore : earlier.isSome = true → p.isOptional = true := fun he =>
      hp.trans (h.behind he d List.mem_cons_self)
    have htrailing : Reader.trailing column earlier (p :: ps) =
        .ok (if p.isOptional then some p.name else none) :=
      Reader.trailing_of_isOptional column hbefore
    refine ⟨_, htrailing, fun e he => h.fits e (List.mem_cons_of_mem _ he), hlast,
      fun hsome e he => ?_⟩
    rw [(Reader.trailing_eq_ok htrailing).2, hp] at hsome
    exact hfirst e he hsome
  · rintro ⟨later, htrailing, hds⟩
    obtain ⟨p, hp⟩ := List.exists_mem_of_ne_nil _ hne
    obtain ⟨hbefore, hafter⟩ := Reader.trailing_eq_ok_of_mem hoptional hp htrailing
    rw [hoptional p hp] at hbefore hafter
    refine ⟨List.forall_mem_cons.2 ⟨hd, hds.fits⟩,
      List.pairwise_cons.2 ⟨fun e he hsome => ?_, hds.defaultsLast⟩, fun he => ?_⟩
    · exact hds.behind (hafter.trans hsome) e he
    · have hsome := hbefore he
      exact List.forall_mem_cons.2 ⟨hsome, hds.behind (hafter.trans hsome)⟩

/-! ## Parameters -/

/-- A default is given to all that it fits, and must fit all. -/
theorem withDefaults_eq_ok_iff {column : Nat} : ∀ {ps qs : List Param},
    Reader.withDefaults column v ps = .ok qs ↔
      (∀ p ∈ ps, (v.resolve p).isSome = true) ∧ qs = ps.filterMap (Declaration.give (some v)) := by
  intro ps
  induction ps with
  | nil =>
    intro qs
    constructor
    · intro h
      cases h
      exact ⟨by simp, rfl⟩
    · rintro ⟨-, rfl⟩
      rfl
  | cons p ps ih =>
    intro qs
    rw [Reader.withDefaults, List.forall_mem_cons, List.filterMap_cons, Declaration.give]
    cases hp : v.resolve p with
    | none => simp
    | some e =>
      rw [map_eq_ok_iff]
      constructor
      · rintro ⟨given, hgiven, rfl⟩
        obtain ⟨hfit, rfl⟩ := ih.1 hgiven
        exact ⟨⟨rfl, hfit⟩, rfl⟩
      · rintro ⟨⟨-, hfit⟩, rfl⟩
        exact ⟨_, ih.2 ⟨hfit, rfl⟩, rfl⟩

/-- **What is read as a default derives**, and is given to all that it must
fit. -/
theorem derives_of_defaults {ps qs : List Param} (h : r.defaults room ps toks = .ok (qs, rest)) :
    ∃ ts default, IsDefault room ts default ∧
      (∀ v, default = some v → ∀ p ∈ ps, (v.resolve p).isSome = true) ∧
      qs = ps.filterMap (Declaration.give default) ∧
      toks.map Placed.token = ts ++ rest.map Placed.token := by
  rcases Reader.defaults_eq_ok h with ⟨column, inner, v, rfl, hv, hgiven⟩ | ⟨rfl, rfl⟩
  · obtain ⟨ts, hts, htoks⟩ := derives_of_literal hv
    obtain ⟨hfit, hqs⟩ := withDefaults_eq_ok_iff.1 hgiven
    refine ⟨_, some v, .some hts, fun w hw => ?_, hqs, ?_⟩
    · cases hw
      exact hfit
    · rw [List.map_cons, htoks]
      rfl
  · have hnone : qs.filterMap (Declaration.give none) = qs := List.filterMap_some
    exact ⟨[], none, .none, by simp, hnone.symm, rfl⟩

/-- **A default that derives is read**, if it fits. -/
theorem defaults_of_isDefault {ps : List Param} (h : IsDefault room ts default)
    (hfit : ∀ v, default = some v → ∀ p ∈ ps, (v.resolve p).isSome = true) (hus : Separate us)
    (htoks : toks.map Placed.token = ts ++ us) :
    ∃ rest, r.defaults room ps toks = .ok (ps.filterMap (Declaration.give default), rest) ∧
      rest.map Placed.token = us := by
  cases h with
  | none =>
    refine ⟨toks, ?_, htoks⟩
    have hnone : ps.filterMap (Declaration.give none) = ps := List.filterMap_some
    rw [hnone]
    rw [List.nil_append] at htoks
    unfold Reader.defaults
    split
    · subst htoks
      exact absurd rfl hus.2
    · rfl
  | @some ts v hv =>
    obtain ⟨column, inner, rfl, hinner⟩ := exists_of_map_cons htoks
    obtain ⟨rest, hread, hrest⟩ := literal_of_isLiteral (r := r) hv hinner
    refine ⟨rest, ?_, hrest⟩
    have hgiven : Reader.withDefaults (r.column inner) v ps =
        .ok (ps.filterMap (Declaration.give (some v))) :=
      withDefaults_eq_ok_iff.2 ⟨hfit v rfl, rfl⟩
    change (r.literal room inner >>= fun read =>
      Reader.withDefaults (r.column inner) read.1 ps >>= fun given => pure (given, read.2)) = _
    exact bind_eq_ok_iff.2 ⟨_, hread, bind_eq_ok_iff.2 ⟨_, hgiven, rfl⟩⟩

theorem derives_of_name {name : String} (h : r.name toks = .ok (name, rest)) :
    ∃ t, IsName name t ∧ toks.map Placed.token = t :: rest.map Placed.token := by
  obtain ⟨t, column, rfl, rfl | rfl⟩ := Reader.name_eq_ok h
  · exact ⟨_, .word, rfl⟩
  · exact ⟨_, .quoted, rfl⟩

theorem name_of_isName {name : String} {t : Token} (h : IsName name t)
    (htoks : toks.map Placed.token = t :: us) :
    ∃ rest, r.name toks = .ok (name, rest) ∧ rest.map Placed.token = us := by
  obtain ⟨column, rest, rfl, hrest⟩ := exists_of_map_cons htoks
  cases h with
  | word => exact ⟨rest, rfl, hrest⟩
  | quoted => exact ⟨rest, rfl, hrest⟩

/-- What ends a list of declarations. -/
def closing (nested : Bool) : List Token :=
  if nested then [.closeParen] else []

/-- What ends declarations belongs to none of them. -/
theorem separate_closing (hus : nested = false → us = []) : Separate (closing nested ++ us) := by
  cases nested with
  | true => exact ⟨by simp [closing], by simp [closing]⟩
  | false =>
    rw [hus rfl]
    exact ⟨by simp [closing], by simp [closing]⟩

/-- Where declarations end, one list is read, and it is empty. -/
theorem params_of_isComma {earlier : Option String} (hcs : IsComma ts) (hcalls : 0 < calls)
    (hus : nested = false → us = []) (htoks : toks.map Placed.token = ts ++ (closing nested ++ us)) :
    ∃ rest, r.params calls nested room earlier toks = .ok ([[]], rest) ∧
      rest.map Placed.token = us := by
  obtain ⟨calls, rfl⟩ : ∃ n, calls = n + 1 := ⟨calls - 1, by omega⟩
  cases nested with
  | true =>
    obtain ⟨column, rest, hskip, hrest⟩ := exists_of_map_cons (map_skipComma hcs htoks (by simp))
    refine ⟨rest, ?_, hrest⟩
    unfold Reader.params
    rw [hskip]
  | false =>
    obtain rfl := hus rfl
    have hskip := List.map_eq_nil_iff.1 (map_skipComma hcs htoks (by simp))
    refine ⟨[], ?_, rfl⟩
    unfold Reader.params
    rw [hskip]

theorem derives_of_param {t : Placed} {ps : List Param} {after : List Placed}
    (hparams : ∀ {room : Nat} {toks : List Placed} {lists : List (List Param)}
      {rest : List Placed}, r.params calls true room none toks = .ok (lists, rest) →
        ∃ ts ds, IsParams room ts ds ∧ Accepted r.types none ds ∧
          lists = Declaration.expand r.types ds ∧
          toks.map Placed.token = ts ++ .closeParen :: rest.map Placed.token)
    (h : r.param calls room t rest = .ok (ps, after)) :
    ∃ ts d, IsParam room ts d ∧ d.Fits r.types ∧ ps = d.alternatives r.types ∧
      (t :: rest).map Placed.token = ts ++ after.map Placed.token := by
  obtain ⟨type, afterType, name, afterName, htype, hname, hdefaults⟩ :=
    Reader.param_eq_ok_iff.1 h
  obtain ⟨u, hu, hnamed⟩ := derives_of_name hname
  obtain ⟨us, default, hus, hfit, rfl, hlater⟩ := derives_of_defaults hdefaults
  rcases Reader.typeWith_eq_ok htype with ⟨w, column, rfl, rfl, rfl⟩ |
    ⟨column, room', lists, rfl, rfl, hlists, rfl⟩
  · refine ⟨_, .word w name default, .word hu hus, .word hfit, rfl, ?_⟩
    rw [List.map_cons, hnamed, hlater]
    rfl
  · obtain ⟨ts, ds, hts, hds, rfl, hinner⟩ := hparams hlists
    refine ⟨_, .array ds name default, .array hts hu hus,
      .array hds.fits hds.defaultsLast hfit, rfl, ?_⟩
    rw [List.map_cons, hinner, hnamed, hlater, List.append_assoc, parenTokens_append]
    rfl

/-- **What is read as parameters derives**, holds together, and stands for the
lists that are read. -/
theorem derives_of_params (htypes : NonemptyTypes r.types) :
    ∀ {calls room : Nat} {nested : Bool} {earlier : Option String} {toks : List Placed}
      {lists : List (List Param)} {rest : List Placed},
      r.params calls nested room earlier toks = .ok (lists, rest) →
        ∃ ts ds, IsParams room ts ds ∧ Accepted r.types earlier ds ∧
          lists = Declaration.expand r.types ds ∧
          toks.map Placed.token = ts ++ (closing nested ++ rest.map Placed.token) ∧
          (nested = false → rest = []) := by
  intro calls
  induction calls with
  | zero =>
    intro room nested earlier toks lists rest h
    cases h
  | succ calls ih =>
    intro room nested earlier toks lists rest h
    obtain ⟨cs, hcs, hcomma⟩ := exists_comma toks
    rcases Reader.params_eq_ok h with ⟨rfl, hend⟩ |
      ⟨t, more, ps, after, later, tails, hskip, hparam, htrailing, htails, rfl⟩
    · refine ⟨cs, [], .nil hcs, ⟨by simp, .nil, by simp⟩, rfl, ?_⟩
      rcases hend with ⟨rfl, hskip, rfl⟩ | ⟨rfl, column, hskip⟩
      · rw [hskip] at hcomma
        exact ⟨hcomma, fun _ => rfl⟩
      · rw [hskip] at hcomma
        exact ⟨hcomma, by simp⟩
    · obtain ⟨ts, d, hts, hd, rfl, hfirst⟩ := derives_of_param
        (fun h => by
          obtain ⟨ts, ds, hts, hds, hlists, htoks, -⟩ := ih h
          exact ⟨ts, ds, hts, hds, hlists, htoks⟩)
        hparam
      obtain ⟨us, ds, hus, hds, rfl, hothers, hrest⟩ := ih htails
      refine ⟨_, d :: ds, .cons hcs hts hus,
        (accepted_cons_iff htypes hd _).2 ⟨later, htrailing, hds⟩, rfl, ?_, hrest⟩
      rw [hcomma, hskip, hfirst, hothers]
      simp only [List.append_assoc]

mutual

/-- A declaration that derives is read, whatever comes behind it that cannot
belong to it. -/
theorem param_of_isParam (htypes : NonemptyTypes r.types) :
    ∀ {room : Nat} {ts : List Token} {d : Declaration}, IsParam room ts d → d.Fits r.types →
      ∀ {calls : Nat} {t : Placed} {more : List Placed} {us : List Token},
        ts.length ≤ calls → Separate us → (t :: more).map Placed.token = ts ++ us →
          ∃ rest, r.param calls room t more = .ok (d.alternatives r.types, rest) ∧
            rest.map Placed.token = us
  | _, _, _, .word hname hdefault, .word hfit, _, _, _, _, _, hus, htoks => by
    obtain ⟨column, more, hcons, hmore⟩ := exists_of_map_cons htoks
    cases hcons
    obtain ⟨afterName, hreadName, hafterName⟩ := name_of_isName (r := r) hname hmore
    obtain ⟨rest, hread, hrest⟩ := defaults_of_isDefault (r := r) hdefault hfit hus hafterName
    exact ⟨rest, Reader.param_eq_ok_iff.2 ⟨_, _, _, _, rfl, hreadName, hread⟩, hrest⟩
  | _, _, _, @IsParam.array n ts ds u inner name default hinner hname hdefault,
      .array hfits hlast hfit, calls, _, more, us, hcalls, hus, htoks => by
    rw [List.append_assoc, parenTokens_append] at htoks
    obtain ⟨column, inside, hcons, hmore⟩ := exists_of_map_cons htoks
    cases hcons
    rw [List.length_append, length_parenTokens] at hcalls
    have haccepted : Accepted r.types none inner := ⟨hfits, hlast, by simp⟩
    have hopen : true = false → u :: ds ++ us = [] := by simp
    have hclosed : more.map Placed.token = ts ++ (closing true ++ (u :: ds ++ us)) := hmore
    obtain ⟨afterType, hreadType, hafterType⟩ := params_of_isParams htypes hinner haccepted
      (by omega : _ < calls) hopen hclosed
    have htype : r.typeWith (fun room toks => r.params calls true room none toks) (n + 1) more
        ⟨.openParen, column⟩ = .ok
          (fun name => (Declaration.expand r.types inner).map (.array { name }), afterType) := by
      change (r.params calls true n none more).map _ = _
      rw [hreadType]
      rfl
    obtain ⟨afterName, hreadName, hafterName⟩ := name_of_isName (r := r) hname hafterType
    obtain ⟨rest, hread, hrest⟩ := defaults_of_isDefault (r := r) hdefault hfit hus hafterName
    refine ⟨rest, Reader.param_eq_ok_iff.2 ⟨_, _, name, _, htype, hreadName, ?_⟩, hrest⟩
    rw [Declaration.shapes] at hread
    rw [hread, Declaration.alternatives, Declaration.shapes]
    rfl

/-- **Declarations that derive and hold together are read** as what they stand
for. -/
theorem params_of_isParams (htypes : NonemptyTypes r.types) :
    ∀ {room : Nat} {ts : List Token} {ds : List Declaration}, IsParams room ts ds →
      ∀ {calls : Nat} {nested : Bool} {earlier : Option String} {toks : List Placed}
        {us : List Token}, Accepted r.types earlier ds → ts.length < calls →
        (nested = false → us = []) → toks.map Placed.token = ts ++ (closing nested ++ us) →
          ∃ rest, r.params calls nested room earlier toks =
            .ok (Declaration.expand r.types ds, rest) ∧ rest.map Placed.token = us
  | _, _, _, .nil hcs, _, _, _, _, _, _, hcalls, hus, htoks => by
    rw [Declaration.expand]
    exact params_of_isComma hcs (Nat.zero_lt_of_lt hcalls) hus htoks
  | room, _, _, @IsParams.cons _ cs ts us d ds hcs hd hds, calls, nested, earlier, toks, rest,
      haccepted, hcalls, hrest, htoks => by
    obtain ⟨calls, rfl⟩ : ∃ n, calls = n + 1 := ⟨calls - 1, by omega⟩
    have hfit := haccepted.fits d List.mem_cons_self
    obtain ⟨t, first, rfl, ht⟩ := hd.exists_head
    obtain ⟨hcomma, hclose⟩ := ne_of_begins ht
    simp only [List.length_append, List.length_cons] at hcalls
    simp only [List.append_assoc] at htoks
    have hskipped := map_skipComma hcs htoks (by simpa using hcomma)
    obtain ⟨column, behind, hskip, -⟩ := exists_of_map_cons hskipped
    rw [hskip] at hskipped
    have hbehind : Separate (us ++ (closing nested ++ rest)) :=
      hds.separate (separate_closing hrest)
    have hlen : (t :: first).length ≤ calls := by
      rw [List.length_cons]
      omega
    obtain ⟨after, hread, hafter⟩ :=
      param_of_isParam htypes hd hfit hlen hbehind hskipped
    obtain ⟨later, htrailing, hlater⟩ := (accepted_cons_iff htypes hfit column).1 haccepted
    obtain ⟨last, hreadLater, hlastRest⟩ :=
      params_of_isParams htypes hds hlater (by omega : _ < calls) hrest hafter
    refine ⟨last, ?_, hlastRest⟩
    rw [Reader.params_cons hskip fun _ => hclose, Declaration.expand_cons]
    exact bind_eq_ok_iff.2 ⟨_, hread, bind_eq_ok_iff.2 ⟨_, htrailing,
      bind_eq_ok_iff.2 ⟨_, hreadLater, rfl⟩⟩⟩

end

/-! ## Signatures -/

/-- **The lookahead leaves the type of a first parameter alone**: its
parenthesis does not close with the last token, for a name comes behind. -/
theorem closes_eq_false (h : IsParams n us ds) (hus : us = .openParen :: ts) :
    closes 0 ts = false := by
  cases h with
  | nil hc =>
    cases hc with
    | none => cases hus
    | one => cases hus
  | @cons _ cs first others d ds hc hd _ =>
    cases hc with
    | one => cases hus
    | none =>
      cases hd with
      | word => cases hus
      | @array n inner after t _ _ _ hinner _ _ =>
        rw [List.nil_append, List.append_assoc, parenTokens_append] at hus
        obtain ⟨-, rfl⟩ := List.cons.inj hus
        obtain ⟨m, -, hm⟩ := hinner.balanced
        exact hm.closes_closeParen _

theorem paramLists_of_not_closesLast
    (h : ∀ column inner, toks = ⟨.openParen, column⟩ :: inner → closesLast 0 inner = false) :
    paramLists r toks = (r.params (toks.length + 1) false maxNesting none toks).map Prod.fst := by
  unfold paramLists
  split
  · rename_i column inner
    rw [h column inner rfl]
    rfl
  · rfl

/-- **What is read as a signature derives**, holds together, and stands for
the lists that are read. -/
theorem derives_of_paramLists (htypes : NonemptyTypes r.types) {lists : List (List Param)}
    (h : paramLists r toks = .ok lists) :
    ∃ ds, IsSignature (toks.map Placed.token) ds ∧ Accepted r.types none ds ∧
      lists = Declaration.expand r.types ds := by
  rcases paramLists_eq_ok h with ⟨column, inner, rest, rfl, hcloses, hread⟩ | ⟨rest, hread⟩
  · obtain ⟨ts, ds, hts, hds, rfl, htoks, -⟩ := derives_of_params htypes hread
    obtain ⟨m, -, hm⟩ := hts.balanced
    have htoks : inner.map Placed.token = ts ++ .closeParen :: rest.map Placed.token := htoks
    -- what closes with the last token leaves no tokens behind it
    rw [closesLast_eq, htoks, hm.closes_closeParen, List.isEmpty_iff] at hcloses
    rw [hcloses] at htoks
    refine ⟨ds, ?_, hds, rfl⟩
    rw [List.map_cons, htoks]
    exact .wrapped hts
  · obtain ⟨ts, ds, hts, hds, rfl, htoks, hrest⟩ := derives_of_params htypes hread
    have hend : closing false ++ List.map Placed.token [] = [] := rfl
    rw [hrest rfl, hend, List.append_nil] at htoks
    refine ⟨ds, ?_, hds, rfl⟩
    rw [htoks]
    exact .bare hts

/-- **A signature that derives is read**, if its declarations hold together,
as what they stand for. -/
theorem paramLists_of_isSignature (htypes : NonemptyTypes r.types)
    (hsignature : IsSignature us ds) (hds : Accepted r.types none ds)
    (hus : toks.map Placed.token = us) :
    paramLists r toks = .ok (Declaration.expand r.types ds) := by
  cases hsignature with
  | @wrapped ts _ hts =>
    obtain ⟨column, inner, rfl, hinner⟩ := exists_of_map_cons hus
    obtain ⟨m, -, hm⟩ := hts.balanced
    have hcloses : closesLast 0 inner = true := by
      rw [closesLast_eq, hinner, hm.closes_closeParen]
      rfl
    have hlen := congrArg List.length hinner
    rw [List.length_map, List.length_append] at hlen
    have hopen : true = false → ([] : List Token) = [] := fun _ => rfl
    obtain ⟨rest, hread, -⟩ :=
      params_of_isParams htypes hts hds (by omega : _ < inner.length + 1) hopen hinner
    rw [paramLists_of_closesLast hcloses, hread]
    rfl
  | bare hts =>
    have hcloses : ∀ column inner, toks = ⟨.openParen, column⟩ :: inner →
        closesLast 0 inner = false := by
      rintro column inner rfl
      rw [closesLast_eq]
      exact closes_eq_false hts hus.symm
    have hlen := congrArg List.length hus
    rw [List.length_map] at hlen
    have hend : toks.map Placed.token = us ++ (closing false ++ []) :=
      hus.trans (List.append_nil us).symm
    obtain ⟨rest, hread, -⟩ :=
      params_of_isParams htypes hts hds (by omega : _ < toks.length + 1) (fun _ => rfl) hend
    rw [paramLists_of_not_closesLast hcloses, hread]
    rfl

/-- **A signature is read if and only if it derives** and its declarations
hold together, and as what they stand for. -/
theorem paramLists_eq_ok_iff (htypes : NonemptyTypes r.types) {lists : List (List Param)} :
    paramLists r toks = .ok lists ↔
      ∃ ds, IsSignature (toks.map Placed.token) ds ∧ Accepted r.types none ds ∧
        lists = Declaration.expand r.types ds := by
  refine ⟨derives_of_paramLists htypes, ?_⟩
  rintro ⟨ds, hsignature, hds, rfl⟩
  exact paramLists_of_isSignature htypes hsignature hds rfl

end Signature

end CommandScript
