import CommandScript.Proofs.Signature.Default
import CommandScript.Proofs.Signature.Steps
import CommandScript.Vocabulary.TypeTable

/-!
# What reading a signature yields

What is read is compiled (`compiled_of_params`): types are spelled as kinds,
names of types or parameters in parentheses, names hold no quotes, defaults
are settled, and they come last. All of this follows from what each step of
the reader does, by induction on the calls it has left.
-/

namespace CommandScript

namespace Signature

/-! ## Literals -/

/-- Tokens that characters can make. -/
def WellFormed (toks : List Placed) : Prop :=
  ∀ t ∈ toks, t.token.WellFormed

variable {r : Reader} {calls room : Nat} {nested : Bool} {toks rest : List Placed} {t : Placed}

theorem WellFormed.tail (h : WellFormed (t :: toks)) : WellFormed toks :=
  fun u hu => h u (List.mem_cons_of_mem _ hu)

theorem WellFormed.skipComma (h : WellFormed toks) : WellFormed (skipComma toks) := by
  unfold Signature.skipComma
  split
  · exact h.tail
  · exact h

theorem WellFormed.takeLabel (h : WellFormed toks) : WellFormed (Reader.takeLabel toks).2 := by
  unfold Reader.takeLabel
  split
  · exact h.tail.tail
  · exact h.tail.tail
  · exact h

theorem isLiteral_of_literalWith
    {entries : Nat → List Placed → Except ParseError (Parsed (List Value))} {v : Value}
    (hentries : ∀ {room : Nat} {toks : List Placed} {vs : List Value} {rest : List Placed},
      WellFormed toks → entries room toks = .ok (vs, rest) →
        (∀ u ∈ vs, u.IsLiteral) ∧ WellFormed rest)
    (ht : WellFormed toks) (h : r.literalWith entries room toks = .ok (v, rest)) :
    v.IsLiteral ∧ WellFormed rest := by
  rcases Reader.literalWith_eq_ok h with ⟨w, column, rfl, rfl⟩ | ⟨q, column, rfl, rfl⟩ |
    ⟨column, inner, room', vs, rfl, rfl, hvs, rfl⟩
  · exact ⟨.word (ht _ List.mem_cons_self), ht.tail⟩
  · exact ⟨.quoted (ht _ List.mem_cons_self), ht.tail⟩
  · obtain ⟨hlit, hrest⟩ := hentries ht.tail hvs
    exact ⟨.array hlit, hrest⟩

theorem isLiteral_of_entries : ∀ {calls room : Nat} {toks : List Placed} {vs : List Value}
    {rest : List Placed}, WellFormed toks → r.entries calls room toks = .ok (vs, rest) →
      (∀ v ∈ vs, v.IsLiteral) ∧ WellFormed rest := by
  intro calls
  induction calls with
  | zero =>
    intro room toks vs rest _ h
    cases h
  | succ calls ih =>
    intro room toks vs rest ht h
    rcases Reader.entries_eq_ok h with ⟨column, hskip, rfl⟩ | ⟨v, after, more, hv, hmore, rfl⟩
    · have hend := ht.skipComma
      rw [hskip] at hend
      exact ⟨by simp, hend.tail⟩
    · obtain ⟨hlit, hafter⟩ := isLiteral_of_literalWith ih ht.skipComma.takeLabel hv
      obtain ⟨hlits, hrest⟩ := ih hafter hmore
      refine ⟨fun u hu => ?_, hrest⟩
      rcases List.mem_cons.1 hu with rfl | hu
      · exact hlit.rename
      · exact hlits u hu

/-- **What is read as a literal is one.** -/
theorem isLiteral_of_literal {v : Value} (ht : WellFormed toks)
    (h : r.literal room toks = .ok (v, rest)) : v.IsLiteral ∧ WellFormed rest :=
  isLiteral_of_literalWith isLiteral_of_entries ht h

/-! ## Parameters -/

/-- A kind that a word spells: a primitive kind, or an unknown one by a word
that is nothing else. -/
structure IsSpelled (types : NamedTypes) (k : Kind) : Prop where
  /-- The spelling is a word. -/
  run : Text.IsRun k.name.toList
  /-- The word spells the kind. -/
  kind : Kind.ofWord k.name = some k ∨
    Kind.ofWord k.name = none ∧ types k.name = none ∧ k = .unknown k.name

/-- Defaults come last: behind a parameter that has one, all have. -/
def DefaultsLast (ps : List Param) : Prop :=
  ps.Pairwise fun p q => p.isOptional = true → q.isOptional = true

/-- What holds of every parameter: the name holds no quote, and the default
is settled. -/
structure IsDeclared (p : Param) : Prop where
  /-- The name can be written in quotes. -/
  name : '"' ∉ p.name.toList
  /-- The default is read back from its printed form. -/
  default (d : Value) : p.default? = some d → Param.Settled p d

/-- **A parameter as a reader yields it**: a scalar of a kind that can be
spelled, an array by the name of a type, or an array by its parameters. -/
inductive Compiled (types : NamedTypes) : Param → Prop
  | scalar {h : ParamHead} {k : Kind} :
      h.typeName = none → IsSpelled types k → IsDeclared (.scalar h k) →
      Compiled types (.scalar h k)
  | named {h : ParamHead} {w : String} {overloads : List Signature} {s : Signature} :
      h.typeName = some w → Text.IsRun w.toList → Kind.ofWord w = none →
      types w = some overloads → s ∈ overloads → (∀ p ∈ s.params, p.Sound) →
      IsDeclared (.array h s.params) → Compiled types (.array h s.params)
  | array {h : ParamHead} {ps : List Param} :
      h.typeName = none → (∀ p ∈ ps, Compiled types p) → DefaultsLast ps →
      IsDeclared (.array h ps) → Compiled types (.array h ps)

/-- Types whose overloads have settled defaults. -/
def SoundTypes (types : NamedTypes) : Prop :=
  ∀ w overloads, types w = some overloads → ∀ s ∈ overloads, ∀ p ∈ s.params, p.Sound

variable {types : NamedTypes} {p : Param} {d : Value}

theorem Compiled.declared (h : Compiled types p) : IsDeclared p := by
  cases h with
  | scalar _ _ hp => exact hp
  | named _ _ _ _ _ _ hp => exact hp
  | array _ _ _ hp => exact hp

/-- **The defaults of what is read are settled**, all the way down. -/
theorem Compiled.sound (h : Compiled types p) : p.Sound := by
  induction h with
  | scalar _ _ hp => exact .scalar hp.default
  | named _ _ _ _ _ hs hp => exact .array hp.default hs
  | array _ _ _ hp ih => exact .array hp.default ih

theorem IsDeclared.withDefault (h : IsDeclared p) (hd : Param.Settled p d) :
    IsDeclared (p.withDefault d) where
  name := by
    cases p <;> exact h.name
  default e he := by
    have hsame : e = d := by
      cases p <;> cases he <;> rfl
    rw [hsame]
    exact Param.settled_withDefault hd

/-- A parameter takes a settled default. -/
theorem Compiled.withDefault (h : Compiled types p) (hd : Param.Settled p d) :
    Compiled types (p.withDefault d) := by
  have hdecl := h.declared.withDefault hd
  cases h with
  | scalar ht hk _ => exact .scalar ht hk hdecl
  | @named hp w overloads s ht hw hof htypes hs hps _ =>
    exact Compiled.named (h := { hp with default := some d }) ht hw hof htypes hs hps hdecl
  | @array hp ps ht hps hlast _ =>
    exact Compiled.array (h := { hp with default := some d }) ht hps hlast hdecl

/-- A parameter without a default has none to settle. -/
theorem isDeclared_of_none (hq : '"' ∉ p.name.toList) (hd : p.default? = none) : IsDeclared p where
  name := hq
  default e he := by
    rw [hd] at he
    cases he

/-- A primitive kind is spelled by its own name. -/
theorem isSpelled_of_ofWord {w : String} {k : Kind} (h : Kind.ofWord w = some k) :
    IsSpelled types k := by
  have hkind : k ∈ [Kind.int, .float, .bool, .string, .any] := by
    unfold Kind.ofWord at h
    repeat' split at h
    all_goals cases h
    all_goals decide
  have hall : ∀ k ∈ [Kind.int, .float, .bool, .string, .any],
      Text.IsRun k.name.toList ∧ Kind.ofWord k.name = some k := by decide
  obtain ⟨hrun, hof⟩ := hall k hkind
  exact ⟨hrun, .inl hof⟩

/-- **What a word in type position asks for**, under a name. -/
theorem compiled_of_shapes {w n : String} (htypes : SoundTypes r.types)
    (hw : Text.IsRun w.toList) (hn : '"' ∉ n.toList) :
    ∀ p ∈ r.shapes w n, Compiled r.types p ∧ p.default? = none := by
  unfold Reader.shapes
  cases hof : Kind.ofWord w with
  | some k =>
    intro p hp
    obtain rfl := List.mem_singleton.1 hp
    exact ⟨.scalar rfl (isSpelled_of_ofWord hof) (isDeclared_of_none hn rfl), rfl⟩
  | none =>
    cases ht : r.types w with
    | some overloads =>
      intro p hp
      simp only [List.mem_map] at hp
      obtain ⟨s, hs, rfl⟩ := hp
      exact ⟨.named rfl hw hof ht hs (htypes w overloads ht s hs) (isDeclared_of_none hn rfl), rfl⟩
    | none =>
      intro p hp
      obtain rfl := List.mem_singleton.1 hp
      exact ⟨.scalar rfl ⟨hw, .inr ⟨hof, ht, rfl⟩⟩ (isDeclared_of_none hn rfl), rfl⟩

/-- **Compiled parameters in a row**, behind one with a default or not. -/
structure CompiledList (types : NamedTypes) (earlier : Option String) (ps : List Param) :
    Prop where
  /-- Each is compiled. -/
  compiled : ∀ p ∈ ps, Compiled types p
  /-- The defaults come last. -/
  defaultsLast : DefaultsLast ps
  /-- Behind an earlier default, all have one. -/
  behind : earlier.isSome = true → ∀ p ∈ ps, p.isOptional = true

/-- A parameter that the rule for defaults lets through, in front of others. -/
theorem CompiledList.cons {earlier later : Option String} {p : Param} {ps : List Param}
    (hp : Compiled types p) (hbefore : earlier.isSome = true → p.isOptional = true)
    (hlater : later.isSome = p.isOptional) (h : CompiledList types later ps) :
    CompiledList types earlier (p :: ps) where
  compiled := List.forall_mem_cons.2 ⟨hp, h.compiled⟩
  defaultsLast :=
    List.pairwise_cons.2 ⟨fun q hq ho => h.behind (hlater.trans ho) q hq, h.defaultsLast⟩
  behind he := by
    have ho := hbefore he
    exact List.forall_mem_cons.2 ⟨ho, h.behind (hlater.trans ho)⟩

/-- **A type, under a name**: what it asks for is compiled and has no
default. -/
theorem compiled_of_typeWith
    {params : Nat → List Placed → Except ParseError (Parsed (List (List Param)))}
    {type : String → List Param} {after : List Placed} (htypes : SoundTypes r.types)
    (hparams : ∀ {room : Nat} {lists : List (List Param)} {after : List Placed},
      params room rest = .ok (lists, after) →
        (∀ ps ∈ lists, CompiledList r.types none ps) ∧ WellFormed after)
    (ht : t.token.WellFormed) (hrest : WellFormed rest)
    (h : r.typeWith params room rest t = .ok (type, after)) :
    (∀ n : String, '"' ∉ n.toList → ∀ p ∈ type n, Compiled r.types p ∧ p.default? = none) ∧
      WellFormed after := by
  rcases Reader.typeWith_eq_ok h with ⟨w, column, rfl, rfl, rfl⟩ |
    ⟨column, room', lists, rfl, rfl, hlists, rfl⟩
  · exact ⟨fun n hn => compiled_of_shapes htypes ht hn, hrest⟩
  · obtain ⟨hall, hafter⟩ := hparams hlists
    refine ⟨fun n hn p hp => ?_, hafter⟩
    obtain ⟨ps, hps, rfl⟩ := List.mem_map.1 hp
    have hlist := hall ps hps
    exact ⟨.array rfl hlist.compiled hlist.defaultsLast (isDeclared_of_none hn rfl), rfl⟩

/-- **A parameter with its default, if there is one.** All it may be have a
default, or none has. -/
theorem compiled_of_defaults {ps qs : List Param}
    (hps : ∀ p ∈ ps, Compiled r.types p ∧ p.default? = none) (ht : WellFormed toks)
    (h : r.defaults room ps toks = .ok (qs, rest)) :
    (∀ q ∈ qs, Compiled r.types q) ∧ (∃ o, ∀ q ∈ qs, q.isOptional = o) ∧ WellFormed rest := by
  rcases Reader.defaults_eq_ok h with ⟨column, inner, v, rfl, hv, hgiven⟩ | ⟨rfl, rfl⟩
  · obtain ⟨hlit, hrest⟩ := isLiteral_of_literal ht.tail hv
    obtain ⟨-, hmem⟩ := Reader.exists_of_mem_withDefaults hgiven
    refine ⟨fun q hq => ?_, ⟨true, fun q hq => ?_⟩, hrest⟩
    · obtain ⟨p, hp, d, hd, rfl⟩ := hmem q hq
      have hcompiled := (hps p hp).1
      have hsettled := Param.settled_of_resolve hlit hcompiled.sound hd
      rw [hsettled.detach]
      exact hcompiled.withDefault hsettled
    · obtain ⟨p, -, d, -, rfl⟩ := hmem q hq
      exact isOptional_withDefault p _
  · refine ⟨fun q hq => (hps q hq).1, ⟨false, fun q hq => ?_⟩, ht⟩
    unfold Param.isOptional
    rw [(hps q hq).2]
    rfl

theorem wellFormed_of_name {n : String} (ht : WellFormed toks) (h : r.name toks = .ok (n, rest)) :
    '"' ∉ n.toList ∧ WellFormed rest := by
  obtain ⟨t, column, rfl, rfl | rfl⟩ := Reader.name_eq_ok h
  · have hrun : Text.IsRun n.toList := ht _ List.mem_cons_self
    exact ⟨hrun.quote_notMem, ht.tail⟩
  · exact ⟨ht _ List.mem_cons_self, ht.tail⟩

/-- **One parameter**: all that it may be is compiled, and has a default if any
of it has. -/
theorem compiled_of_param {ps : List Param} {after : List Placed} (htypes : SoundTypes r.types)
    (hparams : ∀ {room : Nat} {lists : List (List Param)} {after : List Placed},
      r.params calls true room none rest = .ok (lists, after) →
        (∀ ps ∈ lists, CompiledList r.types none ps) ∧ WellFormed after)
    (ht : WellFormed (t :: rest)) (h : r.param calls room t rest = .ok (ps, after)) :
    (∀ q ∈ ps, Compiled r.types q) ∧ (∃ o, ∀ q ∈ ps, q.isOptional = o) ∧ WellFormed after := by
  obtain ⟨type, afterType, n, afterName, htype, hname, hdefaults⟩ := Reader.param_eq_ok_iff.1 h
  obtain ⟨htype, hafterType⟩ :=
    compiled_of_typeWith htypes hparams (ht _ List.mem_cons_self) ht.tail htype
  obtain ⟨hn, hafterName⟩ := wellFormed_of_name hafterType hname
  exact compiled_of_defaults (htype n hn) hafterName hdefaults

/-- **What is read as parameters is compiled**, every list of them. -/
theorem compiled_of_params (htypes : SoundTypes r.types) :
    ∀ {calls : Nat} {nested : Bool} {room : Nat} {earlier : Option String} {toks : List Placed}
      {lists : List (List Param)} {rest : List Placed},
      WellFormed toks → r.params calls nested room earlier toks = .ok (lists, rest) →
        (∀ ps ∈ lists, CompiledList r.types earlier ps) ∧ WellFormed rest := by
  intro calls
  induction calls with
  | zero =>
    intro nested room earlier toks lists rest _ h
    cases h
  | succ calls ih =>
    intro nested room earlier toks lists rest ht h
    -- either the parameters end here, or one is read and the calls left read the others
    rcases Reader.params_eq_ok h with ⟨rfl, hend⟩ |
      ⟨t, more, ps, after, later, tails, hskip, hparam, hlater, htails, rfl⟩
    · refine ⟨fun ps hps => ?_, ?_⟩
      · obtain rfl := List.mem_singleton.1 hps
        exact ⟨by simp, .nil, fun _ => by simp⟩
      · rcases hend with ⟨-, -, rfl⟩ | ⟨-, column, hskip⟩
        · exact fun tok htok => absurd htok List.not_mem_nil
        · have hclose := ht.skipComma
          rw [hskip] at hclose
          exact hclose.tail
    · have hfirst := ht.skipComma
      rw [hskip] at hfirst
      obtain ⟨hps, ⟨o, ho⟩, hafter⟩ := compiled_of_param htypes (ih hfirst.tail) hfirst hparam
      obtain ⟨htails, hrest⟩ := ih hafter htails
      refine ⟨fun qs hqs => ?_, hrest⟩
      obtain ⟨p, hp, hqs⟩ := List.mem_flatMap.1 hqs
      obtain ⟨tail, htail, rfl⟩ := List.mem_map.1 hqs
      obtain ⟨hbefore, hsome⟩ := Reader.trailing_eq_ok_of_mem ho hp hlater
      exact .cons (hps p hp) hbefore hsome (htails tail htail)

/-! ## Signatures -/

/-- **The signatures that a text stands for are compiled.** -/
theorem compiled_of_parse {source : String} {signatures : List Signature}
    (htypes : SoundTypes types) (h : parse types source = .ok signatures) :
    ∀ s ∈ signatures, (∀ p ∈ s.params, Compiled types p) ∧ DefaultsLast s.params := by
  obtain ⟨toks, lists, htoks, hlists, rfl⟩ := parse_eq_ok h
  have hwf : WellFormed toks := wellFormed_of_tokens htoks
  intro s hs
  obtain ⟨ps, hps, rfl⟩ := List.mem_map.1 hs
  have hlist : CompiledList types none ps := by
    rcases paramLists_eq_ok hlists with ⟨column, inner, rest, rfl, -, hread⟩ | ⟨rest, hread⟩
    · exact (compiled_of_params htypes hwf.tail hread).1 ps hps
    · exact (compiled_of_params htypes hwf hread).1 ps hps
  exact ⟨hlist.compiled, hlist.defaultsLast⟩

/-! ## Types with one overload -/

/-- Types with one overload each. -/
def SingleTypes (types : NamedTypes) : Prop :=
  ∀ w overloads, types w = some overloads → ∃ s, overloads = [s]

/-- Where types have one overload, a word asks for one thing. -/
theorem exists_of_shapes (hsingle : SingleTypes r.types) (w n : String) :
    ∃ p, r.shapes w n = [p] := by
  unfold Reader.shapes
  cases Kind.ofWord w with
  | some k => exact ⟨_, rfl⟩
  | none =>
    cases ht : r.types w with
    | some overloads =>
      obtain ⟨s, rfl⟩ := hsingle w overloads ht
      exact ⟨_, rfl⟩
    | none => exact ⟨_, rfl⟩

/-- **Where types have one overload, parameters stand for one list.** -/
theorem exists_of_params (hsingle : SingleTypes r.types) :
    ∀ {calls : Nat} {nested : Bool} {room : Nat} {earlier : Option String} {toks : List Placed}
      {lists : List (List Param)} {rest : List Placed},
      r.params calls nested room earlier toks = .ok (lists, rest) → ∃ ps, lists = [ps] := by
  intro calls
  induction calls with
  | zero =>
    intro nested room earlier toks lists rest h
    cases h
  | succ calls ih =>
    intro nested room earlier toks lists rest h
    rcases Reader.params_eq_ok h with ⟨rfl, -⟩ |
      ⟨t, more, ps, after, later, tails, -, hparam, -, htails, rfl⟩
    · exact ⟨[], rfl⟩
    · obtain ⟨type, afterType, n, afterName, htype, -, hdefaults⟩ := Reader.param_eq_ok_iff.1 hparam
      have hshape : ∃ p, type n = [p] := by
        rcases Reader.typeWith_eq_ok htype with ⟨w, column, -, rfl, -⟩ |
          ⟨column, room', inner, -, -, hinner, rfl⟩
        · exact exists_of_shapes hsingle w n
        · obtain ⟨qs, rfl⟩ := ih hinner
          exact ⟨_, rfl⟩
      have hlen : ps.length = 1 := by
        obtain ⟨p, hp⟩ := hshape
        rw [hp] at hdefaults
        rcases Reader.defaults_eq_ok hdefaults with ⟨column, inner, v, -, -, hgiven⟩ | ⟨rfl, -⟩
        · exact (Reader.exists_of_mem_withDefaults hgiven).1
        · rfl
      obtain ⟨p, rfl⟩ := List.length_eq_one_iff.1 hlen
      obtain ⟨tail, rfl⟩ := ih htails
      exact ⟨p :: tail, rfl⟩

/-- Where types have one overload, a text stands for one signature. -/
theorem exists_of_parse {source : String} {signatures : List Signature}
    (hsingle : SingleTypes types) (h : parse types source = .ok signatures) :
    ∃ s, signatures = [s] := by
  obtain ⟨toks, lists, -, hlists, rfl⟩ := parse_eq_ok h
  have hone : ∃ ps, lists = [ps] := by
    rcases paramLists_eq_ok hlists with ⟨_, _, _, -, -, hread⟩ | ⟨_, hread⟩
    · exact exists_of_params hsingle hread
    · exact exists_of_params hsingle hread
  obtain ⟨ps, rfl⟩ := hone
  exact ⟨⟨ps⟩, rfl⟩

end Signature

end CommandScript
