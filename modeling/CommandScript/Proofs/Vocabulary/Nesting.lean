import CommandScript.Proofs.Signature.Depth
import CommandScript.Proofs.Vocabulary.Defaults
import CommandScript.Proofs.Vocabulary.Regular

/-!
# How deep compiled signatures nest

The limit on nesting holds for each text, and what types name is spliced in
without being counted. So each type adds a text's worth of arrays to what may
be asked for, and one for its name: with so many types in the table, what is
compiled nests at most `maxNesting` arrays around `maxNesting + 1` for each
(`Built.depth_le_of_parse`). Without types that is the limit itself. With
types it is not kept: a chain of them, each used in the text of the next,
nests `maxNesting` arrays more with each, in defaults too (`exists_nesting`).
-/

namespace CommandScript

namespace Param

variable {ps qs : List Param}

/-- The parameters inside others are less deep. -/
theorem depths_le_of_within (h : Signature.Within ps qs) : depths qs ≤ depths ps := by
  induction h with
  | self => exact Nat.le_refl _
  | inside hmem _ ih =>
    have harray := depth_le_depths hmem
    rw [depth] at harray
    omega

end Param

namespace Signature

variable {types : NamedTypes} {n k : Nat} {text : String} {d : Declaration} {p : Param}
  {v : Value}

/-! ## Texts that declare one parameter -/

/-- **A text that declares a parameter**, and no other, in so much room. -/
def DeclaresOne (types : NamedTypes) (n : Nat) (text : String) (p : Param) : Prop :=
  ∃ ts d, Prints text ts ∧ IsParam n ts d ∧ d.Fits types ∧ d.alternatives types = [p]

/-- **A parameter that nests so many arrays**, as does its default. -/
structure NestsTo (p : Param) (k : Nat) : Prop where
  /-- What it asks for. -/
  depth : p.depth = k
  /-- Its default, which has no places. -/
  default : ∃ v, p.default? = some v ∧ v.detach = v ∧ valueNesting v = k

/-- A text that declares a parameter is a signature of it, in parentheses. -/
theorem DeclaresOne.parse (htypes : NonemptyTypes types) (h : DeclaresOne types maxNesting text p) :
    parse types ("(" ++ text ++ ")") = .ok [⟨[p]⟩] := by
  obtain ⟨ts, d, hprints, hd, hfits, halternatives⟩ := h
  refine (parse_eq_ok_iff_fits htypes hprints.parens.hasTokens hd).2 ⟨hfits, ?_⟩
  rw [halternatives]
  rfl

/-- **A declaration of one thing** takes what its literal is to it as the
default. -/
theorem alternatives_of_resolve {w : Value} (hshapes : d.shapes types = [p])
    (hd : d.default? = some w) (hresolve : w.resolve p = some v) (hdetach : v.detach = v) :
    d.DefaultFits types ∧ d.alternatives types = [p.withDefault v] := by
  refine Declaration.alternatives_of_give hshapes ?_
  rw [hd, Declaration.give, hresolve, Option.map_some, hdetach]

/-- An array of one parameter, with a default that is filled in from it. -/
def arrayAround (head : ParamHead) (p : Param) (v : Value) : Param :=
  (Param.array head [p]).withDefault (.array ⟨some head.name, .synthetic⟩ [v])

/-- **An empty literal is filled in** from the parameter inside. -/
theorem resolve_empty (head : ParamHead) (hv : p.default? = some v) :
    (Value.list []).resolve (.array head [p]) = some (.array ⟨some head.name, .synthetic⟩ [v]) := by
  change (Binding.complete [none] [p]).map _ = _
  rw [Binding.complete, hv]
  rfl

theorem detach_singleton {head : ParamHead} (hdetach : v.detach = v) :
    (Value.array ⟨some head.name, .synthetic⟩ [v]).detach =
      .array ⟨some head.name, .synthetic⟩ [v] := by
  rw [Value.detach, Value.detachAll, Value.detachAll, hdetach]

theorem NestsTo.arrayAround (h : NestsTo p k) (head : ParamHead) :
    ∃ v, p.default? = some v ∧ v.detach = v ∧ NestsTo (arrayAround head p v) (k + 1) := by
  obtain ⟨v, hv, hdetach, hnesting⟩ := h.default
  refine ⟨v, hv, hdetach, ?_, _, rfl, detach_singleton hdetach, ?_⟩
  · rw [Signature.arrayAround, Param.depth_withDefault, Param.depth, Param.depths, Param.depths,
      h.depth, Nat.max_zero]
  · rw [valueNesting, valuesNesting, valuesNesting, hnesting, Nat.max_zero]

/-- A type in a text, under a name and with an empty literal. -/
def filled (type : String) : String :=
  type ++ " " ++ "a" ++ " = " ++ "()"

theorem prints_filled {type : String} {ts : List Token} (h : Prints type ts) :
    Prints (filled type) (ts ++ .word "a" :: .equals :: parenTokens []) := by
  have hname : Prints "a" [.word "a"] := Prints.word (by decide +kernel)
  have hempty : Prints ("(" ++ "" ++ ")") (parenTokens []) := Prints.parens fun _ _ _ hs => hs
  have hall := (h.space hname).equals hempty
  rwa [List.append_assoc] at hall

theorem isDefault_empty (n : Nat) :
    IsDefault (n + 1) (.equals :: parenTokens []) (some (.list [])) :=
  .some (.array (.nil .none))

/-- **One array more around what a text declares.** -/
theorem DeclaresOne.array (h : DeclaresOne types n text p) (hv : p.default? = some v)
    (hdetach : v.detach = v) :
    DeclaresOne types (n + 1) (filled ("(" ++ text ++ ")")) (arrayAround { name := "a" } p v) := by
  obtain ⟨ts, d, hprints, hd, hfits, halternatives⟩ := h
  have hshapes : (Declaration.array [d] "a" (some (.list []))).shapes types =
      [.array { name := "a" } [p]] := by
    rw [Declaration.shapes, Declaration.expand_singleton, halternatives]
    rfl
  obtain ⟨hfit, halternatives⟩ :=
    alternatives_of_resolve hshapes rfl (resolve_empty _ hv) (detach_singleton hdetach)
  refine ⟨_, _, prints_filled hprints.parens, .array hd.isParams .word (isDefault_empty n), ?_,
    halternatives⟩
  exact .array (by simpa using hfits) (List.pairwise_singleton _ _) hfit

/-- **A named type in a text**, filled in from the parameter of its overload. -/
theorem DeclaresOne.named {w : String} (hw : Text.IsRun w.toList) (hof : Kind.ofWord w = none)
    (htypes : types w = some [⟨[p]⟩]) (hv : p.default? = some v) (hdetach : v.detach = v)
    (n : Nat) :
    DeclaresOne types (n + 1) (filled w) (arrayAround { name := "a", typeName := some w } p v) := by
  have hshapes : (Declaration.word w "a" (some (.list []))).shapes types =
      [.array { name := "a", typeName := some w } [p]] := by
    rw [Declaration.shapes, Declaration.named, hof, htypes]
    rfl
  obtain ⟨hfit, halternatives⟩ :=
    alternatives_of_resolve hshapes rfl (resolve_empty _ hv) (detach_singleton hdetach)
  exact ⟨_, _, prints_filled (Prints.word hw), .word .word (isDefault_empty n), .word hfit,
    halternatives⟩

/-- A text with so many arrays around it. -/
def nested : Nat → String → String
  | 0, text => text
  | m + 1, text => filled ("(" ++ nested m text ++ ")")

/-- **A text nests as many arrays more** as are put around it. -/
theorem DeclaresOne.nested (h : DeclaresOne types n text p) (hp : NestsTo p k) (m : Nat) :
    ∃ q, DeclaresOne types (n + m) (nested m text) q ∧ NestsTo q (k + m) := by
  induction m with
  | zero => exact ⟨p, h, hp⟩
  | succ m ih =>
    obtain ⟨q, hq, hnests⟩ := ih
    obtain ⟨v, hv, hdetach, hmore⟩ := hnests.arrayAround { name := "a" }
    exact ⟨_, hq.array hv hdetach, hmore⟩

/-- A scalar with a default nests nothing. -/
theorem exists_declaresOne_scalar (types : NamedTypes) :
    ∃ p, DeclaresOne types 0 "int a = 1" p ∧ NestsTo p 0 := by
  have htext : "int a = 1" = "int" ++ " " ++ "a" ++ " = " ++ "1" := by decide
  have hprints : Prints "int a = 1" [.word "int", .word "a", .equals, .word "1"] := by
    rw [htext]
    exact ((Prints.word (by decide +kernel)).space (Prints.word (by decide +kernel))).equals
      (Prints.word (by decide +kernel))
  have hof : Kind.ofWord "int" = some .int := by decide
  have hshapes : (Declaration.word "int" "a" (some (Value.word "1"))).shapes types =
      [.scalar { name := "a" } .int] := by
    rw [Declaration.shapes, Declaration.named, hof]
  have hresolve : (Value.word "1").resolve (.scalar { name := "a" } .int) =
      some (.scalar ⟨some "a", .synthetic⟩ .int "1") := by decide +kernel
  obtain ⟨hfit, halternatives⟩ := alternatives_of_resolve hshapes rfl hresolve rfl
  exact ⟨_, ⟨_, _, hprints, .word .word (.some .word), .word hfit, halternatives⟩,
    ⟨rfl, _, rfl, rfl, rfl⟩⟩

end Signature

namespace TypeTable

open Signature (Within ShallowTypes DeclaresOne NestsTo valueNesting)

variable {t : TypeTable} {source : String} {signatures : List Signature} {s : Signature}

/-! ## The bound -/

/-- What is read against types nests at most `maxNesting` arrays around
them. -/
theorem depths_le_of_parse {limit : Nat} (ht : t.Built) (htypes : ShallowTypes t.get? limit)
    (h : t.parse source = .ok signatures) :
    ∀ s ∈ signatures, Param.depths s.params ≤ maxNesting + limit := by
  obtain ⟨ts, ds, -, hsignature, -, rfl⟩ := (Signature.parse_eq_ok_iff ht.nonemptyTypes).1 h
  intro s hs
  obtain ⟨ps, hps, rfl⟩ := List.mem_map.1 hs
  exact Signature.depth_of_isSignature htypes hsignature ps hps

/-- **Each type adds the depth of a text**, and one for its name. -/
theorem Built.shallowTypes (ht : t.Built) :
    ShallowTypes t.get? ((maxNesting + 1) * t.size) := by
  refine ht.forall_overloads_of_size
    (P := fun n s => Param.depths s.params < (maxNesting + 1) * n) ?_ ?_
  -- the bound is strict, since a name of the type is an array around its overload
  · intro n s hs
    rw [Nat.mul_succ]
    omega
  · intro u source signatures hu htypes hparse s hs
    have hdepth := depths_le_of_parse hu htypes hparse s hs
    rw [Nat.mul_succ]
    omega

/-- **How deep compiled signatures nest.** In every parameter list of a
signature, what a parameter asks for nests at most as many arrays as a text
may, and one more than that for each type in the table; and a default nests no
more than its parameter. Without types this is the limit on texts. -/
theorem Built.depth_le_of_parse (ht : t.Built) (h : t.parse source = .ok signatures)
    (hs : s ∈ signatures) {ps : List Param} (hps : Within s.params ps) {p : Param} (hp : p ∈ ps) :
    p.depth ≤ maxNesting + (maxNesting + 1) * t.size ∧
      ∀ d, p.default? = some d → valueNesting d ≤ p.depth := by
  obtain ⟨hcompiled, -⟩ := Signature.compiled_of_parse ht.soundTypes h s hs
  have hsound : ∀ p ∈ ps, p.Sound := hps.sound fun p hp => (hcompiled p hp).sound
  constructor
  · calc
      p.depth ≤ Param.depths ps := Param.depth_le_depths hp
      _ ≤ Param.depths s.params := Param.depths_le_of_within hps
      _ ≤ maxNesting + (maxNesting + 1) * t.size := depths_le_of_parse ht ht.shallowTypes h s hs
  · exact fun d hd => ((hsound p hp).settled hd).nesting_le

theorem depth_le_of_parse_pointCall :
    points.Built ∧ points.parse "point p = (7), any \"q r\" = red" = .ok [pointCall] ∧
      ∀ p ∈ pointCall.params, p.depth ≤ maxNesting + (maxNesting + 1) * points.size := by
  refine ⟨built_points, parse_pointCall, fun p hp => ?_⟩
  exact (Built.depth_le_of_parse built_points parse_pointCall List.mem_cons_self .self hp).1

/-! ## Chains of types -/

/-- The name of a type in a chain. -/
def chainName (n : Nat) : String :=
  String.ofList (List.replicate (n + 1) 'x')

theorem isRun_chainName (n : Nat) : Text.IsRun (chainName n).toList := by
  unfold chainName
  rw [String.toList_ofList]
  refine ⟨by simp, fun c hc => ?_⟩
  obtain rfl := List.eq_of_mem_replicate hc
  decide

theorem length_chainName (n : Nat) : (chainName n).length = n + 1 := by
  unfold chainName
  rw [← String.length_toList, String.toList_ofList, List.length_replicate]

/-- No primitive kind has a name like that. -/
theorem ofWord_chainName (n : Nat) : Kind.ofWord (chainName n) = none := by
  have hother : ∀ word, (Text.caseKey word).head? ≠ some 'x' →
      Text.sameName (chainName n) word = false := by
    intro word hword
    rw [Bool.eq_false_iff]
    intro hsame
    rw [← Text.sameName_iff.1 hsame] at hword
    refine hword ?_
    unfold Text.caseKey chainName
    rw [String.toList_ofList, List.replicate_succ]
    rfl
  unfold Kind.ofWord
  rw [hother "int" (by decide), hother "integer" (by decide), hother "float" (by decide),
    hother "bool" (by decide), hother "boolean" (by decide), hother "string" (by decide),
    hother "str" (by decide), hother "any" (by decide)]
  rfl

/-- The names of types are shorter than the next one in the chain. -/
theorem contains_chainName {n : Nat} (ht : t.Built) (h : ∀ m ∈ t.names, m.length ≤ n) :
    t.contains (chainName n) = false := by
  rw [Bool.eq_false_iff, Ne, ht.inStep.contains]
  intro hmem
  have hlen := h _ hmem
  rw [length_chainName] at hlen
  omega

/-- **A chain of types**, each used in the text of the next, and a text that
nests `maxNesting` arrays for each of them and for itself. -/
theorem exists_chain (n : Nat) :
    ∃ (t : TypeTable) (text : String) (p : Param), t.Built ∧ t.size = n ∧
      (∀ m ∈ t.names, m.length ≤ n) ∧ DeclaresOne t.get? maxNesting text p ∧
      NestsTo p (maxNesting * (n + 1)) := by
  induction n with
  | zero =>
    obtain ⟨p, hp, hnests⟩ := Signature.exists_declaresOne_scalar ({} : TypeTable).get?
    obtain ⟨q, hq, hdeep⟩ := hp.nested hnests maxNesting
    rw [Nat.zero_add] at hq hdeep
    exact ⟨{}, _, q, .empty, rfl, fun m hm => absurd hm List.not_mem_nil, hq,
      by rwa [Nat.mul_one]⟩
  | succ n ih =>
    obtain ⟨t, text, p, ht, hsize, hshort, hp, hnests⟩ := ih
    have hfree := contains_chainName ht hshort
    have hparse : t.parseAll ["(" ++ text ++ ")"] = .ok [⟨[p]⟩] := by
      have hone : t.parse ("(" ++ text ++ ")") = .ok [⟨[p]⟩] := hp.parse ht.nonemptyTypes
      rw [parseAll, hone]
      rfl
    have hreg := register_of_parseAll (ofWord_chainName n) hfree (by simp) hparse
    obtain ⟨v, hv, hdetach, hmore⟩ :=
      hnests.arrayAround { name := "a", typeName := some (chainName n) }
    have hnamed := DeclaresOne.named (isRun_chainName n) (ofWord_chainName n)
      (get?_enter_self t _ _) hv hdetach 0
    -- the literal of the named type takes one of the arrays that the text may open
    obtain ⟨q, hq, hdeep⟩ := hnamed.nested hmore (maxNesting - 1)
    refine ⟨_, _, q, .register ht hreg, ?_, ?_, hq, ?_⟩
    · rw [size_enter _ _ _ hfree, hsize]
    · intro m hm
      rw [names_enter] at hm
      rcases List.mem_append.1 hm with hm | hm
      · exact Nat.le_succ_of_le (hshort m hm)
      · obtain rfl := List.mem_singleton.1 hm
        exact Nat.le_of_eq (length_chainName n)
    · have hsum : maxNesting * (n + 1) + 1 + (maxNesting - 1) = maxNesting * (n + 1 + 1) := by
        unfold maxNesting
        omega
      rwa [hsum] at hdeep

/-- **Nothing bounds the nesting of compiled signatures but the number of
types**: with each, a text may nest `maxNesting` arrays more, in what it asks
for and in the default. -/
theorem exists_nesting (n : Nat) :
    ∃ t : TypeTable, t.Built ∧ t.size = n ∧ ∃ source p d,
      t.parse source = .ok [⟨[p]⟩] ∧ p.default? = some d ∧
        p.depth = maxNesting * (n + 1) ∧ valueNesting d = maxNesting * (n + 1) := by
  obtain ⟨t, text, p, ht, hsize, -, hp, hnests⟩ := exists_chain n
  obtain ⟨d, hd, -, hnesting⟩ := hnests.default
  exact ⟨t, ht, hsize, _, p, d, hp.parse ht.nonemptyTypes, hd, hnests.depth, hnesting⟩

/-- **The limit on texts is no limit on what they compile to**, once there is a
type. -/
theorem not_depth_le_maxNesting :
    ¬ ∀ t : TypeTable, t.Built → ∀ source signatures, t.parse source = .ok signatures →
      ∀ s ∈ signatures, ∀ p ∈ s.params, p.depth ≤ maxNesting ∧
        ∀ d, p.default? = some d → valueNesting d ≤ maxNesting := by
  intro h
  obtain ⟨t, ht, -, source, p, d, hparse, -, hdepth, -⟩ := exists_nesting 1
  have hle := (h t ht source _ hparse _ List.mem_cons_self p List.mem_cons_self).1
  rw [hdepth] at hle
  unfold maxNesting at hle
  omega

end TypeTable

end CommandScript
