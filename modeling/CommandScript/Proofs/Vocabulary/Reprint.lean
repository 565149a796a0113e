import CommandScript.Proofs.Vocabulary.Defaults

/-!
# Reading printed signatures where types have overloads

A signature is printed with the names of its types, so what is read again
stands for a signature for each choice among their overloads. The one that
was printed is always among them (`Built.reprints_iff`). But a default is
printed as it was filled in for one overload, and is read against all of
them: where it does not fit one, the printed signature is not read at all
(`exists_not_reprinted`). That, and parentheses that go deeper than a reader
allows, is all that can go wrong.
-/

namespace CommandScript

namespace Signature

variable {types : NamedTypes} {source : String} {signatures : List Signature} {ps : List Param}

/-- What is read opens no more parentheses at once than a reader allows. -/
theorem nesting_le_of_parse (htypes : NonemptyTypes types)
    (h : parse types source = .ok signatures) : nesting source ≤ maxNesting + 1 := by
  obtain ⟨ts, ds, htokens, hds, -, -⟩ := (parse_eq_ok_iff htypes).1 h
  obtain ⟨toks, htoks, rfl⟩ := exists_tokens_iff.2 htokens
  obtain ⟨m, hle, hm⟩ := hds.balanced
  have hdepth := hm.depth 0 []
  have hnil : depth 0 [] = 0 := rfl
  rw [List.append_nil, hnil, Nat.zero_add, Nat.max_zero] at hdepth
  unfold nesting
  rw [htoks]
  change depth 0 (toks.map Placed.token) ≤ _
  rw [hdepth]
  exact hle

/-- **A printed signature is read** as what its declarations stand for, if its
parentheses go no deeper than a reader allows and its defaults fit. -/
theorem parse_render_iff (htypes : NonemptyTypes types) (hps : ∀ p ∈ ps, Compiled types p)
    (hlast : DefaultsLast ps) :
    parse types (render ⟨ps⟩) = .ok signatures ↔
      nesting (render ⟨ps⟩) ≤ maxNesting + 1 ∧ (∀ p ∈ ps, (Declaration.ofParam p).Fits types) ∧
        signatures = (Declaration.expand types (Declaration.ofParams ps)).map fun qs => ⟨qs⟩ := by
  have htokens : HasTokens (render ⟨ps⟩).toList (signatureTokens ps) :=
    exists_tokens_iff.1 (tokens_render hps)
  -- where there is room, the tokens derive these declarations and no others
  have hread : nesting (render ⟨ps⟩) ≤ maxNesting + 1 →
      (parse types (render ⟨ps⟩) = .ok signatures ↔
        Accepted types none (Declaration.ofParams ps) ∧
          signatures = (Declaration.expand types (Declaration.ofParams ps)).map fun qs => ⟨qs⟩) :=
    fun hdepth => parse_eq_ok_iff_accepted htypes htokens (isSignature_ofParams hps hdepth)
  constructor
  · intro h
    have hdepth := nesting_le_of_parse htypes h
    obtain ⟨haccepted, hsignatures⟩ := (hread hdepth).1 h
    have hfits := haccepted.fits
    rw [Declaration.ofParams_eq_map] at hfits
    exact ⟨hdepth, List.forall_mem_map.1 hfits, hsignatures⟩
  · rintro ⟨hdepth, hfits, hsignatures⟩
    exact (hread hdepth).2 ⟨accepted_ofParams hlast hfits, hsignatures⟩

end Signature

namespace TypeTable

open Signature (Declaration)

variable {t : TypeTable} {source : String} {signatures : List Signature} {s : Signature}

/-- **When a printed signature is read again.** Take any signature that a text
stands for. If its printed form is read, the signature is among what that
stands for. And it is read if and only if its parentheses go no deeper than a
reader allows and each printed default fits all that its parameter may be:
every overload of a named type, at every depth. -/
theorem Built.reprints_iff (ht : t.Built) (h : t.parse source = .ok signatures)
    (hs : s ∈ signatures) :
    (∀ again, t.parse s.render = .ok again → s ∈ again) ∧
      ((∃ again, t.parse s.render = .ok again) ↔
        Signature.nesting s.render ≤ maxNesting + 1 ∧
          ∀ p ∈ s.params, (Declaration.ofParam p).Fits t.get?) := by
  obtain ⟨hps, hlast⟩ := Signature.compiled_of_parse ht.soundTypes h s hs
  have hread : ∀ again, t.parse s.render = .ok again ↔ _ :=
    fun again => Signature.parse_render_iff ht.nonemptyTypes hps hlast
  constructor
  · intro again hagain
    obtain ⟨-, -, rfl⟩ := (hread again).1 hagain
    have hmem := Signature.mem_expand_ofParams fun p hp =>
      Signature.mem_alternatives_ofParam (hps p hp)
    exact List.mem_map.2 ⟨s.params, hmem, rfl⟩
  · simp only [hread, ← and_assoc, exists_and_left, exists_eq, and_true]

/-- A range with a default for its end. -/
def wideRange : Signature :=
  ⟨[.scalar { name := "a" } .int,
    .scalar { name := "b", default := some (.scalar ⟨some "b", .synthetic⟩ .int "1") } .int]⟩

/-- A range without an end. -/
def narrowRange : Signature :=
  ⟨[.scalar { name := "a" } .int]⟩

/-- A type with two overloads, of which the first fills in what the second
does not have. -/
def ranges : TypeTable :=
  ({} : TypeTable).enter "range" [wideRange, narrowRange]

theorem built_ranges : ranges.Built := by
  have hread : ({} : TypeTable).parseAll ["int a, int b = 1", "int a"] =
      .ok [wideRange, narrowRange] :=
    eq_ok_of_toOption (by decide +kernel)
  exact .register .empty (register_of_parseAll (by decide +kernel) rfl (by simp) hread)

/-- A range with a default, as the first overload has it: with the end filled
in. -/
def wideCall : Signature :=
  ⟨[.array
      { name := "r"
        default := some (.array ⟨some "r", .synthetic⟩
          [.scalar ⟨some "a", .synthetic⟩ .int "5", .scalar ⟨some "b", .synthetic⟩ .int "1"])
        typeName := some "range" }
      [.scalar { name := "a" } .int,
        .scalar { name := "b", default := some (.scalar ⟨some "b", .synthetic⟩ .int "1") } .int]]⟩

/-- A range with a default, as the second overload has it. -/
def narrowCall : Signature :=
  ⟨[.array
      { name := "r"
        default := some (.array ⟨some "r", .synthetic⟩ [.scalar ⟨some "a", .synthetic⟩ .int "5"])
        typeName := some "range" }
      [.scalar { name := "a" } .int]]⟩

theorem parse_range : ranges.parse "range r = (5)" = .ok [wideCall, narrowCall] :=
  eq_ok_of_toOption (by decide +kernel)

/-- The second signature is printed with the literal that was written, and is
read again; the first is not, for its default is too long for the second
overload. -/
theorem reprints_iff_ranges :
    ranges.Built ∧ ranges.parse "range r = (5)" = .ok [wideCall, narrowCall] ∧
      (∃ again, ranges.parse narrowCall.render = .ok again ∧ narrowCall ∈ again) ∧
      ¬ ∀ p ∈ wideCall.params, (Declaration.ofParam p).Fits ranges.get? := by
  obtain ⟨hmem, -⟩ := Built.reprints_iff built_ranges parse_range (s := narrowCall)
    (List.mem_cons_of_mem _ List.mem_cons_self)
  obtain ⟨-, hread⟩ := Built.reprints_iff built_ranges parse_range (s := wideCall)
    List.mem_cons_self
  have hnarrow : ranges.parse narrowCall.render = .ok [wideCall, narrowCall] :=
    eq_ok_of_toOption (by decide +kernel)
  refine ⟨built_ranges, parse_range, ⟨_, hnarrow, hmem _ hnarrow⟩, fun hfits => ?_⟩
  have hdepth : Signature.nesting wideCall.render ≤ maxNesting + 1 := by decide +kernel
  have hfault : (ranges.parse wideCall.render).toOption = none := by decide +kernel
  obtain ⟨again, hagain⟩ := hread.2 ⟨hdepth, hfits⟩
  rw [hagain] at hfault
  cases hfault

/-- **A printed signature may not be readable**: one that a default for a type
with two overloads makes. -/
theorem exists_not_reprinted :
    ranges.Built ∧ (∃ overloads, ranges.get? "range" = some overloads ∧ overloads.length = 2) ∧
      ∃ signatures, ranges.parse "range r = (5)" = .ok signatures ∧
        ∃ s ∈ signatures, ¬ ∃ again, ranges.parse s.render = .ok again ∧ s ∈ again := by
  refine ⟨built_ranges, ⟨_, get?_enter_self _ _ _, rfl⟩, _, parse_range, wideCall,
    List.mem_cons_self, ?_⟩
  rintro ⟨again, hagain, -⟩
  have hfault : (ranges.parse wideCall.render).toOption = none := by decide +kernel
  rw [hagain] at hfault
  cases hfault

end TypeTable

end CommandScript
