import CommandScript.Proofs.Signature.Characters
import CommandScript.Proofs.Signature.RoundTrip

/-!
# Which texts are signatures

A text stands for signatures if and only if its characters have tokens, these
derive from the grammar, and the declarations they derive hold together:
each default fits all that its parameter may be, and defaults come last
(`Built.parse_succeeds_iff`). What it stands for are the parameter lists of
the declarations (`parse_eq_ok_iff`). There is always one, for registered
types have overloads.
-/

namespace CommandScript

namespace Signature

variable {types : NamedTypes} {source : String} {signatures : List Signature}

/-- **What a text stands for**: the parameter lists of declarations that it
writes and that hold together. -/
theorem parse_eq_ok_iff (htypes : NonemptyTypes types) :
    parse types source = .ok signatures ↔
      ∃ ts ds, HasTokens source.toList ts ∧ IsSignature ts ds ∧ Accepted types none ds ∧
        signatures = (Declaration.expand types ds).map fun ps => ⟨ps⟩ := by
  constructor
  · intro h
    obtain ⟨toks, lists, htoks, hlists, rfl⟩ := parse_eq_ok h
    obtain ⟨ds, hsignature, haccepted, rfl⟩ := (paramLists_eq_ok_iff htypes).1 hlists
    exact ⟨_, ds, exists_tokens_iff.1 ⟨toks, htoks, rfl⟩, hsignature, haccepted, rfl⟩
  · rintro ⟨ts, ds, htokens, hsignature, haccepted, rfl⟩
    obtain ⟨toks, htoks, rfl⟩ := exists_tokens_iff.2 htokens
    exact parse_of_paramLists htoks
      ((paramLists_eq_ok_iff htypes).2 ⟨ds, hsignature, haccepted, rfl⟩)

/-- Declarations that hold together stand for some parameter list. -/
theorem Accepted.expand_ne_nil {earlier : Option String} {ds : List Declaration}
    (htypes : NonemptyTypes types) (h : Accepted types earlier ds) :
    Declaration.expand types ds ≠ [] :=
  Declaration.expand_ne_nil fun d hd => (h.fits d hd).ne_nil htypes

end Signature

namespace TypeTable

open Signature (HasTokens IsSignature Declaration)

variable {t : TypeTable} {source : String} {signatures : List Signature}

/-- A text that is read stands for some signature. -/
theorem ne_nil_of_parse (htypes : Signature.NonemptyTypes t.get?)
    (h : t.parse source = .ok signatures) : signatures ≠ [] := by
  obtain ⟨ts, ds, -, -, haccepted, rfl⟩ := (Signature.parse_eq_ok_iff htypes).1 h
  exact fun hnil => haccepted.expand_ne_nil htypes (List.map_eq_nil_iff.1 hnil)

/-- Texts that are read stand for some signature, if there are any. -/
theorem ne_nil_of_parseAll (htypes : Signature.NonemptyTypes t.get?) {formats : List String}
    (hne : formats ≠ []) (h : t.parseAll formats = .ok signatures) : signatures ≠ [] := by
  obtain ⟨source, formats, rfl⟩ := List.exists_cons_of_ne_nil hne
  obtain ⟨first, hfirst, hmore⟩ := Signature.bind_eq_ok_iff.1 h
  obtain ⟨more, -, hall⟩ := Signature.bind_eq_ok_iff.1 hmore
  cases hall
  exact List.append_ne_nil_of_left_ne_nil (ne_nil_of_parse htypes hfirst) _

/-- **Registered types have overloads.** -/
theorem Built.nonemptyTypes (h : t.Built) : Signature.NonemptyTypes t.get? := by
  induction h with
  | empty => exact fun w overloads hw => absurd hw get?_empty_ne_some
  | register _ hreg ih =>
    obtain ⟨-, -, hne, overloads, hformats, rfl, -⟩ := register_eq_ok hreg
    intro w stored hw
    rcases eq_or_of_get?_enter hw with ⟨rfl, rfl⟩ | hw
    · exact ne_nil_of_parseAll ih hne hformats
    · exact ih w stored hw

/-- **A text is read if and only if the grammar has it**: its characters have
tokens, the tokens derive declarations, and in these each default fits all
that its parameter may be and defaults come last, at every depth. -/
theorem Built.parse_succeeds_iff (ht : t.Built) (source : String) :
    (∃ signatures, t.parse source = .ok signatures) ↔
      ∃ ts ds, HasTokens source.toList ts ∧ IsSignature ts ds ∧
        (∀ d ∈ ds, d.Fits t.get?) ∧ Declaration.DefaultsLast ds := by
  constructor
  · rintro ⟨signatures, h⟩
    obtain ⟨ts, ds, htokens, hsignature, haccepted, -⟩ :=
      (Signature.parse_eq_ok_iff ht.nonemptyTypes).1 h
    exact ⟨ts, ds, htokens, hsignature, haccepted.fits, haccepted.defaultsLast⟩
  · rintro ⟨ts, ds, htokens, hsignature, hfits, hlast⟩
    exact ⟨_, (Signature.parse_eq_ok_iff ht.nonemptyTypes).2
      ⟨ts, ds, htokens, hsignature, ⟨hfits, hlast, by simp⟩, rfl⟩⟩

/-- A signature may start with the type of an array and end with the default
of one, and a default must fit in either. -/
theorem parse_succeeds_iff_points :
    points.Built ∧
      (∃ ts ds, HasTokens "(int x) p (point q,) r = ((1))".toList ts ∧ IsSignature ts ds ∧
        (∀ d ∈ ds, d.Fits points.get?) ∧ Declaration.DefaultsLast ds) ∧
      ¬ ∃ ts ds, HasTokens "(int x) p (point q,) r = ((y: 1))".toList ts ∧ IsSignature ts ds ∧
        (∀ d ∈ ds, d.Fits points.get?) ∧ Declaration.DefaultsLast ds := by
  refine ⟨built_points, ?_, fun h => ?_⟩
  · refine (built_points.parse_succeeds_iff _).1 ?_
    have hread : (points.parse "(int x) p (point q,) r = ((1))").toOption.isSome = true := by
      decide +kernel
    cases hparse : points.parse "(int x) p (point q,) r = ((1))" with
    | ok signatures => exact ⟨signatures, rfl⟩
    | error e =>
      rw [hparse] at hread
      cases hread
  · obtain ⟨signatures, hparse⟩ := (built_points.parse_succeeds_iff _).2 h
    have hfault : (points.parse "(int x) p (point q,) r = ((y: 1))").toOption = none := by
      decide +kernel
    rw [hparse] at hfault
    cases hfault

end TypeTable

end CommandScript
