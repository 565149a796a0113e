import CommandScript.Proofs.Signature.Choices
import CommandScript.Proofs.Vocabulary.Reprint

/-!
# One signature for each choice of overloads

A text that names types stands for several signatures. They are those of all
choices among the overloads, one for each, and come in lexicographic order,
the first type named varying slowest (`Built.parse_enumerates`). Of a default
there is one literal, which is resolved anew in each.
-/

namespace CommandScript

namespace TypeTable

open Signature (HasTokens IsSignature Declaration Token Enumerate)

variable {t : TypeTable} {source : String} {signatures : List Signature}

/-- **A text stands for one signature for each choice among overloads**, and
for nothing else. The choices are made where it names types, in the order in
which these stand in the text, at any depth of parentheses, and the signatures
come in the lexicographic order of the choices. They differ in nothing but the
overloads chosen and the defaults, each of which is what its literal is to the
parameter it is for. -/
theorem Built.parse_enumerates (ht : t.Built) (h : t.parse source = .ok signatures) :
    ∃ ts ds, HasTokens source.toList ts ∧ IsSignature ts ds ∧
      ((Declaration.occurrencesAll t.get? ds).map Token.word).Sublist ts ∧
      Enumerate t.get? ds signatures := by
  obtain ⟨ts, ds, htokens, hsignature, haccepted, rfl⟩ :=
    (Signature.parse_eq_ok_iff ht.nonemptyTypes).1 h
  exact ⟨ts, ds, htokens, hsignature, hsignature.occurrences_sublist,
    Signature.enumerate_expand haccepted.fits⟩

/-- Two ranges, one inside an array with a default: there are four
signatures. -/
theorem parse_enumerates_ranges :
    ranges.Built ∧ ∃ signatures,
      ranges.parse "range a, (int n, range b) c = (1, (2))" = .ok signatures ∧
      signatures.length = 4 ∧
      ∃ ts ds, HasTokens "range a, (int n, range b) c = (1, (2))".toList ts ∧ IsSignature ts ds ∧
        ((Declaration.occurrencesAll ranges.get? ds).map Token.word).Sublist ts ∧
        Enumerate ranges.get? ds signatures := by
  have hread : (ranges.parse "range a, (int n, range b) c = (1, (2))").toOption.map List.length =
      some 4 := by decide +kernel
  cases hparse : ranges.parse "range a, (int n, range b) c = (1, (2))" with
  | error e =>
    rw [hparse] at hread
    cases hread
  | ok signatures =>
    rw [hparse] at hread
    exact ⟨built_ranges, signatures, rfl, Option.some.inj hread,
      Built.parse_enumerates built_ranges hparse⟩

end TypeTable

end CommandScript
