import CommandScript.Proofs.Binding.Detach
import CommandScript.Proofs.Signature.Grammar
import CommandScript.Proofs.Signature.Spelling
import CommandScript.Proofs.Statement.Arguments

/-!
# Arguments as literals

Scripts and signatures have readers of their own, but they agree on what a
printed value is: what a scanner can build is printed in tokens of a
signature (`prints_literal`), and these derive as the value itself, its own
name and all places aside (`isLiteral_of_isScanned`). The depths agree too.
-/

namespace CommandScript

namespace Signature

/-- The tokens of the name before an entry. -/
def labelTokens : Option String → List Token
  | none => []
  | some name => [.word name, .colon]

mutual

/-- **The tokens of a printed value**, its own name aside. -/
def literalTokens : Value → List Token
  | .scalar _ k s => [if k = .string then .quoted s else .word s]
  | .array _ vs => parenTokens (commaTokens (entriesTokens vs))

/-- The tokens of printed items, each under its name. -/
def entriesTokens : List Value → List (List Token)
  | [] => []
  | v :: vs => (labelTokens v.name ++ literalTokens v) :: entriesTokens vs

end

theorem entriesTokens_eq_map (vs : List Value) :
    entriesTokens vs = vs.map fun v => labelTokens v.name ++ literalTokens v := by
  induction vs with
  | nil => rfl
  | cons v vs ih => rw [entriesTokens, ih, List.map_cons]

variable {n : Nat} {v : Value} {ts : List Token}

/-- A name that is a run is printed as a word, and a colon behind it. -/
theorem Prints.label {text : String} {name : Option String}
    (hname : ∀ w ∈ name, Text.IsRun w.toList) (h : Prints text ts) :
    Prints (Value.labelText name ++ text) (labelTokens name ++ ts) := by
  cases name with
  | none =>
    change Prints ("" ++ text) ts
    rwa [String.empty_append]
  | some w =>
    intro rest us hr hs
    have htext : (Value.labelText (some w) ++ text).toList ++ rest =
        w.toList ++ ':' :: ' ' :: (text.toList ++ rest) := by
      change (w ++ ": " ++ text).toList ++ rest = _
      simp
    rw [htext]
    refine Prints.word (hname w rfl) (fun c hc => ?_) (.mark rfl (.blank (by decide) (h hr hs)))
    cases hc
    decide

/-- **What a scanner can build is printed in tokens of a signature.** -/
theorem prints_literal (h : v.IsScanned n) : Prints v.literal (literalTokens v) := by
  induction h with
  | @word n t w _ hw =>
    -- a bare word is printed in quotes if its text can only be a string
    by_cases hk : ScalarKind.ofText w = .string
    · rw [hk]
      exact Prints.quoted hw.quote_notMem
    · have htext : (Value.scalar t (ScalarKind.ofText w) w).literal = w := by
        cases hkind : ScalarKind.ofText w with
        | string => exact absurd hkind hk
        | _ => rfl
      rw [literalTokens, if_neg hk, htext]
      exact Prints.word hw
  | quoted _ hq => exact Prints.quoted hq
  | @array n t vs _ hvs ih =>
    rw [literalTokens, entriesTokens_eq_map, Value.literal, Value.literals_eq_map]
    refine Prints.parens (Prints.commas fun v hv => ?_)
    exact (ih v hv).label (hvs v hv).namedByRun

theorem isLabel_labelTokens (name : Option String) : IsLabel name (labelTokens name) := by
  cases name with
  | none => exact .none
  | some w => exact .some .word

/-- **The tokens of a printed value derive as the value**, its own name and
all places aside. -/
theorem isLiteral_of_isScanned (h : v.IsScanned n) :
    IsLiteral n (literalTokens v) (v.detach.rename none) := by
  induction h with
  | @word n t w _ _ =>
    by_cases hk : ScalarKind.ofText w = .string
    · rw [hk]
      exact .quoted
    · rw [literalTokens, if_neg hk]
      exact .word
  | quoted _ _ => exact .quoted
  | @array n t vs _ _ ih =>
    rw [literalTokens, entriesTokens_eq_map, Value.detach, Value.detachAll_eq_map]
    refine .array (IsEntries.commas fun v hv => ?_)
    have hentry := IsEntry.mk (isLabel_labelTokens v.name) (ih v hv)
    have hself := v.detach.rename_self
    rw [v.name_detach] at hself
    rwa [Value.rename_rename, hself] at hentry

end Signature

end CommandScript
