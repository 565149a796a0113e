import CommandScript.Proofs.Signature.Characters
import CommandScript.Proofs.Signature.Derivation

/-!
# What types a reader asks for

A reader looks up the words of its text and no others. So two readers that
know the same types, but for one name, read alike whatever text does not have
that name as a word: the same signatures or the same fault
(`parse_eq_of_notMem`). Both go through the tokens in step, and what a step
leaves is part of what it was given.
-/

namespace CommandScript

namespace Signature

/-- Two steps in a row are as two others if the second does the same with
whatever the first yields. -/
theorem bind_congr_of_ok {ε α β : Type} {x : Except ε α} {f g : α → Except ε β}
    (h : ∀ a, x = .ok a → f a = g a) : x >>= f = x >>= g := by
  cases x with
  | error e => rfl
  | ok a => exact h a rfl

/-- Types that are the same but for one name. -/
def AgreeOff (name : String) (types types' : NamedTypes) : Prop :=
  ∀ w, w ≠ name → types w = types' w

variable {types types' : NamedTypes} {name : String} {column : Nat}

namespace Reader

/-! ## Steps that ask for no type -/

/-- Entries are read alike whatever types there are. -/
theorem entries_types (types types' : NamedTypes) (column calls : Nat) :
    entries ⟨types, column⟩ calls = entries ⟨types', column⟩ calls := by
  induction calls with
  | zero => rfl
  | succ calls ih =>
    funext room toks
    rw [entries, entries, ih]
    rfl

/-- Literals are read alike whatever types there are. -/
theorem literal_types (types types' : NamedTypes) (column room : Nat) (toks : List Placed) :
    literal ⟨types, column⟩ room toks = literal ⟨types', column⟩ room toks := by
  unfold literal
  rw [entries_types types types']
  rfl

/-- Defaults are read alike whatever types there are. -/
theorem defaults_types (types types' : NamedTypes) (column room : Nat) (ps : List Param)
    (toks : List Placed) :
    defaults ⟨types, column⟩ room ps toks = defaults ⟨types', column⟩ room ps toks := by
  unfold defaults
  split
  · rw [literal_types types types']
    rfl
  · rfl

/-! ## Steps that ask for types -/

/-- A word other than the name stands for the same. -/
theorem shapes_of_ne {w : String} (hagree : AgreeOff name types types') (hw : w ≠ name) :
    shapes ⟨types, column⟩ w = shapes ⟨types', column⟩ w := by
  funext n
  unfold shapes
  simp only [hagree w hw]

variable {calls room : Nat} {nested : Bool} {earlier : Option String} {toks rest : List Placed}
  {t : Placed}

/-- One parameter is read alike where parameters in parentheses are. -/
theorem param_of_notMem (hagree : AgreeOff name types types')
    (ih : ∀ room, params ⟨types, column⟩ calls true room none rest =
      params ⟨types', column⟩ calls true room none rest)
    (ht : t.token ≠ .word name) :
    param ⟨types, column⟩ calls room t rest = param ⟨types', column⟩ calls room t rest := by
  have htype : typeWith ⟨types, column⟩ (fun room toks =>
        params ⟨types, column⟩ calls true room none toks) room rest t =
      typeWith ⟨types', column⟩ (fun room toks =>
        params ⟨types', column⟩ calls true room none toks) room rest t := by
    obtain ⟨token, position⟩ := t
    cases token with
    | word w =>
      have hw : w ≠ name := fun h => ht (congrArg Token.word h)
      exact congrArg (fun type => Except.ok (type, rest)) (shapes_of_ne hagree hw)
    | openParen =>
      cases room with
      | zero => rfl
      | succ room => exact congrArg (Except.map _) (ih room)
    | _ => rfl
  unfold param
  rw [htype]
  refine bind_congr_of_ok fun type _ => bind_congr_of_ok fun named _ => ?_
  exact defaults_types types types' column room (type.1 named.1) named.2

/-- What is behind a parameter is part of what it was read from. -/
theorem exists_of_param (htypes : NonemptyTypes types) {ps : List Param} {after : List Placed}
    (h : param ⟨types, column⟩ calls room t rest = .ok (ps, after)) :
    ∃ ts, (t :: rest).map Placed.token = ts ++ after.map Placed.token := by
  obtain ⟨ts, -, -, -, -, htoks⟩ := derives_of_param (fun hread => by
    obtain ⟨ts, ds, hts, hds, hlists, htoks, -⟩ := derives_of_params htypes hread
    exact ⟨ts, ds, hts, hds, hlists, htoks⟩) h
  exact ⟨ts, htoks⟩

/-- **Parameters are read alike** from tokens without the name. -/
theorem params_of_notMem (htypes : NonemptyTypes types) (hagree : AgreeOff name types types') :
    ∀ {calls room : Nat} {nested : Bool} {earlier : Option String} {toks : List Placed},
      Token.word name ∉ toks.map Placed.token →
        params ⟨types, column⟩ calls nested room earlier toks =
          params ⟨types', column⟩ calls nested room earlier toks := by
  intro calls
  induction calls with
  | zero => exact fun _ => rfl
  | succ calls ih =>
    intro room nested earlier toks hname
    obtain ⟨cs, -, hcomma⟩ := exists_comma toks
    cases hskip : skipComma toks with
    | nil =>
      rw [params.eq_def ⟨types, column⟩, params.eq_def ⟨types', column⟩]
      simp only [hskip]
      cases nested <;> rfl
    | cons t more =>
      rw [hcomma, hskip, List.mem_append, not_or] at hname
      have hmore : Token.word name ∉ more.map Placed.token :=
        fun h => hname.2 (List.mem_cons_of_mem _ h)
      by_cases hclose : nested = true ∧ t.token = .closeParen
      · obtain ⟨rfl, hclose⟩ := hclose
        obtain ⟨token, position⟩ := t
        cases hclose
        rw [params.eq_def ⟨types, column⟩, params.eq_def ⟨types', column⟩]
        simp only [hskip]
      · have hgoes := fun hnested ht => hclose ⟨hnested, ht⟩
        have hparam : param ⟨types, column⟩ calls room t more =
            param ⟨types', column⟩ calls room t more := by
          refine param_of_notMem hagree (fun room => ih hmore) fun ht => hname.2 ?_
          rw [List.map_cons, ht]
          exact List.mem_cons_self
        rw [params_cons hskip hgoes, params_cons hskip hgoes, ← hparam]
        refine bind_congr_of_ok fun ps hps => bind_congr_of_ok fun later _ => ?_
        obtain ⟨ts, hts⟩ := exists_of_param htypes hps
        rw [hts, List.mem_append, not_or] at hname
        rw [ih hname.2.2]

end Reader

/-- Parameter lists are read alike from tokens without the name. -/
theorem paramLists_of_notMem (htypes : NonemptyTypes types) (hagree : AgreeOff name types types')
    {toks : List Placed} (hname : Token.word name ∉ toks.map Placed.token) :
    paramLists ⟨types, column⟩ toks = paramLists ⟨types', column⟩ toks := by
  have hall := @Reader.params_of_notMem types types' name column htypes hagree (toks.length + 1)
    maxNesting false none toks hname
  unfold paramLists
  split
  · rename_i position inner
    have hinner : Token.word name ∉ inner.map Placed.token :=
      fun h => hname (List.mem_cons_of_mem _ h)
    rw [hall, Reader.params_of_notMem htypes hagree hinner]
  · rw [hall]

/-- **What is read does not depend on a type that the text does not name**,
nor does the fault that reading stops at. -/
theorem parse_eq_of_notMem {source : String} (htypes : NonemptyTypes types)
    (hagree : AgreeOff name types types')
    (h : ∀ ts, HasTokens source.toList ts → Token.word name ∉ ts) :
    parse types source = parse types' source := by
  have hread : tokens source >>= paramLists ⟨types, Position.ordinal source.length⟩ =
      tokens source >>= paramLists ⟨types', Position.ordinal source.length⟩ :=
    bind_congr_of_ok fun toks htoks =>
      paramLists_of_notMem htypes hagree (h _ (exists_tokens_iff.1 ⟨toks, htoks, rfl⟩))
  unfold parse
  simp only [hread]

end Signature

end CommandScript
