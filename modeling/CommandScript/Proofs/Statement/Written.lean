import CommandScript.Proofs.Statement.Grammar

/-!
# What scripts can write

Not every tree of values is the argument of a statement. A text in quotes
holds no quote and no line end, a bare word is a run and has the kind its
text allows, names are runs and stand behind all values without names, and
arrays go only so deep (`IsWritten`). The tokens of a script keep to this
(`wellFormed_of_tokens`), and so do the arguments they derive
(`areWritten_of_isArguments`).
-/

namespace CommandScript

namespace Value

/-- A text that can stand in quotes. -/
def Quotable (s : String) : Prop :=
  '"' ∉ s.toList ∧ '\n' ∉ s.toList

/-- **A value that a script can write**, its name aside, with arrays as deep
as the number says. -/
inductive IsWritten : Nat → Value → Prop
  /-- A string is written in quotes. -/
  | string {n : Nat} {t : Tag} {s : String} : Quotable s → IsWritten n (scalar t .string s)
  /-- Any other scalar is a word of the kind that its text allows. -/
  | word {n : Nat} {t : Tag} {k : ScalarKind} {s : String} :
      k ≠ .string → Text.IsRun s.toList → ScalarKind.ofText s = k → IsWritten n (scalar t k s)
  /-- An array holds values without names before those with names, and names
  are runs. -/
  | array {n : Nat} {t : Tag} {vs : List Value} :
      (∀ v ∈ vs, IsWritten n v) →
      (∀ v ∈ vs, ∀ w, v.name = some w → Text.IsRun w.toList) →
      (vs.Pairwise fun v w => v.name.isSome = true → w.name.isSome = true) →
      IsWritten (n + 1) (array t vs)

/-- **Arguments that a script can write**, as the items of an array. -/
structure AreWritten (n : Nat) (vs : List Value) : Prop where
  /-- Each can be written. -/
  items : ∀ v ∈ vs, IsWritten n v
  /-- Names are runs. -/
  names : ∀ v ∈ vs, ∀ w, v.name = some w → Text.IsRun w.toList
  /-- Behind an argument with a name, all have one. -/
  namesLast : vs.Pairwise fun v w => v.name.isSome = true → w.name.isSome = true

variable {n : Nat} {v : Value} {vs : List Value}

theorem IsWritten.rename (h : IsWritten n v) (name : Option String) :
    IsWritten n (v.rename name) := by
  cases h with
  | string hs => exact .string hs
  | word hk hs hof => exact .word hk hs hof
  | array hvs hnames hlast => exact .array hvs hnames hlast

theorem quotable_of_isRun {s : String} (h : Text.IsRun s.toList) : Quotable s := by
  refine ⟨h.quote_notMem, fun hfeed => ?_⟩
  have hno : Text.isWordChar '\n' = false := by decide
  rw [h.2 _ hfeed] at hno
  cases hno

/-- A bare word is written, in quotes if it is a string. -/
theorem isWritten_word {s : String} {p : Position} (h : Text.IsRun s.toList) :
    IsWritten n (word s p) := by
  unfold word
  by_cases hk : ScalarKind.ofText s = .string
  · rw [hk]
    exact .string (quotable_of_isRun h)
  · exact .word hk h rfl

theorem AreWritten.nil : AreWritten n [] := ⟨by simp, by simp, .nil⟩

/-- One argument more in front, with a name only if all others have one. -/
theorem AreWritten.cons (hv : IsWritten n v) (hname : ∀ w, v.name = some w → Text.IsRun w.toList)
    (hbehind : v.name.isSome = true → ∀ w ∈ vs, w.name.isSome = true) (h : AreWritten n vs) :
    AreWritten n (v :: vs) where
  items := List.forall_mem_cons.2 ⟨hv, h.items⟩
  names := List.forall_mem_cons.2 ⟨hname, h.names⟩
  namesLast := List.pairwise_cons.2 ⟨fun w hw hsome => hbehind hsome w hw, h.namesLast⟩

theorem AreWritten.tail (h : AreWritten n (v :: vs)) : AreWritten n vs where
  items := (List.forall_mem_cons.1 h.items).2
  names := (List.forall_mem_cons.1 h.names).2
  namesLast := (List.pairwise_cons.1 h.namesLast).2

end Value

namespace Statement

variable {line i n : Nat} {cs : List Char} {ts us : List Placed} {v : Value} {vs : List Value}

/-- A token as characters of a line can make it. -/
def Token.WellFormed : Token → Prop
  | .word w => Text.IsRun w.toList
  | .name w => Text.IsRun w.toList
  | .quoted q => Value.Quotable q
  | _ => True

/-- Tokens that lines can make. -/
def WellFormed (ts : List Placed) : Prop :=
  ∀ t ∈ ts, t.token.WellFormed

theorem wellFormed_of_lineTokens (h : LineTokens line i cs ts) (hcs : '\n' ∉ cs) :
    WellFormed ts := by
  induction h with
  | nil => exact fun t ht => absurd ht List.not_mem_nil
  | comment => exact fun t ht => absurd ht List.not_mem_nil
  | separator _ _ ih => exact ih fun hm => hcs (List.mem_cons_of_mem _ hm)
  | mark hc _ ih =>
    refine List.forall_mem_cons.2 ⟨?_, ih fun hm => hcs (List.mem_cons_of_mem _ hm)⟩
    unfold Token.ofMark at hc
    split at hc <;> cases hc <;> trivial
  | @quoted i q rest ts hq _ ih =>
    have hmem : '\n' ∉ q ∧ '\n' ∉ rest := by simpa using hcs
    refine List.forall_mem_cons.2 ⟨?_, ih hmem.2⟩
    refine ⟨?_, ?_⟩
    · rw [String.toList_ofList]
      exact hq
    · rw [String.toList_ofList]
      exact hmem.1
  | name hw _ ih =>
    refine List.forall_mem_cons.2 ⟨?_, ih fun hm => hcs (by simp [hm])⟩
    change Text.IsRun (String.ofList _).toList
    rw [String.toList_ofList]
    exact hw
  | word hw _ _ ih =>
    refine List.forall_mem_cons.2 ⟨?_, ih fun hm => hcs (by simp [hm])⟩
    change Text.IsRun (String.ofList _).toList
    rw [String.toList_ofList]
    exact hw

/-- **The tokens of a script are well formed**, for none goes over a line
end. -/
theorem wellFormed_of_tokens {source : String} (h : Tokens source ts) : WellFormed ts := by
  have hall : ∀ {lines : List String} {index : Nat} {ts : List Placed},
      LinesTokens index lines ts → (∀ l ∈ lines, '\n' ∉ l.toList) → WellFormed ts := by
    intro lines index ts h
    induction h with
    | nil => exact fun _ t ht => absurd ht List.not_mem_nil
    | cons hline _ ih =>
      intro hlines
      obtain ⟨hfirst, hrest⟩ := List.forall_mem_cons.1 hlines
      exact List.forall_mem_append.2 ⟨wellFormed_of_lineTokens hline hfirst, ih hrest⟩
  exact hall h fun l hl => Text.lines_no_feed hl

mutual

/-- A value that derives from well-formed tokens can be written. -/
theorem isWritten_of_isValue : ∀ {n : Nat} {ts : List Placed} {v : Value},
    IsValue n ts v → WellFormed ts → v.IsWritten n
  | _, _, _, .word, h => Value.isWritten_word (h _ List.mem_cons_self)
  | _, _, _, .quoted, h => .string (h _ List.mem_cons_self)
  | _, _, _, .array hvs, h => by
    have hinner : WellFormed _ := fun t ht =>
      h t (List.mem_cons_of_mem _ (List.mem_append_left _ ht))
    obtain ⟨hitems, hnames, hlast⟩ := areWritten_of_isArguments hvs hinner
    exact .array hitems hnames hlast

/-- **Arguments that derive from well-formed tokens can be written.** -/
theorem areWritten_of_isArguments : ∀ {n : Nat} {ts : List Placed} {vs : List Value},
    IsArguments n ts vs → WellFormed ts → Value.AreWritten n vs
  | _, _, _, .positional hv h, hts => by
    obtain ⟨hfirst, hrest⟩ := List.forall_mem_append.1 hts
    have hname := hv.name_eq_none
    refine .cons (isWritten_of_isValue hv hfirst) ?_ ?_ (areWritten_of_isArguments h hrest)
    · rw [hname]
      exact fun w hw => by cases hw
    · rw [hname]
      simp
  | _, _, _, .named h, hts => areWritten_of_isNamed h hts

/-- Arguments with names that derive from well-formed tokens can be
written. -/
theorem areWritten_of_isNamed : ∀ {n : Nat} {ts : List Placed} {vs : List Value},
    IsNamed n ts vs → WellFormed ts → Value.AreWritten n vs
  | _, _, _, .nil, _ => .nil
  | _, _, _, @IsNamed.cons _ name _ _ _ v _ hv h, hts => by
    obtain ⟨hlabel, hts⟩ := List.forall_mem_cons.1 hts
    obtain ⟨hfirst, hrest⟩ := List.forall_mem_append.1 hts
    refine .cons ((isWritten_of_isValue hv hfirst).rename _) ?_ (fun _ => h.name_isSome)
      (areWritten_of_isNamed h hrest)
    intro w hw
    rw [Value.name_rename] at hw
    cases hw
    exact hlabel

end

/-- **A statement that a script can make**: a command word that can stand in
quotes, and arguments that can be written. -/
structure IsWritten (made : Statement) : Prop where
  /-- The command word can stand in quotes. -/
  name : Value.Quotable made.name
  /-- The arguments are an array without a name, of what can be written. -/
  arguments : ∃ vs p, made.arguments = Value.list vs p ∧ Value.AreWritten maxNesting vs

/-- **The statements that derive from well-formed tokens can be written.** -/
theorem isWritten_of_isScript {statements : List Statement} (h : IsScript ts statements)
    (hts : WellFormed ts) : ∀ made ∈ statements, made.IsWritten := by
  induction h with
  | nil => simp
  | empty _ ih => exact ih fun t ht => hts t (List.mem_cons_of_mem _ ht)
  | @statement head name p q us ts vs ss hhead hargs _ ih =>
    obtain ⟨hfirst, hrest⟩ := List.forall_mem_cons.1 hts
    obtain ⟨hus, hlater⟩ := List.forall_mem_append.1 hrest
    obtain ⟨-, hlater⟩ := List.forall_mem_cons.1 hlater
    refine List.forall_mem_cons.2 ⟨⟨?_, vs, _, rfl, areWritten_of_isArguments hargs hus⟩,
      ih hlater⟩
    cases head with
    | word w =>
      cases hhead
      exact Value.quotable_of_isRun hfirst
    | quoted q =>
      cases hhead
      exact hfirst
    | _ => cases hhead

end Statement

end CommandScript
