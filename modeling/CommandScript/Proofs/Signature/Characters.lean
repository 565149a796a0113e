import CommandScript.Proofs.Signature.Lexing

/-!
# The characters of a signature

What a signature is written in, apart from how it is read: words, quoted
texts and five marks, with blanks between. Words are as long as possible, a
quoted text runs to the next quote, and any other character belongs to
nothing. The tokens that are read are those that the characters have
(`exists_tokens_iff`), columns aside.
-/

namespace CommandScript

namespace Signature

/-- **The tokens of characters.** Characters that are not made of tokens have
none. -/
inductive HasTokens : List Char → List Token → Prop
  /-- The text has ended. -/
  | nil : HasTokens [] []
  /-- A blank means nothing. -/
  | blank {c : Char} {rest : List Char} {ts : List Token} :
      Text.isBlank c = true → HasTokens rest ts → HasTokens (c :: rest) ts
  /-- A parenthesis, a comma, a colon or an equals sign. -/
  | mark {c : Char} {rest : List Char} {t : Token} {ts : List Token} :
      Token.ofMark c = some t → HasTokens rest ts → HasTokens (c :: rest) (t :: ts)
  /-- A quoted text runs to the next quote. -/
  | quoted {q rest : List Char} {ts : List Token} :
      '"' ∉ q → HasTokens rest ts →
      HasTokens ('"' :: (q ++ '"' :: rest)) (.quoted (String.ofList q) :: ts)
  /-- A run that cannot be longer is a word. -/
  | word {w rest : List Char} {ts : List Token} :
      Text.IsRun w → (∀ c ∈ rest.head?, Text.isWordChar c = false) → HasTokens rest ts →
      HasTokens (w ++ rest) (.word (String.ofList w) :: ts)

variable {cs : List Char} {ts : List Token}

/-- Characters that have tokens make them wherever they stand. -/
theorem HasTokens.spells (h : HasTokens cs ts) : Spells cs ts := by
  induction h with
  | nil => exact spells_nil
  | blank hc _ ih => exact .blank hc ih
  | mark hc _ ih => exact .mark hc ih
  | quoted hq _ ih => exact .quoted hq ih
  | word hw hend _ ih => exact .word hw hend ih

/-- What characters have tokens of, in front of which a token has been
begun. -/
def Continues (ts : List Token) (cs : List Char) : Lexing → Prop
  | .between => HasTokens cs ts
  | .word text _ => ∃ w rest us, cs = w ++ rest ∧ (∀ c ∈ w, Text.isWordChar c = true) ∧
      (∀ c ∈ rest.head?, Text.isWordChar c = false) ∧ HasTokens rest us ∧
      ts = .word (text ++ String.ofList w) :: us
  | .quoted text _ => ∃ q rest us, cs = q ++ '"' :: rest ∧ '"' ∉ q ∧ HasTokens rest us ∧
      ts = .quoted (text ++ String.ofList q) :: us

theorem push_append_ofList (text : String) (c : Char) (cs : List Char) :
    text.push c ++ String.ofList cs = text ++ String.ofList (c :: cs) := by
  apply String.toList_inj.1
  simp

/-- A character that continues no token starts what the characters behind it
continue. -/
theorem hasTokens_of_start {c : Char} {column : Nat} {made later : List Placed} {state : Lexing}
    {rest : List Char} (h : Lexing.start column c = .ok (made, state))
    (hrest : Continues (later.map Placed.token) rest state) :
    HasTokens (c :: rest) ((made ++ later).map Placed.token) := by
  rcases Lexing.start_eq_ok h with ⟨hblank, rfl, rfl⟩ | ⟨t, hmark, rfl, rfl⟩ | ⟨rfl, rfl, rfl⟩ |
    ⟨hword, rfl, rfl⟩
  · exact .blank hblank hrest
  · exact .mark hmark hrest
  · obtain ⟨q, more, us, rfl, hq, hmore, hts⟩ := hrest
    rw [List.nil_append, hts, String.empty_append]
    exact .quoted hq hmore
  · obtain ⟨w, more, us, rfl, hw, hend, hmore, hts⟩ := hrest
    have hrun : Text.IsRun (c :: w) :=
      ⟨List.cons_ne_nil _ _, List.forall_mem_cons.2 ⟨hword, hw⟩⟩
    have htext : c.toString ++ String.ofList w = String.ofList (c :: w) := by
      apply String.toList_inj.1
      simp
    rw [List.nil_append, hts, htext, ← List.cons_append]
    exact .word hrun hend hmore

/-- **One character more**: what it makes, and what the characters behind it
continue, are what it continues with them. -/
theorem continues_of_next {c : Char} {column : Nat} {made later : List Placed}
    {state after : Lexing} {rest : List Char} (h : state.next column c = .ok (made, after))
    (hrest : Continues (later.map Placed.token) rest after) :
    Continues ((made ++ later).map Placed.token) (c :: rest) state := by
  rcases Lexing.next_eq_ok h with ⟨rfl, hstart⟩ | ⟨text, origin, rfl, hc, rfl, rfl⟩ |
    ⟨text, origin, started, rfl, hc, hstart, rfl⟩ | ⟨text, origin, rfl, rfl, rfl, rfl⟩ |
    ⟨text, origin, rfl, hc, rfl, rfl⟩
  · exact hasTokens_of_start hstart hrest
  · obtain ⟨w, more, us, rfl, hw, hend, hmore, hts⟩ := hrest
    refine ⟨c :: w, more, us, rfl, List.forall_mem_cons.2 ⟨hc, hw⟩, hend, hmore, ?_⟩
    rw [List.nil_append, hts, push_append_ofList]
  · -- the word ends here, and the character starts what comes next
    refine ⟨[], c :: rest, _, rfl, by simp, by simpa using hc, hasTokens_of_start hstart hrest, ?_⟩
    rw [String.ofList_nil, String.append_empty]
    rfl
  · refine ⟨[], rest, _, rfl, by simp, hrest, ?_⟩
    rw [String.ofList_nil, String.append_empty]
    rfl
  · obtain ⟨q, more, us, rfl, hq, hmore, hts⟩ := hrest
    refine ⟨c :: q, more, us, rfl, ?_, hmore, ?_⟩
    · rw [List.mem_cons, not_or]
      exact ⟨Ne.symm hc, hq⟩
    · rw [List.nil_append, hts, push_append_ofList]

/-- **What is read from characters, they have.** -/
theorem continues_of_lexChars : ∀ {cs : List Char} {i : Nat} {state : Lexing} {toks : List Placed},
    lexChars cs i state = .ok toks → Continues (toks.map Placed.token) cs state := by
  intro cs
  induction cs with
  | nil =>
    intro i state toks h
    cases state with
    | between =>
      cases h
      exact .nil
    | word text origin =>
      cases h
      refine ⟨[], [], [], rfl, by simp, by simp, .nil, ?_⟩
      rw [String.ofList_nil, String.append_empty]
      rfl
    | quoted text origin => cases h
  | cons c rest ih =>
    intro i state toks h
    rw [lexChars_cons] at h
    obtain ⟨⟨made, after⟩, hnext, h⟩ := bind_eq_ok_iff.1 h
    obtain ⟨later, hlater, h⟩ := bind_eq_ok_iff.1 h
    cases h
    exact continues_of_next hnext (ih hlater)

/-- **The tokens that are read are those that the characters have.** -/
theorem exists_tokens_iff {source : String} :
    (∃ toks, tokens source = .ok toks ∧ toks.map Placed.token = ts) ↔
      HasTokens source.toList ts := by
  constructor
  · rintro ⟨toks, htoks, rfl⟩
    exact continues_of_lexChars htoks
  · exact fun h => tokens_of_spells h.spells

/-- Characters have one list of tokens at most. -/
theorem HasTokens.unique {us : List Token} (h : HasTokens cs ts) (h' : HasTokens cs us) :
    ts = us := by
  have hread : ∀ {vs : List Token}, HasTokens cs vs →
      ∃ toks, tokens (String.ofList cs) = .ok toks ∧ toks.map Placed.token = vs := by
    intro vs hvs
    rw [← String.toList_ofList (l := cs)] at hvs
    exact exists_tokens_iff.2 hvs
  obtain ⟨toks, htoks, rfl⟩ := hread h
  obtain ⟨toks', htoks', rfl⟩ := hread h'
  rw [Except.ok.inj (htoks.symm.trans htoks')]

end Signature

end CommandScript
