import CommandScript.Proofs.Signature.Grammar
import CommandScript.Proofs.Signature.Steps

/-!
# Reading literals

What the reader takes off its tokens as a literal derives from the grammar,
by induction on the calls it has left (`derives_of_literal`). What derives is
taken off, whatever comes behind it that could not belong to it, by induction
on the derivation: every literal has a token, so the tokens bound the calls
(`literal_of_isLiteral`).
-/

namespace CommandScript

namespace Signature

variable {r : Reader} {n room calls : Nat} {toks rest : List Placed} {cs ls ts us : List Token}
  {label : Option String} {v : Value}

/-! ## Tokens ahead -/

theorem exists_of_map_cons {t : Token} (h : toks.map Placed.token = t :: us) :
    ∃ column rest, toks = ⟨t, column⟩ :: rest ∧ rest.map Placed.token = us := by
  obtain ⟨⟨token, column⟩, rest, rfl, rfl, hrest⟩ := List.map_eq_cons_iff.1 h
  exact ⟨column, rest, rfl, hrest⟩

/-- A comma is left out where one stands. -/
theorem exists_comma (toks : List Placed) :
    ∃ cs, IsComma cs ∧ toks.map Placed.token = cs ++ (skipComma toks).map Placed.token := by
  unfold skipComma
  split
  · exact ⟨_, .one, rfl⟩
  · exact ⟨_, .none, rfl⟩

/-- Where no comma stands, none is left out. -/
theorem skipComma_of_ne (h : (toks.map Placed.token).head? ≠ some .comma) :
    skipComma toks = toks := by
  unfold skipComma
  split
  · exact absurd rfl h
  · rfl

theorem map_skipComma (hc : IsComma cs) (h : toks.map Placed.token = cs ++ us)
    (hus : us.head? ≠ some .comma) : (skipComma toks).map Placed.token = us := by
  cases hc with
  | none =>
    rw [List.nil_append] at h
    rw [skipComma_of_ne (by rw [h]; exact hus), h]
  | one =>
    obtain ⟨column, rest, rfl, hrest⟩ := exists_of_map_cons h
    exact hrest

/-- A name is taken off where one stands. -/
theorem exists_label (toks : List Placed) :
    ∃ ls, IsLabel (Reader.takeLabel toks).1 ls ∧
      toks.map Placed.token = ls ++ (Reader.takeLabel toks).2.map Placed.token := by
  unfold Reader.takeLabel
  split
  · exact ⟨_, .some .word, rfl⟩
  · exact ⟨_, .some .quoted, rfl⟩
  · exact ⟨_, .none, rfl⟩

/-! ## Literals -/

theorem derives_of_literalWith
    {entries : Nat → List Placed → Except ParseError (Parsed (List Value))}
    (hentries : ∀ {room : Nat} {toks : List Placed} {vs : List Value} {rest : List Placed},
      entries room toks = .ok (vs, rest) → ∃ ts, IsEntries room ts vs ∧
        toks.map Placed.token = ts ++ .closeParen :: rest.map Placed.token)
    (h : r.literalWith entries room toks = .ok (v, rest)) :
    ∃ ts, IsLiteral room ts v ∧ toks.map Placed.token = ts ++ rest.map Placed.token := by
  rcases Reader.literalWith_eq_ok h with ⟨w, column, rfl, rfl⟩ | ⟨q, column, rfl, rfl⟩ |
    ⟨column, inner, room', vs, rfl, rfl, hvs, rfl⟩
  · exact ⟨_, .word, rfl⟩
  · exact ⟨_, .quoted, rfl⟩
  · obtain ⟨ts, hts, htoks⟩ := hentries hvs
    refine ⟨_, .array hts, ?_⟩
    rw [parenTokens_append, ← htoks]
    rfl

/-- **What is read as entries derives**, up to a closing parenthesis. -/
theorem derives_of_entries : ∀ {calls room : Nat} {toks : List Placed} {vs : List Value}
    {rest : List Placed}, r.entries calls room toks = .ok (vs, rest) →
      ∃ ts, IsEntries room ts vs ∧
        toks.map Placed.token = ts ++ .closeParen :: rest.map Placed.token := by
  intro calls
  induction calls with
  | zero =>
    intro room toks vs rest h
    cases h
  | succ calls ih =>
    intro room toks vs rest h
    obtain ⟨cs, hcs, hcomma⟩ := exists_comma toks
    rcases Reader.entries_eq_ok h with ⟨column, hskip, rfl⟩ | ⟨v, after, more, hv, hmore, rfl⟩
    · rw [hskip] at hcomma
      exact ⟨cs, .nil hcs, hcomma⟩
    · obtain ⟨ls, hls, hlabel⟩ := exists_label (skipComma toks)
      obtain ⟨ts, hts, hliteral⟩ := derives_of_literalWith ih hv
      obtain ⟨us, hus, hlater⟩ := ih hmore
      refine ⟨_, .cons hcs hls hts hus, ?_⟩
      rw [hcomma, hlabel, hliteral, hlater]
      simp only [List.append_assoc]

/-- **What is read as a literal derives.** -/
theorem derives_of_literal (h : r.literal room toks = .ok (v, rest)) :
    ∃ ts, IsLiteral room ts v ∧ toks.map Placed.token = ts ++ rest.map Placed.token :=
  derives_of_literalWith derives_of_entries h

/-- A name is taken off together with its colon, and no literal is taken for
one. -/
theorem takeLabel_of_isLabel (hl : IsLabel label ls) (hv : IsLiteral n ts v) (hus : Separate us)
    (h : toks.map Placed.token = ls ++ (ts ++ us)) :
    ∃ rest, Reader.takeLabel toks = (label, rest) ∧ rest.map Placed.token = ts ++ us := by
  cases hl with
  | some hname =>
    obtain ⟨column, named, rfl, hnamed⟩ := exists_of_map_cons h
    obtain ⟨column', rest, rfl, hrest⟩ := exists_of_map_cons hnamed
    cases hname with
    | word => exact ⟨rest, rfl, hrest⟩
    | quoted => exact ⟨rest, rfl, hrest⟩
  | none =>
    refine ⟨toks, ?_, h⟩
    -- behind a word that has no colon there is something else, or nothing
    have hunnamed : ∀ {t : Token} {column : Nat} {rest : List Placed},
        toks = ⟨t, column⟩ :: rest → rest.map Placed.token = us →
          Reader.takeLabel toks = (none, toks) := by
      rintro t column rest rfl rfl
      unfold Reader.takeLabel
      split
      · rename_i hcons
        cases hcons
        exact absurd rfl hus.1
      · rename_i hcons
        cases hcons
        exact absurd rfl hus.1
      · rfl
    cases hv with
    | word =>
      obtain ⟨column, rest, htoks, hrest⟩ := exists_of_map_cons h
      exact hunnamed htoks hrest
    | quoted =>
      obtain ⟨column, rest, htoks, hrest⟩ := exists_of_map_cons h
      exact hunnamed htoks hrest
    | array =>
      obtain ⟨column, rest, rfl, -⟩ := exists_of_map_cons h
      rfl

mutual

/-- A literal that derives is read, whatever comes behind it. -/
theorem literalWith_of_isLiteral : ∀ {room : Nat} {ts : List Token} {v : Value},
    IsLiteral room ts v → ∀ {calls : Nat} {toks : List Placed} {us : List Token},
      ts.length ≤ calls → toks.map Placed.token = ts ++ us →
        ∃ rest, r.literalWith (r.entries calls) room toks = .ok (v, rest) ∧
          rest.map Placed.token = us
  | _, _, _, .word, _, _, _, _, htoks => by
    obtain ⟨column, rest, rfl, hrest⟩ := exists_of_map_cons htoks
    exact ⟨rest, rfl, hrest⟩
  | _, _, _, .quoted, _, _, _, _, htoks => by
    obtain ⟨column, rest, rfl, hrest⟩ := exists_of_map_cons htoks
    exact ⟨rest, rfl, hrest⟩
  | _, _, _, .array hvs, calls, toks, us, hcalls, htoks => by
    rw [parenTokens_append] at htoks
    obtain ⟨column, inner, rfl, hinner⟩ := exists_of_map_cons htoks
    rw [length_parenTokens] at hcalls
    obtain ⟨rest, hread, hrest⟩ := entries_of_isEntries hvs (by omega : _ < calls) hinner
    refine ⟨rest, ?_, hrest⟩
    change (r.entries calls _ inner).map _ = _
    rw [hread]
    rfl

/-- **Entries that derive are read** up to the parenthesis that closes
them. -/
theorem entries_of_isEntries : ∀ {room : Nat} {ts : List Token} {vs : List Value},
    IsEntries room ts vs → ∀ {calls : Nat} {toks : List Placed} {us : List Token},
      ts.length < calls → toks.map Placed.token = ts ++ .closeParen :: us →
        ∃ rest, r.entries calls room toks = .ok (vs, rest) ∧ rest.map Placed.token = us
  | _, _, _, .nil hcs, calls, _, _, hcalls, htoks => by
    obtain ⟨calls, rfl⟩ : ∃ n, calls = n + 1 := ⟨calls - 1, by omega⟩
    obtain ⟨column, rest, hskip, hrest⟩ := exists_of_map_cons (map_skipComma hcs htoks (by simp))
    refine ⟨rest, ?_, hrest⟩
    rw [Reader.entries, hskip]
  | _, _, _, @IsEntries.cons _ cs ls ts us label v vs hcs hls hv hvs, calls, _, rest, hcalls,
      htoks => by
    obtain ⟨calls, rfl⟩ : ∃ n, calls = n + 1 := ⟨calls - 1, by omega⟩
    obtain ⟨t, more, hhead, ht⟩ := hls.exists_head hv
    have hpos := hv.length_pos
    simp only [List.length_append] at hcalls
    simp only [List.append_assoc] at htoks
    -- the comma goes, then the name, then the literal, and the others follow
    have hfirst : ls ++ (ts ++ (us ++ .closeParen :: rest)) =
        t :: (more ++ (us ++ .closeParen :: rest)) := by
      rw [← List.append_assoc, hhead, List.cons_append]
    obtain ⟨hcomma, hclose⟩ := ne_of_begins ht
    have hskipped := map_skipComma hcs htoks (by rw [hfirst]; simpa using hcomma)
    obtain ⟨column, entry, hskip, -⟩ := exists_of_map_cons (hskipped.trans hfirst)
    have hseparate : Separate (us ++ .closeParen :: rest) := hvs.separate ⟨by simp, by simp⟩
    obtain ⟨literal, hlabel, hliteral⟩ := takeLabel_of_isLabel hls hv hseparate hskipped
    obtain ⟨later, hread, hlater⟩ := literalWith_of_isLiteral hv (by omega : _ ≤ calls) hliteral
    obtain ⟨last, hreadLater, hlast⟩ := entries_of_isEntries hvs (by omega : _ < calls) hlater
    refine ⟨last, ?_, hlast⟩
    rw [Reader.entries_cons hskip hclose, ← hskip, hlabel]
    exact bind_eq_ok_iff.2 ⟨_, hread, bind_eq_ok_iff.2 ⟨_, hreadLater, rfl⟩⟩

end

/-- **A literal that derives is read.** -/
theorem literal_of_isLiteral (h : IsLiteral room ts v) (htoks : toks.map Placed.token = ts ++ us) :
    ∃ rest, r.literal room toks = .ok (v, rest) ∧ rest.map Placed.token = us := by
  have hlen := congrArg List.length htoks
  rw [List.length_map, List.length_append] at hlen
  exact literalWith_of_isLiteral h (by omega) htoks

end Signature

end CommandScript
