import CommandScript.Proofs.Signature.Derivation

/-!
# The grammar of signatures is unambiguous

Tokens derive at most one list of declarations (`IsSignature.unique`),
whatever the types are and whether or not defaults fit. Commas may be left
out, so where a declaration ends is not marked; but what begins one cannot go
on with the one before it. Each statement here is about what derives in front
of other tokens, and says that it ends in one place only. For literals that
is what the reader does.
-/

namespace CommandScript

namespace Signature

variable {n : Nat} {cs cs' ts ts' us us' : List Token}

theorem IsName.unique {name name' : String} {t : Token} (h : IsName name t)
    (h' : IsName name' t) : name = name' := by
  cases h <;> cases h' <;> rfl

/-- **A literal ends in one place**, and is one value: it is what the reader
takes off. -/
theorem IsLiteral.unique {v v' : Value} (h : IsLiteral n ts v) (h' : IsLiteral n ts' v')
    (he : ts ++ us = ts' ++ us') : v = v' ∧ us = us' := by
  let r : Reader := ⟨fun _ => none, 0⟩
  let toks : List Placed := (ts ++ us).map fun t => ⟨t, 0⟩
  have htoks : toks.map Placed.token = ts ++ us := by
    rw [List.map_map]
    exact List.map_id _
  obtain ⟨rest, hread, hrest⟩ := literal_of_isLiteral (r := r) h htoks
  obtain ⟨rest', hread', hrest'⟩ := literal_of_isLiteral (r := r) h' (htoks.trans he)
  obtain ⟨rfl, rfl⟩ := Prod.mk.inj (Except.ok.inj (hread.symm.trans hread'))
  exact ⟨rfl, hrest.symm.trans hrest'⟩

/-- A default is seen by its equals sign. -/
theorem IsDefault.unique {d d' : Option Value} (h : IsDefault n ts d) (h' : IsDefault n ts' d')
    (hus : Separate us) (hus' : Separate us') (he : ts ++ us = ts' ++ us') :
    d = d' ∧ us = us' := by
  cases h with
  | none =>
    cases h' with
    | none => exact ⟨rfl, he⟩
    | some =>
      rw [List.nil_append] at he
      subst he
      exact absurd rfl hus.2
  | some hv =>
    cases h' with
    | none =>
      rw [List.nil_append] at he
      subst he
      exact absurd rfl hus'.2
    | some hv' =>
      obtain ⟨rfl, hrest⟩ := hv.unique hv' (List.cons.inj he).2
      exact ⟨rfl, hrest⟩

/-- One comma is left out, and no second one stands behind it. -/
theorem IsComma.unique (h : IsComma cs) (h' : IsComma cs') (hus : us.head? ≠ some .comma)
    (hus' : us'.head? ≠ some .comma) (he : cs ++ us = cs' ++ us') : us = us' := by
  cases h with
  | none =>
    cases h' with
    | none => exact he
    | one =>
      rw [List.nil_append] at he
      subst he
      exact absurd rfl hus
  | one =>
    cases h' with
    | none =>
      rw [List.nil_append] at he
      subst he
      exact absurd rfl hus'
    | one => exact (List.cons.inj he).2

/-- **What ends declarations**: the end, or a closing parenthesis. -/
def Closed (us : List Token) : Prop :=
  ∀ t ∈ us.head?, t = .closeParen

theorem Closed.separate (h : Closed us) : Separate us :=
  ⟨fun hc => Token.noConfusion (h _ hc), fun hc => Token.noConfusion (h _ hc)⟩

theorem Closed.head?_ne_comma (h : Closed us) : us.head? ≠ some .comma :=
  fun hc => Token.noConfusion (h _ hc)

/-- Declarations and their end do not look the same. -/
theorem IsParam.not_closed {d : Declaration} (h : IsParam n ts d) : ¬ Closed (ts ++ us) := by
  obtain ⟨t, more, rfl, ht⟩ := h.exists_head
  exact fun hclosed => (ne_of_begins ht).2 (hclosed t rfl)

theorem IsParam.head?_ne_comma {d : Declaration} (h : IsParam n ts d) :
    (ts ++ us).head? ≠ some .comma := by
  obtain ⟨t, more, rfl, ht⟩ := h.exists_head
  exact fun hc => (ne_of_begins ht).1 (Option.some.inj hc)

theorem closed_closeParen (us : List Token) : Closed (.closeParen :: us) := by
  rintro t ⟨⟩
  rfl

mutual

/-- **A declaration ends in one place**, and is one declaration. -/
theorem IsParam.unique : ∀ {n : Nat} {ts : List Token} {d : Declaration}, IsParam n ts d →
    ∀ {ts' us us' : List Token} {d' : Declaration}, IsParam n ts' d' → Separate us →
      Separate us' → ts ++ us = ts' ++ us' → d = d' ∧ us = us'
  | _, _, _, .word hname hdefault, _, us, us', _, h', hus, hus', he => by
    cases h' with
    | word hname' hdefault' =>
      obtain ⟨htype, hnamed⟩ := List.cons.inj he
      obtain ⟨htoken, hbehind⟩ := List.cons.inj hnamed
      cases htype
      cases htoken
      obtain rfl := hname.unique hname'
      obtain ⟨rfl, hrest⟩ := hdefault.unique hdefault' hus hus' hbehind
      exact ⟨rfl, hrest⟩
    | array =>
      rw [List.append_assoc, parenTokens_append] at he
      cases he
  | _, _, _, .array hinner hname hdefault, _, us, us', _, h', hus, hus', he => by
    rw [List.append_assoc, parenTokens_append] at he
    cases h' with
    | word => cases he
    | array hinner' hname' hdefault' =>
      -- the types end at the parentheses that close them, and the names stand behind
      rw [List.append_assoc, parenTokens_append] at he
      obtain ⟨rfl, hclosed⟩ := hinner.unique hinner' (closed_closeParen _) (closed_closeParen _)
        (List.cons.inj he).2
      obtain ⟨htoken, hbehind⟩ := List.cons.inj (List.cons.inj hclosed).2
      cases htoken
      obtain rfl := hname.unique hname'
      obtain ⟨rfl, hrest⟩ := hdefault.unique hdefault' hus hus' hbehind
      exact ⟨rfl, hrest⟩

/-- **Declarations end in one place**, and are one list. -/
theorem IsParams.unique : ∀ {n : Nat} {ts : List Token} {ds : List Declaration},
    IsParams n ts ds → ∀ {ts' us us' : List Token} {ds' : List Declaration}, IsParams n ts' ds' →
      Closed us → Closed us' → ts ++ us = ts' ++ us' → ds = ds' ∧ us = us'
  | _, _, _, .nil hc, _, us, us', _, h', hus, hus', he => by
    cases h' with
    | nil hc' => exact ⟨rfl, hc.unique hc' hus.head?_ne_comma hus'.head?_ne_comma he⟩
    | cons hc' hd' hds' =>
      -- one list has ended where the other goes on
      rw [List.append_assoc, List.append_assoc] at he
      have hsame := hc.unique hc' hus.head?_ne_comma hd'.head?_ne_comma he
      exact absurd (hsame ▸ hus) hd'.not_closed
  | _, _, _, .cons hc hd hds, _, us, us', _, h', hus, hus', he => by
    rw [List.append_assoc, List.append_assoc] at he
    cases h' with
    | nil hc' =>
      have hsame := hc.unique hc' hd.head?_ne_comma hus'.head?_ne_comma he
      exact absurd (hsame ▸ hus') hd.not_closed
    | cons hc' hd' hds' =>
      rw [List.append_assoc, List.append_assoc] at he
      have hfirst := hc.unique hc' hd.head?_ne_comma hd'.head?_ne_comma he
      obtain ⟨rfl, hlater⟩ := hd.unique hd' (hds.separate hus.separate)
        (hds'.separate hus'.separate) hfirst
      obtain ⟨rfl, hrest⟩ := hds.unique hds' hus hus' hlater
      exact ⟨rfl, hrest⟩

end

/-- Declarations in the signature's own parentheses are not declarations as
they stand: a name would come behind the type. -/
theorem not_bare_parenTokens {ds ds' : List Declaration} (h : IsParams n ts ds) :
    ¬ IsParams n (parenTokens ts) ds' := by
  intro h'
  obtain ⟨m, -, hm⟩ := h.balanced
  have hopen := closes_eq_false h' rfl
  rw [hm.closes_closeParen] at hopen
  cases hopen

/-- **Tokens derive one signature at most.** -/
theorem IsSignature.unique {ds ds' : List Declaration} (h : IsSignature ts ds)
    (h' : IsSignature ts ds') : ds = ds' := by
  have hend : Closed [] := by simp [Closed]
  cases h with
  | bare hds =>
    cases h' with
    | bare hds' => exact (hds.unique hds' hend hend rfl).1
    | wrapped hds' => exact absurd hds (not_bare_parenTokens hds')
  | wrapped hds =>
    generalize hts : parenTokens _ = us at h'
    cases h' with
    | bare hds' =>
      rw [← hts] at hds'
      exact absurd hds' (not_bare_parenTokens hds)
    | wrapped hds' =>
      exact (hds.unique hds' (closed_closeParen []) (closed_closeParen [])
        (List.cons.inj hts).2).1

end Signature

end CommandScript
