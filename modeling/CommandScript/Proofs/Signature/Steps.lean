import CommandScript.Proofs.Signature.Lexing
import CommandScript.Signature.Parser

/-!
# What each step of a reader does

The reader goes over tokens with a bound on its calls, and each of its steps
does one of a few things. This file says which (`entries_eq_ok`,
`params_eq_ok` and the lemmas between), and everything that holds of all
signatures follows from that by induction on the calls.
-/

namespace CommandScript

namespace Signature

theorem isOptional_withDefault (p : Param) (d : Value) : (p.withDefault d).isOptional = true := by
  cases p <;> rfl

namespace Reader

variable {r : Reader} {calls room : Nat} {nested : Bool} {toks rest : List Placed}

/-- **A literal** is a word, a quoted text, or entries in parentheses. -/
theorem literalWith_eq_ok {entries : Nat → List Placed → Except ParseError (Parsed (List Value))}
    {v : Value} (h : r.literalWith entries room toks = .ok (v, rest)) :
    (∃ w column, toks = ⟨.word w, column⟩ :: rest ∧ v = Value.word w) ∨
      (∃ q column, toks = ⟨.quoted q, column⟩ :: rest ∧ v = Value.quoted q) ∨
      ∃ column inner room' vs, toks = ⟨.openParen, column⟩ :: inner ∧ room = room' + 1 ∧
        entries room' inner = .ok (vs, rest) ∧ v = Value.list vs := by
  unfold literalWith at h
  split at h
  · cases h
  · rename_i w column _
    cases h
    exact .inl ⟨w, column, rfl, rfl⟩
  · rename_i q column _
    cases h
    exact .inr (.inl ⟨q, column, rfl, rfl⟩)
  · rename_i column inner
    split at h
    · cases h
    · rename_i room'
      obtain ⟨⟨vs, after⟩, hentries, hv⟩ := map_eq_ok_iff.1 h
      cases hv
      exact .inr (.inr ⟨column, inner, room', vs, rfl, rfl, hentries, rfl⟩)
  · cases h

/-- **The entries of an array literal** end at a parenthesis or go on with a
literal. -/
theorem entries_eq_ok {vs : List Value} (h : r.entries (calls + 1) room toks = .ok (vs, rest)) :
    (∃ column, skipComma toks = ⟨.closeParen, column⟩ :: rest ∧ vs = []) ∨
      ∃ v after more, r.literalWith (r.entries calls) room (takeLabel (skipComma toks)).2 =
          .ok (v, after) ∧
        r.entries calls room after = .ok (more, rest) ∧
        vs = v.rename (takeLabel (skipComma toks)).1 :: more := by
  rw [entries] at h
  split at h
  · cases h
  · rename_i column inner hskip
    cases h
    exact .inl ⟨column, hskip, rfl⟩
  · obtain ⟨⟨v, after⟩, hv, h⟩ := bind_eq_ok_iff.1 h
    obtain ⟨⟨more, last⟩, hmore, h⟩ := bind_eq_ok_iff.1 h
    cases h
    exact .inr ⟨v, after, more, hv, hmore, rfl⟩

/-- Entries go on with whatever is no closing parenthesis. -/
theorem entries_cons {t : Placed} {more : List Placed} (hskip : skipComma toks = t :: more)
    (ht : t.token ≠ .closeParen) :
    r.entries (calls + 1) room toks =
      (r.literalWith (r.entries calls) room (Reader.takeLabel (t :: more)).2 >>= fun read =>
        r.entries calls room read.2 >>= fun later =>
          pure (read.1.rename (Reader.takeLabel (t :: more)).1 :: later.1, later.2)) := by
  rw [Reader.entries, hskip]
  split
  · contradiction
  · rename_i hclose
    cases hclose
    exact absurd rfl ht
  · rfl

/-- **A type** is a word or parameters in parentheses. -/
theorem typeWith_eq_ok {params : Nat → List Placed → Except ParseError (Parsed (List (List Param)))}
    {t : Placed} {type : String → List Param} {after : List Placed}
    (h : r.typeWith params room rest t = .ok (type, after)) :
    (∃ w column, t = ⟨.word w, column⟩ ∧ type = r.shapes w ∧ after = rest) ∨
      ∃ column room' lists, t = ⟨.openParen, column⟩ ∧ room = room' + 1 ∧
        params room' rest = .ok (lists, after) ∧
        type = fun name => lists.map (.array { name }) := by
  obtain ⟨token, column⟩ := t
  cases token with
  | word w =>
    cases h
    exact .inl ⟨w, column, rfl, rfl, rfl⟩
  | openParen =>
    cases room with
    | zero => cases h
    | succ room' =>
      obtain ⟨⟨lists, last⟩, hlists, htype⟩ := map_eq_ok_iff.1 h
      cases htype
      exact .inr ⟨column, room', lists, rfl, rfl, hlists, rfl⟩
  | _ => cases h

/-- **A name** is a word or a quoted text. -/
theorem name_eq_ok {n : String} (h : r.name toks = .ok (n, rest)) :
    ∃ t column, toks = ⟨t, column⟩ :: rest ∧ (t = .word n ∨ t = .quoted n) := by
  unfold name at h
  split at h
  · cases h
    exact ⟨_, _, rfl, .inl rfl⟩
  · cases h
    exact ⟨_, _, rfl, .inr rfl⟩
  · cases h

/-- A default is given to all that a parameter may be, or to none. -/
theorem defaults_eq_ok {ps qs : List Param} (h : r.defaults room ps toks = .ok (qs, rest)) :
    (∃ column inner v, toks = ⟨.equals, column⟩ :: inner ∧ r.literal room inner = .ok (v, rest) ∧
        withDefaults (r.column inner) v ps = .ok qs) ∨
      qs = ps ∧ rest = toks := by
  unfold defaults at h
  split at h
  · rename_i column inner
    obtain ⟨⟨v, after⟩, hv, h⟩ := bind_eq_ok_iff.1 h
    obtain ⟨given, hgiven, h⟩ := bind_eq_ok_iff.1 h
    cases h
    exact .inl ⟨column, inner, v, rfl, hv, hgiven⟩
  · cases h
    exact .inr ⟨rfl, rfl⟩

/-- A literal that is a default fits whatever it is the default of. -/
theorem exists_of_mem_withDefaults {column : Nat} {v : Value} :
    ∀ {ps qs : List Param}, withDefaults column v ps = .ok qs →
      qs.length = ps.length ∧
        ∀ q ∈ qs, ∃ p ∈ ps, ∃ d, v.resolve p = some d ∧ q = p.withDefault d.detach := by
  intro ps
  induction ps with
  | nil =>
    intro qs h
    cases h
    exact ⟨rfl, by simp⟩
  | cons p ps ih =>
    intro qs h
    rw [withDefaults] at h
    split at h
    · cases h
    · rename_i d hd
      obtain ⟨given, hgiven, h⟩ := map_eq_ok_iff.1 h
      subst h
      obtain ⟨hlen, hmem⟩ := ih hgiven
      refine ⟨by simp [hlen], fun q hq => ?_⟩
      rcases List.mem_cons.1 hq with rfl | hq
      · exact ⟨p, List.mem_cons_self, d, hd, rfl⟩
      · obtain ⟨p', hp', hrest⟩ := hmem q hq
        exact ⟨p', List.mem_cons_of_mem _ hp', hrest⟩

/-- Behind a default there are only parameters with defaults, and one without
a default leaves none behind it. -/
theorem trailing_eq_ok {column : Nat} {earlier later : Option String} {p : Param} {ps : List Param}
    (h : trailing column earlier (p :: ps) = .ok later) :
    (earlier.isSome = true → p.isOptional = true) ∧ later.isSome = p.isOptional := by
  unfold trailing at h
  cases earlier with
  | none =>
    refine ⟨by simp, ?_⟩
    cases ho : p.isOptional <;> simp [ho] at h <;> subst h <;> rfl
  | some e =>
    cases ho : p.isOptional with
    | false => simp [ho] at h
    | true =>
      refine ⟨fun _ => rfl, ?_⟩
      simp [ho] at h
      subst h
      rfl

/-- The rule for defaults looks at the first of what a parameter may be, which
speaks for all if they are alike. -/
theorem trailing_eq_ok_of_mem {column : Nat} {earlier later : Option String} {p : Param}
    {ps : List Param} {o : Bool} (ho : ∀ q ∈ ps, q.isOptional = o) (hp : p ∈ ps)
    (h : trailing column earlier ps = .ok later) :
    (earlier.isSome = true → p.isOptional = true) ∧ later.isSome = p.isOptional := by
  cases ps with
  | nil => cases hp
  | cons q qs =>
    rw [ho p hp, ← ho q List.mem_cons_self]
    exact trailing_eq_ok h

/-- The rule for defaults lets parameters through whose defaults come last. -/
theorem trailing_of_isOptional (column : Nat) {earlier : Option String} {p : Param}
    {ps : List Param} (h : earlier.isSome = true → p.isOptional = true) :
    trailing column earlier (p :: ps) = .ok (if p.isOptional then some p.name else none) := by
  unfold trailing
  cases earlier with
  | none => rfl
  | some e =>
    change (if p.isOptional = true then Except.ok (some p.name) else _) = _
    rw [h rfl]
    rfl

/-- **One parameter**, all that it may be: the type, the name and the
default. -/
def param (r : Reader) (calls room : Nat) (t : Placed) (rest : List Placed) :
    Except ParseError (Parsed (List Param)) := do
  let (type, rest) ← r.typeWith (fun room toks => r.params calls true room none toks) room rest t
  let (name, rest) ← r.name rest
  r.defaults room (type name) rest

theorem param_eq_ok_iff {t : Placed} {ps : List Param} {after : List Placed} :
    r.param calls room t rest = .ok (ps, after) ↔
      ∃ type afterType name afterName,
        r.typeWith (fun room toks => r.params calls true room none toks) room rest t =
          .ok (type, afterType) ∧
        r.name afterType = .ok (name, afterName) ∧
        r.defaults room (type name) afterName = .ok (ps, after) := by
  unfold param
  rw [bind_eq_ok_iff]
  constructor
  · rintro ⟨⟨type, afterType⟩, htype, h⟩
    obtain ⟨⟨name, afterName⟩, hname, h⟩ := bind_eq_ok_iff.1 h
    exact ⟨type, afterType, name, afterName, htype, hname, h⟩
  · rintro ⟨type, afterType, name, afterName, htype, hname, h⟩
    exact ⟨(type, afterType), htype, bind_eq_ok_iff.2 ⟨(name, afterName), hname, h⟩⟩

/-- **A list of parameters** ends, at a parenthesis or with the text, or goes
on with a parameter. -/
theorem params_eq_ok {earlier : Option String} {lists : List (List Param)}
    (h : r.params (calls + 1) nested room earlier toks = .ok (lists, rest)) :
    lists = [[]] ∧ (nested = false ∧ skipComma toks = [] ∧ rest = [] ∨
        nested = true ∧ ∃ column, skipComma toks = ⟨.closeParen, column⟩ :: rest) ∨
      ∃ t more ps after later tails,
        skipComma toks = t :: more ∧ r.param calls room t more = .ok (ps, after) ∧
        trailing t.column earlier ps = .ok later ∧
        r.params calls nested room later after = .ok (tails, rest) ∧
        lists = ps.flatMap fun p => tails.map (p :: ·) := by
  unfold params at h
  split at h
  · rename_i hskip
    cases h
    exact .inl ⟨rfl, .inl ⟨rfl, hskip, rfl⟩⟩
  · cases h
  · rename_i column inner hskip
    cases h
    exact .inl ⟨rfl, .inr ⟨rfl, column, hskip⟩⟩
  · rename_i t more hskip _
    obtain ⟨⟨type, afterType⟩, htype, h⟩ := bind_eq_ok_iff.1 h
    obtain ⟨⟨name, afterName⟩, hname, h⟩ := bind_eq_ok_iff.1 h
    obtain ⟨⟨ps, after⟩, hdefaults, h⟩ := bind_eq_ok_iff.1 h
    obtain ⟨later, hlater, h⟩ := bind_eq_ok_iff.1 h
    obtain ⟨⟨tails, last⟩, htails, h⟩ := bind_eq_ok_iff.1 h
    cases h
    have hparam : r.param calls room t more = .ok (ps, after) :=
      param_eq_ok_iff.2 ⟨type, afterType, name, afterName, htype, hname, hdefaults⟩
    exact .inr ⟨t, more, ps, after, later, tails, hskip, hparam, hlater, htails, rfl⟩

/-- Parameters go on with whatever does not close them. -/
theorem params_cons {earlier : Option String} {t : Placed} {more : List Placed}
    (hskip : skipComma toks = t :: more) (ht : nested = true → t.token ≠ .closeParen) :
    r.params (calls + 1) nested room earlier toks =
      (r.param calls room t more >>= fun ps =>
        trailing t.column earlier ps.1 >>= fun later =>
        r.params calls nested room later ps.2 >>= fun tails =>
        pure (ps.1.flatMap fun p => tails.1.map (p :: ·), tails.2)) := by
  rw [params.eq_def]
  simp only [hskip]
  split
  · contradiction
  · contradiction
  · rename_i hclose
    cases hclose
    exact absurd rfl (ht rfl)
  · rename_i hcons _
    cases hcons
    simp only [param, bind_assoc]

end Reader

variable {r : Reader} {types : NamedTypes} {toks : List Placed}

/-- **A signature is read** inside its parentheses, if the first closes with
the last token, and otherwise as it stands. -/
theorem paramLists_eq_ok {lists : List (List Param)} (h : paramLists r toks = .ok lists) :
    (∃ column inner rest, toks = ⟨.openParen, column⟩ :: inner ∧ closesLast 0 inner = true ∧
        r.params toks.length true maxNesting none inner = .ok (lists, rest)) ∨
      ∃ rest, r.params (toks.length + 1) false maxNesting none toks = .ok (lists, rest) := by
  obtain ⟨⟨read, rest⟩, hread, hlists⟩ := map_eq_ok_iff.1 h
  subst hlists
  split at hread
  · rename_i column inner
    split at hread
    · rename_i hcloses
      exact .inl ⟨column, inner, rest, rfl, hcloses, hread⟩
    · exact .inr ⟨rest, hread⟩
  · exact .inr ⟨rest, hread⟩

theorem paramLists_of_closesLast {column : Nat} {inner : List Placed}
    (h : closesLast 0 inner = true) :
    paramLists r (⟨.openParen, column⟩ :: inner) =
      (r.params (inner.length + 1) true maxNesting none inner).map Prod.fst := by
  change Except.map Prod.fst (if closesLast 0 inner = true then _ else _) = _
  rw [if_pos h]
  rfl

/-- What is read is read from the tokens of the text. -/
theorem parse_eq_ok {source : String} {signatures : List Signature}
    (h : parse types source = .ok signatures) :
    ∃ toks lists, tokens source = .ok toks ∧
      paramLists ⟨types, Position.ordinal source.length⟩ toks = .ok lists ∧
      signatures = lists.map fun ps => ⟨ps⟩ := by
  unfold parse at h
  cases hread : tokens source >>= paramLists ⟨types, Position.ordinal source.length⟩ with
  | error e =>
    simp only [hread] at h
    cases h
  | ok lists =>
    simp only [hread] at h
    cases h
    obtain ⟨toks, htoks, hlists⟩ := bind_eq_ok_iff.1 hread
    exact ⟨toks, lists, htoks, hlists, rfl⟩

theorem parse_of_paramLists {source : String} {lists : List (List Param)}
    (htoks : tokens source = .ok toks)
    (h : paramLists ⟨types, Position.ordinal source.length⟩ toks = .ok lists) :
    parse types source = .ok (lists.map fun ps => ⟨ps⟩) := by
  have hread : tokens source >>= paramLists ⟨types, Position.ordinal source.length⟩ = .ok lists :=
    bind_eq_ok_iff.2 ⟨toks, htoks, h⟩
  unfold parse
  simp only [hread]

end Signature

end CommandScript
