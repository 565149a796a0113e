import CommandScript.Proofs.Statement.Passage
import CommandScript.Proofs.Statement.Token

/-!
# The scanner on tokens

The scanner goes through characters; this file shows that it might as well go
through tokens. `feed` is what one token does to the scanner's state, and
`passTokens` the passage over tokens. A line that the scanner gets through
has tokens (`hasTokens`), and on a line with tokens the two passages agree
(`passChars_agrees`): where either stops at no fault, they are the same. What
they agree on is the start of each token, between which the scanner reads no
word.
-/

namespace CommandScript

namespace Passage

/-- Two passages are the same if either of them stops at no fault. -/
def Agrees (a b : Passage) : Prop :=
  (∃ t, a.outcome = .ok () t ∨ b.outcome = .ok () t) → a = b

variable {a b c : Passage}

theorem Agrees.rfl : a.Agrees a :=
  fun _ => Eq.refl a

theorem Agrees.trans (hab : a.Agrees b) (hbc : b.Agrees c) : a.Agrees c := by
  rintro ⟨t, ht | ht⟩
  · have e := hab ⟨t, .inl ht⟩
    rw [e]
    exact hbc ⟨t, .inl (e ▸ ht)⟩
  · have e := hbc ⟨t, .inr ht⟩
    rw [← e]
    exact hab ⟨t, .inr (e ▸ ht)⟩

/-- Two faults agree, whatever they are. -/
theorem agrees_of_error {e d : ScanError} {t u : Scanner} (ha : a.outcome = .error e t)
    (hb : b.outcome = .error d u) : a.Agrees b := by
  rintro ⟨s, h | h⟩
  · rw [ha] at h
    cases h
  · rw [hb] at h
    cases h

/-- What agrees from each state that a passage may end in agrees behind it. -/
theorem Agrees.followedBy {f g : Scanner → Passage}
    (h : ∀ t, a.outcome = .ok () t → (f t).Agrees (g t)) :
    (a.followedBy f).Agrees (a.followedBy g) := by
  obtain ⟨ss, out⟩ := a
  cases out with
  | error e t => exact Agrees.rfl
  | ok _ t =>
    rintro ⟨u, hu⟩
    simp only [followedBy_ok] at hu ⊢
    rw [h t (Eq.refl _) ⟨u, hu⟩]

/-- What agrees is followed alike. -/
theorem Agrees.followedBy_left (h : a.Agrees b) (f : Scanner → Passage) :
    (a.followedBy f).Agrees (b.followedBy f) := by
  rintro ⟨t, ht | ht⟩
  · obtain ⟨u, hu, -⟩ := followedBy_outcome_ok ht
    rw [h ⟨u, .inl hu⟩]
  · obtain ⟨u, hu, -⟩ := followedBy_outcome_ok ht
    rw [h ⟨u, .inr hu⟩]

end Passage

namespace Scanner

open Statement (Token Placed LineTokens LinesTokens place)
open Text (IsRun)

variable {s t : Scanner} {line i : Nat}

/-! ## One token -/

/-- **What a token does.** -/
def feed (tok : Placed) : ScanM (Option Statement) :=
  match tok.token with
  | .word w => do
    markStarted tok.position
    attachScalar (Value.word w tok.position)
    pure none
  | .quoted q => do
    markStarted tok.position
    attachScalar (Value.quoted q tok.position)
    pure none
  | .name w => fun s =>
    match s.label with
    | some l => .error ⟨.alreadyNamed l.text, tok.position⟩ s
    | none => .ok none { s with
        label := some ⟨w, tok.position⟩
        started := s.started.or (some tok.position) }
  | .openParen => do
    openArray tok.position
    pure none
  | .closeParen => do
    closeArray tok.position
    pure none
  | .semicolon => completeStatement tok.position

/-- The passage over tokens. -/
def passTokens : List Placed → Scanner → Passage
  | [], s => ⟨[], .ok () s⟩
  | tok :: rest, s => (Passage.ofStep (feed tok s)).followedBy (passTokens rest)

theorem passTokens_append (ts us : List Placed) (s : Scanner) :
    passTokens (ts ++ us) s = (passTokens ts s).followedBy (passTokens us) := by
  induction ts generalizing s with
  | nil => rfl
  | cons tok rest ih =>
    simp only [List.cons_append, passTokens]
    cases feed tok s with
    | error e u => rfl
    | ok made u =>
      simp only [Passage.ofStep, Passage.followedBy_ok, ih]
      unfold Passage.followedBy
      cases (passTokens rest u).outcome <;> simp

theorem feed_name_of_label {w : String} {p : Position} {l : Lexeme} (hl : s.label = some l) :
    feed ⟨.name w, p⟩ s = .error ⟨.alreadyNamed l.text, p⟩ s := by
  unfold feed
  simp only [hl]

theorem feed_name_of_none {w : String} {p : Position} (hl : s.label = none) :
    feed ⟨.name w, p⟩ s =
      .ok none { s with label := some ⟨w, p⟩, started := s.started.or (some p) } := by
  unfold feed
  simp only [hl]

/-- A token leaves no word being read. -/
theorem word_of_feed {tok : Placed} {made : Option Statement} (hw : s.word = none)
    (h : feed tok s = .ok made t) : t.word = none := by
  obtain ⟨token, p⟩ := tok
  cases token with
  | word w =>
    obtain ⟨_, u, hu, h⟩ := bind_eq_ok_iff.1 h
    cases hu
    obtain ⟨h, -⟩ := bind_pure_eq_ok_iff.1 h
    rw [(attachScalar_eq_ok_iff.1 h).2, word_push]
    exact hw
  | quoted q =>
    obtain ⟨_, u, hu, h⟩ := bind_eq_ok_iff.1 h
    cases hu
    obtain ⟨h, -⟩ := bind_pure_eq_ok_iff.1 h
    rw [(attachScalar_eq_ok_iff.1 h).2, word_push]
    exact hw
  | name w =>
    cases hl : s.label with
    | some l =>
      rw [feed_name_of_label hl] at h
      cases h
    | none =>
      rw [feed_name_of_none hl] at h
      cases h
      exact hw
  | openParen =>
    obtain ⟨h, -⟩ := bind_pure_eq_ok_iff.1 h
    rw [(openArray_eq_ok_iff.1 h).2]
    exact hw
  | closeParen =>
    obtain ⟨h, -⟩ := bind_pure_eq_ok_iff.1 h
    obtain ⟨f, g, rest, -, -, -, rfl⟩ := closeArray_eq_ok_iff.1 h
    rw [word_push]
    exact hw
  | semicolon =>
    obtain ⟨f, -, -, rfl⟩ := completeStatement_eq_ok hw h
    rfl

/-! ## Runs and quoted texts -/

theorem step_word {c : Char} {p : Position} (h : CharClass.of c = .word) :
    step c p s = (extendWord c p >>= fun _ => pure none) s := by
  unfold step
  rw [h]

/-- A word goes on with the word characters behind it. -/
theorem passChars_extend {rest : List Char} :
    ∀ {w : List Char} {i : Nat} {s : Scanner} {l : Lexeme}, (∀ c ∈ w, Text.isWordChar c = true) →
      s.word = some l →
      passChars line (w ++ rest) i none s =
        passChars line rest (i + w.length) none
          { s with word := some ⟨l.text ++ String.ofList w, l.start⟩ } := by
  intro w
  induction w with
  | nil =>
    intro i s l _ hl
    have hs : { s with word := some ⟨l.text ++ String.ofList [], l.start⟩ } = s := by
      rw [String.ofList_nil, String.append_empty, ← hl]
    rw [hs]
    rfl
  | cons c w ih =>
    intro i s l hw hl
    have hc : CharClass.of c = .word := CharClass.of_eq_word_iff.2 (hw c (by simp))
    have htext : l.text.push c ++ String.ofList w = l.text ++ String.ofList (c :: w) := by
      apply String.toList_inj.1
      simp
    have hlen : i + 1 + w.length = i + (c :: w).length := by
      rw [List.length_cons]
      omega
    rw [List.cons_append, passChars, step_word hc, hc]
    simp only [bind_eq, extendWord_of_some hl]
    change passChars line (w ++ rest) (i + 1) none _ = _
    rw [ih (fun d hd => hw d (by simp [hd])) rfl, htext, hlen]

/-- **A run becomes the word being read**, from where no word is. -/
theorem passChars_run {w rest : List Char} (hw : IsRun w) (hs : s.word = none) :
    passChars line (w ++ rest) i none s =
      passChars line rest (i + w.length) none
        { s with
          word := some ⟨String.ofList w, place line i⟩
          started := s.started.or (some (place line i)) } := by
  obtain ⟨hne, hall⟩ := hw
  cases w with
  | nil => exact absurd rfl hne
  | cons c w =>
    have hc : CharClass.of c = .word := CharClass.of_eq_word_iff.2 (hall c (by simp))
    have htext : c.toString ++ String.ofList w = String.ofList (c :: w) := by
      apply String.toList_inj.1
      simp
    have hlen : i + 1 + w.length = i + (c :: w).length := by
      rw [List.length_cons]
      omega
    rw [List.cons_append, passChars, step_word hc, hc]
    simp only [bind_eq, extendWord_of_none hs]
    change passChars line (w ++ rest) (i + 1) none _ = _
    rw [passChars_extend (fun d hd => hall d (by simp [hd])) rfl, htext, hlen]
    rfl

/-- A quoted text goes on to its closing quote. -/
theorem passChars_quoted {rest : List Char} :
    ∀ {q : List Char} {i : Nat} {s : Scanner} {l : Lexeme}, '"' ∉ q →
      passChars line (q ++ '"' :: rest) i (some l) s =
        (Passage.ofStep (closeQuote ⟨l.text ++ String.ofList q, l.start⟩ s)).followedBy
          (passChars line rest (i + q.length + 1) none) := by
  intro q
  induction q with
  | nil =>
    intro i s l _
    rw [List.nil_append, passChars, if_pos rfl, String.ofList_nil, String.append_empty]
    rfl
  | cons c q ih =>
    intro i s l hq
    obtain ⟨hc, hq⟩ : c ≠ '"' ∧ '"' ∉ q := by
      simp only [List.mem_cons, not_or] at hq
      exact ⟨Ne.symm hq.1, hq.2⟩
    have htext : l.text.push c ++ String.ofList q = l.text ++ String.ofList (c :: q) := by
      apply String.toList_inj.1
      simp
    have hlen : i + 1 + q.length = i + (c :: q).length := by
      rw [List.length_cons]
      omega
    rw [List.cons_append, passChars, if_neg hc, ih hq, htext, hlen]

/-- A quoted text without a closing quote is a fault. -/
theorem passChars_unterminated :
    ∀ {q : List Char} {i : Nat} {s : Scanner} {l : Lexeme}, '"' ∉ q →
      (passChars line q i (some l) s).outcome = .error ⟨.unterminatedText, l.start⟩ s := by
  intro q
  induction q with
  | nil => exact fun _ => rfl
  | cons c q ih =>
    intro i s l hq
    obtain ⟨hc, hq⟩ : c ≠ '"' ∧ '"' ∉ q := by
      simp only [List.mem_cons, not_or] at hq
      exact ⟨Ne.symm hq.1, hq.2⟩
    rw [passChars, if_neg hc]
    exact ih hq

/-! ## Where a word ends -/

/-- A word that has ended need not end again. -/
theorem completeWord_bind {α : Type} (k : Unit → ScanM α) (s : Scanner) :
    (completeWord >>= fun _ => completeWord >>= k) s = (completeWord >>= k) s := by
  rw [bind_eq, bind_eq]
  cases h : completeWord s with
  | error e t => rfl
  | ok u t =>
    simp only [bind_eq]
    rw [completeWord_of_none (word_of_completeWord h)]

/-- A character that neither goes on with a word nor names it ends it. -/
theorem step_completeWord {c : Char} {p : Position} (hw : CharClass.of c ≠ .word)
    (hc : CharClass.of c ≠ .colon) (ho : CharClass.of c ≠ .other) :
    step c p s = (completeWord >>= fun _ => step c p) s := by
  unfold step
  cases h : CharClass.of c with
  | word => exact absurd h hw
  | colon => exact absurd h hc
  | other => exact absurd h ho
  | quote | comment | terminator | openParen | closeParen | separator =>
    exact (completeWord_bind _ s).symm

/-- **Where a run ends, the word does**, and the passage goes on without
one. -/
theorem passChars_endWord {rest : List Char}
    (h : ∀ c ∈ rest.head?, Text.isWordChar c = false ∧ c ≠ ':') :
    (passChars line rest i none s).Agrees
      ((Passage.ofStep ((completeWord >>= fun _ => pure none) s)).followedBy
        (passChars line rest i none)) := by
  have hfirst : Passage.ofStep ((completeWord >>= fun _ => pure none) s) =
      ⟨[], completeWord s⟩ := by
    rw [bind_eq]
    cases completeWord s <;> rfl
  rw [hfirst]
  cases rest with
  | nil =>
    rw [passChars]
    cases hs : completeWord s with
    | error e t => exact Passage.Agrees.rfl
    | ok u t =>
      rw [Passage.followedBy_ok, passChars, completeWord_of_none (word_of_completeWord hs)]
      exact Passage.Agrees.rfl
  | cons c rest =>
    obtain ⟨hword, hne⟩ := h c rfl
    have hw : CharClass.of c ≠ .word := by
      rw [Ne, CharClass.of_eq_word_iff, hword]
      decide
    have hc : CharClass.of c ≠ .colon := fun hc => hne (CharClass.eq_of_mark.2.2.2.2.2 hc)
    by_cases ho : CharClass.of c = .other
    · -- neither side gets past the character
      have hfault : ∀ u, (passChars line (c :: rest) i none u).outcome =
          .error ⟨.unexpectedCharacter c (place line i).column, place line i⟩ u := by
        intro u
        rw [passChars, step, ho]
        rfl
      cases hs : completeWord s with
      | error e t => exact Passage.agrees_of_error (hfault s) rfl
      | ok u t => exact Passage.agrees_of_error (hfault s) (hfault t)
    · have hstep : passChars line (c :: rest) i none s =
          Passage.followedBy ⟨[], completeWord s⟩ (passChars line (c :: rest) i none) := by
        rw [passChars, step_completeWord hw hc ho, bind_eq]
        cases hs : completeWord s with
        | error e t => rfl
        | ok u t => rw [Passage.followedBy_ok, passChars]; rfl
      rw [hstep]
      exact Passage.Agrees.rfl

/-- Where a word ends that was read from the start of a run, it does what its
token does. -/
theorem completeWord_eq_feed {w : String} {p : Position} (hs : s.word = none) :
    (completeWord >>= fun _ => pure none)
        { s with word := some ⟨w, p⟩, started := s.started.or (some p) } =
      feed ⟨.word w, p⟩ s := by
  obtain ⟨frames, word, label, started⟩ := s
  obtain rfl : word = none := hs
  change _ = (markStarted p >>= fun _ => attachScalar (Value.word w p) >>= fun _ => pure none) _
  rw [bind_eq, bind_eq, completeWord_of_some rfl, markStarted_eq]
  exact (bind_eq _ _ _).symm

/-- A colon behind a run does what the name does that they make. -/
theorem takeLabel_eq_feed {w : String} {p q : Position} (hs : s.word = none)
    (hl : s.label = none) :
    (takeLabel q >>= fun _ => pure none)
        { s with
          word := some ⟨w, p⟩
          label := none
          started := s.started.or (some p) } =
      feed ⟨.name w, p⟩ s := by
  obtain ⟨frames, word, label, started⟩ := s
  obtain rfl : word = none := hs
  obtain rfl : label = none := hl
  rw [bind_eq, takeLabel_of_some rfl rfl]
  rfl

theorem passChars_colon (rest : List Char) (s : Scanner) :
    passChars line (':' :: rest) i none s =
      (Passage.ofStep ((takeLabel (place line i) >>= fun _ => pure none) s)).followedBy
        (passChars line rest (i + 1) none) := rfl

/-! ## Lines -/

/-- Between tokens a character that ends a word does only its own. -/
theorem completeWord_bind_of_none {α : Type} (k : Unit → ScanM α) (hs : s.word = none) :
    (completeWord >>= k) s = k () s := by
  rw [bind_eq, completeWord_of_none hs]

/-- Between tokens, a mark does what its token does. -/
theorem step_mark {c : Char} {p : Position} {t : Token} (hs : s.word = none)
    (h : Token.ofMark c = some t) : step c p s = feed ⟨t, p⟩ s := by
  unfold Token.ofMark at h
  split at h <;> cases h
  · exact completeWord_bind_of_none _ hs
  · exact completeWord_bind_of_none _ hs
  · exact completeWord_bind_of_none _ hs

/-- A mark hides nothing and opens no quotes. -/
theorem passChars_mark {c : Char} {rest : List Char} {t : Token} (hs : s.word = none)
    (h : Token.ofMark c = some t) :
    passChars line (c :: rest) i none s =
      (Passage.ofStep (feed ⟨t, place line i⟩ s)).followedBy
        (passChars line rest (i + 1) none) := by
  rw [← step_mark hs h]
  unfold Token.ofMark at h
  split at h <;> cases h
  · rfl
  · rfl
  · rfl

theorem passChars_separator {c : Char} {rest : List Char} (hs : s.word = none)
    (h : Text.isBlank c = true ∨ c = ',') :
    passChars line (c :: rest) i none s = passChars line rest (i + 1) none s := by
  have hc : CharClass.of c = .separator := CharClass.of_eq_separator_iff.2 h
  have hstep : step c (place line i) s = .ok none s := by
    unfold step
    rw [hc]
    exact completeWord_bind_of_none _ hs
  change (Passage.ofStep (step c (place line i) s)).followedBy _ = _
  rw [hstep, hc]
  rfl

theorem passChars_openQuote {rest : List Char} (hs : s.word = none) :
    passChars line ('"' :: rest) i none s =
      passChars line rest (i + 1) (some ⟨"", place line i⟩)
        { s with started := s.started.or (some (place line i)) } := by
  have hstep : step '"' (place line i) s =
      .ok none { s with started := s.started.or (some (place line i)) } :=
    completeWord_bind_of_none _ hs
  change (Passage.ofStep (step '"' (place line i) s)).followedBy _ = _
  rw [hstep]
  rfl

/-- What agrees behind a token agrees with it. -/
theorem agrees_feed {tok : Placed} {ts : List Placed} {next : Scanner → Passage}
    (hs : s.word = none) (h : ∀ t, t.word = none → (next t).Agrees (passTokens ts t)) :
    ((Passage.ofStep (feed tok s)).followedBy next).Agrees (passTokens (tok :: ts) s) := by
  refine Passage.Agrees.followedBy fun t ht => ?_
  obtain ⟨made, hmade⟩ := exists_of_ofStep ht
  exact h t (word_of_feed hs hmade)

/-- **On a line with tokens the passages agree.** -/
theorem passChars_agrees {cs : List Char} {ts : List Placed} (h : LineTokens line i cs ts) :
    ∀ s, s.word = none → (passChars line cs i none s).Agrees (passTokens ts s) := by
  induction h with
  | nil =>
    intro s hs
    rw [passChars, completeWord_of_none hs]
    exact Passage.Agrees.rfl
  | @comment i rest =>
    intro s hs
    have hstep : step '#' (place line i) s = .ok none s := completeWord_bind_of_none _ hs
    change ((Passage.ofStep (step '#' (place line i) s)).followedBy _).Agrees _
    rw [hstep]
    exact Passage.Agrees.rfl
  | separator hc _ ih =>
    intro s hs
    rw [passChars_separator hs hc]
    exact ih s hs
  | mark hc _ ih =>
    intro s hs
    rw [passChars_mark hs hc]
    exact agrees_feed hs ih
  | @quoted i q rest ts hq _ ih =>
    intro s hs
    have hfeed : feed ⟨.quoted (String.ofList q), place line i⟩ s =
        closeQuote ⟨String.ofList q, place line i⟩
          { s with started := s.started.or (some (place line i)) } := by
      change (markStarted _ >>= fun _ => closeQuote ⟨String.ofList q, place line i⟩) s = _
      rw [bind_eq, markStarted_eq]
    have hlen : i + 1 + q.length + 1 = i + q.length + 2 := by omega
    rw [passChars_openQuote hs, passChars_quoted hq, String.empty_append, ← hfeed, hlen]
    exact agrees_feed hs ih
  | @name i w rest ts hw _ ih =>
    intro s hs
    rw [passChars_run hw hs, passChars_colon]
    cases hl : s.label with
    | some l =>
      have hfault : takeLabel (place line (i + w.length)) { s with
          word := some ⟨String.ofList w, place line i⟩
          label := some l
          started := s.started.or (some (place line i)) } = .error _ _ := takeLabel_of_label rfl
      rw [bind_eq, hfault, passTokens, feed_name_of_label hl]
      exact Passage.agrees_of_error rfl rfl
    | none =>
      rw [takeLabel_eq_feed hs hl]
      exact agrees_feed hs ih
  | @word i w rest ts hw hend _ ih =>
    intro s hs
    rw [passChars_run hw hs]
    refine (passChars_endWord hend).trans ?_
    rw [completeWord_eq_feed hs]
    exact agrees_feed hs ih

/-- A text holds a quote, and then a first one, or it holds none. -/
theorem split_at_quote (cs : List Char) :
    '"' ∉ cs ∨ ∃ q rest, '"' ∉ q ∧ cs = q ++ '"' :: rest := by
  by_cases h : '"' ∈ cs
  · obtain ⟨q, rest, rfl, hq⟩ := List.eq_append_cons_of_mem h
    exact .inr ⟨q, rest, hq, rfl⟩
  · exact .inl h

/-- A text that starts with a word character starts with a run that cannot be
longer. -/
theorem split_at_run {c : Char} (rest : List Char) (hc : Text.isWordChar c = true) :
    ∃ w r, c :: rest = w ++ r ∧ IsRun w ∧ ∀ d ∈ r.head?, Text.isWordChar d = false := by
  refine ⟨(c :: rest).takeWhile Text.isWordChar, (c :: rest).dropWhile Text.isWordChar,
    List.takeWhile_append_dropWhile.symm, ⟨?_, fun d hd => ?_⟩, fun d hd => ?_⟩
  · rw [List.takeWhile_cons_of_pos hc]
    exact List.cons_ne_nil _ _
  · exact List.all_eq_true.1 List.all_takeWhile d hd
  · have h := List.head?_dropWhile_not Text.isWordChar (c :: rest)
    rw [hd] at h
    simpa using h

/-- Whatever the scanner gets through in at most so many characters has
tokens. -/
def HasTokens (line n : Nat) : Prop :=
  ∀ (cs : List Char) (i : Nat) (s t : Scanner), cs.length ≤ n → s.word = none →
    (passChars line cs i none s).outcome = .ok () t → ∃ ts, LineTokens line i cs ts

section Rest

variable {n : Nat} {rest : List Char} (ih : HasTokens line n) (hs : s.word = none)

include ih hs

/-- A mark is fed, and the scanner gets through the rest from where that
leaves it. -/
theorem exists_of_mark {c : Char} {tok : Token} (htok : Token.ofMark c = some tok)
    (hrest : rest.length ≤ n) (h : (passChars line (c :: rest) i none s).outcome = .ok () t) :
    ∃ ts, LineTokens line i (c :: rest) ts := by
  rw [passChars_mark hs htok] at h
  obtain ⟨u, hu, hnext, -⟩ := Passage.followedBy_outcome_ok h
  obtain ⟨made, hmade⟩ := exists_of_ofStep hu
  obtain ⟨ts, hts⟩ := ih rest _ u t hrest (word_of_feed hs hmade) hnext
  exact ⟨_, .mark htok hts⟩

/-- Behind an opening quote there is a closing one, and a value is taken. -/
theorem exists_of_quote (hrest : rest.length ≤ n)
    (h : (passChars line ('"' :: rest) i none s).outcome = .ok () t) :
    ∃ ts, LineTokens line i ('"' :: rest) ts := by
  rw [passChars_openQuote hs] at h
  rcases split_at_quote rest with hq | ⟨q, more, hq, rfl⟩
  · rw [passChars_unterminated hq] at h
    cases h
  · rw [passChars_quoted hq] at h
    obtain ⟨u, hu, hnext, -⟩ := Passage.followedBy_outcome_ok h
    obtain ⟨made, hmade⟩ := exists_of_ofStep hu
    have hword : u.word = none := by
      rw [(attachScalar_eq_ok_iff.1 (bind_pure_eq_ok_iff.1 hmade).1).2, word_push]
      exact hs
    have hindex : i + 1 + q.length + 1 = i + q.length + 2 := by omega
    have hlen : more.length ≤ n := by
      rw [List.length_append, List.length_cons] at hrest
      omega
    rw [hindex] at hnext
    obtain ⟨ts, hts⟩ := ih more _ u t hlen hword hnext
    exact ⟨_, .quoted hq hts⟩

/-- A run is a name or a word. -/
theorem exists_of_run {w : List Char} (hw : IsRun w)
    (hmax : ∀ d ∈ rest.head?, Text.isWordChar d = false) (hrest : rest.length ≤ n)
    (h : (passChars line (w ++ rest) i none s).outcome = .ok () t) :
    ∃ ts, LineTokens line i (w ++ rest) ts := by
  rw [passChars_run hw hs] at h
  by_cases hcolon : ∃ more, rest = ':' :: more
  · obtain ⟨more, rfl⟩ := hcolon
    rw [passChars_colon] at h
    obtain ⟨u, hu, hnext, -⟩ := Passage.followedBy_outcome_ok h
    obtain ⟨made, hmade⟩ := exists_of_ofStep hu
    obtain ⟨-, l, -, rfl⟩ := takeLabel_eq_ok_iff.1 (bind_pure_eq_ok_iff.1 hmade).1
    have hlen : more.length ≤ n := by
      rw [List.length_cons] at hrest
      omega
    obtain ⟨ts, hts⟩ := ih more _ _ t hlen rfl hnext
    exact ⟨_, .name hw hts⟩
  · have hend : ∀ d ∈ rest.head?, Text.isWordChar d = false ∧ d ≠ ':' := by
      intro d hd
      refine ⟨hmax d hd, ?_⟩
      rintro rfl
      obtain ⟨more, rfl⟩ := List.head?_eq_some_iff.1 hd
      exact hcolon ⟨more, rfl⟩
    have hagree := passChars_endWord hend ⟨t, .inl h⟩
    rw [hagree] at h
    obtain ⟨u, hu, hnext, -⟩ := Passage.followedBy_outcome_ok h
    obtain ⟨made, hmade⟩ := exists_of_ofStep hu
    have hword : u.word = none := word_of_completeWord (bind_pure_eq_ok_iff.1 hmade).1
    obtain ⟨ts, hts⟩ := ih rest _ u t hrest hword hnext
    exact ⟨_, .word hw hend hts⟩

end Rest

/-- The scanner does not get through a colon that follows no word. -/
theorem not_passes_colon {rest : List Char} (hs : s.word = none) :
    (passChars line (':' :: rest) i none s).outcome ≠ .ok () t := by
  intro h
  rw [passChars_colon] at h
  obtain ⟨u, hu, -, -⟩ := Passage.followedBy_outcome_ok h
  obtain ⟨made, hmade⟩ := exists_of_ofStep hu
  obtain ⟨-, w, hw, -⟩ := takeLabel_eq_ok_iff.1 (bind_pure_eq_ok_iff.1 hmade).1
  rw [hs] at hw
  cases hw

/-- The scanner does not get through what belongs to no token. -/
theorem not_passes_other {c : Char} {rest : List Char} (hc : CharClass.of c = .other) :
    (passChars line (c :: rest) i none s).outcome ≠ .ok () t := by
  intro h
  have hstep : step c (place line i) s =
      .error ⟨.unexpectedCharacter c (place line i).column, place line i⟩ s := by
    unfold step
    rw [hc]
    rfl
  change (Passage.followedBy (Passage.ofStep (step c (place line i) s)) _).outcome = _ at h
  rw [hstep] at h
  cases h

/-- **A line that the scanner gets through has tokens**, by the class of its
first character. -/
theorem hasTokens (line : Nat) : ∀ n, HasTokens line n := by
  intro n
  induction n with
  | zero =>
    intro cs i s t hn hs h
    obtain rfl : cs = [] := List.length_eq_zero_iff.1 (by omega)
    exact ⟨[], .nil⟩
  | succ n ih =>
    intro cs i s t hn hs h
    cases cs with
    | nil => exact ⟨[], .nil⟩
    | cons c rest =>
      have hrest : rest.length ≤ n := by
        rw [List.length_cons] at hn
        omega
      cases hc : CharClass.of c with
      | comment =>
        obtain rfl := CharClass.eq_of_mark.2.1 hc
        exact ⟨[], .comment⟩
      | separator =>
        have hsep := CharClass.of_eq_separator_iff.1 hc
        rw [passChars_separator hs hsep] at h
        obtain ⟨ts, hts⟩ := ih rest _ s t hrest hs h
        exact ⟨ts, .separator hsep hts⟩
      | terminator =>
        obtain rfl := CharClass.eq_of_mark.2.2.1 hc
        exact exists_of_mark ih hs rfl hrest h
      | openParen =>
        obtain rfl := CharClass.eq_of_mark.2.2.2.1 hc
        exact exists_of_mark ih hs rfl hrest h
      | closeParen =>
        obtain rfl := CharClass.eq_of_mark.2.2.2.2.1 hc
        exact exists_of_mark ih hs rfl hrest h
      | colon =>
        obtain rfl := CharClass.eq_of_mark.2.2.2.2.2 hc
        exact absurd h (not_passes_colon hs)
      | other => exact absurd h (not_passes_other hc)
      | quote =>
        obtain rfl := CharClass.eq_of_mark.1 hc
        exact exists_of_quote ih hs hrest h
      | word =>
        obtain ⟨w, r, hwr, hw, hr⟩ := split_at_run rest (CharClass.of_eq_word_iff.1 hc)
        have hlen : r.length ≤ n := by
          have hpos : 0 < w.length := List.length_pos_iff.2 hw.1
          have hsum := congrArg List.length hwr
          rw [List.length_append, List.length_cons] at hsum
          omega
        -- the run is not empty, so less than the whole is left behind it
        rw [hwr] at h ⊢
        exact exists_of_run ih hs hw hr hlen h

/-! ## Scripts -/

/-- Tokens leave no word being read. -/
theorem word_of_passTokens {ts : List Placed} : ∀ {s t : Scanner}, s.word = none →
    (passTokens ts s).outcome = .ok () t → t.word = none := by
  induction ts with
  | nil =>
    intro s t hs h
    cases h
    exact hs
  | cons tok ts ih =>
    intro s t hs h
    obtain ⟨u, hu, hnext, -⟩ := Passage.followedBy_outcome_ok h
    obtain ⟨made, hmade⟩ := exists_of_ofStep hu
    exact ih (word_of_feed hs hmade) hnext

/-- The passage over tokens and over the end of the script. -/
def passScript (ts : List Placed) (s : Scanner) : Passage :=
  (passTokens ts s).followedBy fun t => ⟨[], finish t⟩

/-- **On lines with tokens the passages agree.** -/
theorem passLines_agrees {lines : List String} {index : Nat} {ts : List Placed}
    (h : LinesTokens index lines ts) :
    ∀ s, s.word = none → (passLines lines index s).Agrees (passScript ts s) := by
  induction h with
  | nil => exact fun s _ => Passage.Agrees.rfl
  | @cons index text rest ts us hline _ ih =>
    intro s hs
    rw [passScript, passTokens_append, Passage.followedBy_assoc]
    refine ((passChars_agrees hline s hs).followedBy_left _).trans ?_
    exact Passage.Agrees.followedBy fun t ht => ih t (word_of_passTokens hs ht)

/-- **A script that the scanner gets through has tokens.** -/
theorem exists_linesTokens {lines : List String} : ∀ {index : Nat} {s t : Scanner},
    s.word = none → (passLines lines index s).outcome = .ok () t →
      ∃ ts, LinesTokens index lines ts := by
  induction lines with
  | nil => exact fun _ _ => ⟨[], .nil⟩
  | cons text rest ih =>
    intro index s t hs h
    obtain ⟨u, hu, hnext, -⟩ := Passage.followedBy_outcome_ok h
    obtain ⟨ts, hts⟩ := hasTokens _ _ _ _ _ _ (Nat.le_refl _) hs hu
    have hline := passChars_agrees hts s hs ⟨u, .inl hu⟩
    have hword : u.word = none := word_of_passTokens hs (by rw [← hline]; exact hu)
    obtain ⟨us, hus⟩ := ih hword hnext
    exact ⟨ts ++ us, .cons hts hus⟩

end Scanner

end CommandScript
