import CommandScript.Proofs.Text.Word
import CommandScript.Signature.Lexer
import Mathlib.Tactic.ByContra

/-!
# The tokens that characters make

Both ways between a written signature and its tokens. A text that has tokens
has well-formed ones: words are runs and quoted texts hold no quote
(`wellFormed_of_tokens`). And characters that spell tokens make those
(`Spells`), whatever their columns are: a mark makes its own, a run in front
of anything but a word character makes a word, and text between quotes makes
a quoted text.
-/

namespace CommandScript

namespace Signature

/-- A token that characters can make. -/
def Token.WellFormed : Token → Prop
  | .word w => Text.IsRun w.toList
  | .quoted q => '"' ∉ q.toList
  | _ => True

/-- A token being read that characters can make. -/
def Lexing.WellFormed : Lexing → Prop
  | .between => True
  | .word w _ => Text.IsRun w.toList
  | .quoted q _ => '"' ∉ q.toList

variable {state state' : Lexing} {made toks : List Placed} {c : Char} {column : Nat}

/-! ## Results in a row -/

/-- Two readings in a row succeed exactly when each does. -/
theorem bind_eq_ok_iff {ε α β : Type} {x : Except ε α} {f : α → Except ε β} {b : β} :
    (x >>= f) = .ok b ↔ ∃ a, x = .ok a ∧ f a = .ok b := by
  cases x with
  | error e =>
    constructor
    · intro h
      cases h
    · rintro ⟨a, h, -⟩
      cases h
  | ok a =>
    constructor
    · exact fun h => ⟨a, rfl, h⟩
    · rintro ⟨_, h, hf⟩
      cases h
      exact hf

theorem map_eq_ok_iff {ε α β : Type} {x : Except ε α} {f : α → β} {b : β} :
    x.map f = .ok b ↔ ∃ a, x = .ok a ∧ f a = b := by
  cases x with
  | error e =>
    constructor
    · intro h
      cases h
    · rintro ⟨a, h, -⟩
      cases h
  | ok a =>
    constructor
    · intro h
      cases h
      exact ⟨a, rfl, rfl⟩
    · rintro ⟨_, h, rfl⟩
      cases h
      rfl

namespace Lexing

/-! ## One character -/

/-- **What a character may start**: nothing, a mark, a quoted text or a
word. -/
theorem start_eq_ok (h : start column c = .ok (made, state)) :
    Text.isBlank c = true ∧ made = [] ∧ state = .between ∨
      (∃ t, Token.ofMark c = some t ∧ made = [⟨t, column⟩] ∧ state = .between) ∨
      c = '"' ∧ made = [] ∧ state = .quoted "" column ∨
      Text.isWordChar c = true ∧ made = [] ∧ state = .word c.toString column := by
  unfold start at h
  by_cases hb : Text.isBlank c = true
  · rw [if_pos hb] at h
    cases h
    exact .inl ⟨hb, rfl, rfl⟩
  · rw [if_neg hb] at h
    cases hm : Token.ofMark c with
    | some t =>
      simp only [hm] at h
      cases h
      exact .inr (.inl ⟨t, rfl, rfl, rfl⟩)
    | none =>
      simp only [hm] at h
      by_cases hq : c = '"'
      · rw [if_pos hq] at h
        cases h
        exact .inr (.inr (.inl ⟨hq, rfl, rfl⟩))
      · rw [if_neg hq] at h
        by_cases hw : Text.isWordChar c = true
        · rw [if_pos hw] at h
          cases h
          exact .inr (.inr (.inr ⟨hw, rfl, rfl⟩))
        · rw [if_neg hw] at h
          cases h

theorem next_word_of_isWordChar {w : String} {origin : Nat} (h : Text.isWordChar c = true) :
    next column c (.word w origin) = .ok ([], .word (w.push c) origin) := by
  rw [next, if_pos h]

/-- A word ends in front of anything but a word character. -/
theorem next_word_of_not {w : String} {origin : Nat} (h : Text.isWordChar c = false) :
    next column c (.word w origin) =
      (start column c).map fun out => (⟨.word w, origin⟩ :: out.1, out.2) := by
  rw [next, if_neg (by rw [h]; exact Bool.false_ne_true)]

theorem next_quoted_of_quote {q : String} {origin : Nat} :
    next column '"' (.quoted q origin) = .ok ([⟨.quoted q, origin⟩], .between) := by
  rw [next, if_pos rfl]

theorem next_quoted_of_ne {q : String} {origin : Nat} (h : c ≠ '"') :
    next column c (.quoted q origin) = .ok ([], .quoted (q.push c) origin) := by
  rw [next, if_neg h]

/-- **What a character does** between tokens, in a word and in a quoted text:
it starts something, belongs to the word or ends it, belongs to the text or
closes it. -/
theorem next_eq_ok (h : next column c state = .ok (made, state')) :
    state = .between ∧ start column c = .ok (made, state') ∨
      (∃ w origin, state = .word w origin ∧ Text.isWordChar c = true ∧ made = [] ∧
        state' = .word (w.push c) origin) ∨
      (∃ w origin started, state = .word w origin ∧ Text.isWordChar c = false ∧
        start column c = .ok (started, state') ∧ made = ⟨.word w, origin⟩ :: started) ∨
      (∃ q origin, state = .quoted q origin ∧ c = '"' ∧ made = [⟨.quoted q, origin⟩] ∧
        state' = .between) ∨
      ∃ q origin, state = .quoted q origin ∧ c ≠ '"' ∧ made = [] ∧
        state' = .quoted (q.push c) origin := by
  cases state with
  | between => exact .inl ⟨rfl, h⟩
  | word w origin =>
    cases hc : Text.isWordChar c with
    | true =>
      rw [next_word_of_isWordChar hc] at h
      cases h
      exact .inr (.inl ⟨w, origin, rfl, rfl, rfl, rfl⟩)
    | false =>
      rw [next_word_of_not hc] at h
      obtain ⟨⟨started, after⟩, hstart, hout⟩ := map_eq_ok_iff.1 h
      cases hout
      exact .inr (.inr (.inl ⟨w, origin, started, rfl, rfl, hstart, rfl⟩))
  | quoted q origin =>
    by_cases hc : c = '"'
    · subst hc
      rw [next_quoted_of_quote] at h
      cases h
      exact .inr (.inr (.inr (.inl ⟨q, origin, rfl, rfl, rfl, rfl⟩)))
    · rw [next_quoted_of_ne hc] at h
      cases h
      exact .inr (.inr (.inr (.inr ⟨q, origin, rfl, hc, rfl, rfl⟩)))

/-! ## Well-formed tokens -/

/-- What starts at a character is well-formed. -/
theorem wellFormed_start (h : start column c = .ok (made, state)) :
    (∀ t ∈ made, t.token.WellFormed) ∧ state.WellFormed := by
  rcases start_eq_ok h with ⟨-, rfl, rfl⟩ | ⟨t, ht, rfl, rfl⟩ | ⟨-, rfl, rfl⟩ | ⟨hc, rfl, rfl⟩
  · exact ⟨by simp, trivial⟩
  · refine ⟨fun u hu => ?_, trivial⟩
    obtain rfl := List.mem_singleton.1 hu
    unfold Token.ofMark at ht
    split at ht <;> cases ht <;> trivial
  · refine ⟨by simp, ?_⟩
    change '"' ∉ ([] : List Char)
    exact List.not_mem_nil
  · refine ⟨by simp, ?_⟩
    change Text.IsRun c.toString.toList
    rw [show c.toString.toList = [c] by simp]
    exact ⟨List.cons_ne_nil _ _, fun d hd => List.mem_singleton.1 hd ▸ hc⟩

/-- What a character goes on with is well-formed. -/
theorem wellFormed_next (hs : state.WellFormed) (h : next column c state = .ok (made, state')) :
    (∀ t ∈ made, t.token.WellFormed) ∧ state'.WellFormed := by
  rcases next_eq_ok h with ⟨rfl, hstart⟩ | ⟨w, origin, rfl, hc, rfl, rfl⟩ |
    ⟨w, origin, started, rfl, -, hstart, rfl⟩ | ⟨q, origin, rfl, -, rfl, rfl⟩ |
    ⟨q, origin, rfl, hc, rfl, rfl⟩
  · exact wellFormed_start hstart
  · obtain ⟨-, hall⟩ := hs
    refine ⟨by simp, ?_⟩
    change Text.IsRun (w.push c).toList
    rw [String.toList_push]
    exact ⟨by simp, List.forall_mem_append.2 ⟨hall, List.forall_mem_singleton.2 hc⟩⟩
  · obtain ⟨hstarted, hstate⟩ := wellFormed_start hstart
    exact ⟨List.forall_mem_cons.2 ⟨hs, hstarted⟩, hstate⟩
  · exact ⟨List.forall_mem_singleton.2 hs, trivial⟩
  · refine ⟨by simp, ?_⟩
    change '"' ∉ (q.push c).toList
    rw [String.toList_push, List.mem_append, List.mem_singleton, not_or]
    exact ⟨hs, Ne.symm hc⟩

end Lexing

theorem wellFormed_of_lexChars {cs : List Char} : ∀ {i : Nat} {state : Lexing} {toks : List Placed},
    state.WellFormed → lexChars cs i state = .ok toks → ∀ t ∈ toks, t.token.WellFormed := by
  induction cs with
  | nil =>
    intro i state toks hs h t ht
    cases state with
    | between =>
      cases h
      cases ht
    | word w origin =>
      cases h
      obtain rfl := List.mem_singleton.1 ht
      exact hs
    | quoted q origin => cases h
  | cons c rest ih =>
    intro i state toks hs h t ht
    obtain ⟨⟨made, after⟩, hnext, h⟩ := bind_eq_ok_iff.1 h
    obtain ⟨later, hlater, h⟩ := bind_eq_ok_iff.1 h
    cases h
    obtain ⟨hmade, hstate⟩ := Lexing.wellFormed_next hs hnext
    rcases List.mem_append.1 ht with ht | ht
    · exact hmade t ht
    · exact ih hstate hlater t ht

/-- **The tokens of a text are well-formed.** -/
theorem wellFormed_of_tokens {source : String} (h : tokens source = .ok toks) :
    ∀ t ∈ toks, t.token.WellFormed := by
  have hstart : Lexing.WellFormed .between := trivial
  exact wellFormed_of_lexChars hstart h

/-! ## Characters that spell tokens -/

/-- **Characters spell tokens** if they make those wherever they stand. -/
def Spells (cs : List Char) (ts : List Token) : Prop :=
  ∀ i, ∃ toks, lexChars cs i .between = .ok toks ∧ toks.map Placed.token = ts

variable {rest : List Char} {ts : List Token}

theorem lexChars_cons (c : Char) (rest : List Char) (i : Nat) (state : Lexing) :
    lexChars (c :: rest) i state =
      (state.next (Position.ordinal i) c >>= fun out =>
        lexChars rest (i + 1) out.2 >>= fun later => pure (out.1 ++ later)) := rfl

theorem spells_nil : Spells [] [] :=
  fun _ => ⟨[], rfl, rfl⟩

theorem Spells.blank (hc : Text.isBlank c = true) (h : Spells rest ts) : Spells (c :: rest) ts := by
  intro i
  obtain ⟨toks, hlex, hmap⟩ := h (i + 1)
  have hstart : Lexing.next (Position.ordinal i) c .between = .ok ([], .between) := by
    rw [Lexing.next, Lexing.start, if_pos hc]
  refine ⟨toks, ?_, hmap⟩
  rw [lexChars_cons, hstart]
  exact bind_eq_ok_iff.2 ⟨_, rfl, bind_eq_ok_iff.2 ⟨_, hlex, rfl⟩⟩

theorem Spells.mark {t : Token} (hc : Token.ofMark c = some t) (h : Spells rest ts) :
    Spells (c :: rest) (t :: ts) := by
  intro i
  obtain ⟨toks, hlex, hmap⟩ := h (i + 1)
  have hblank : Text.isBlank c = false := by
    unfold Token.ofMark at hc
    split at hc <;> first | decide | cases hc
  have hstart : Lexing.next (Position.ordinal i) c .between =
      .ok ([⟨t, Position.ordinal i⟩], .between) := by
    rw [Lexing.next, Lexing.start, hblank, if_neg Bool.false_ne_true]
    simp only [hc]
  refine ⟨⟨t, Position.ordinal i⟩ :: toks, ?_, by rw [List.map_cons, hmap]⟩
  rw [lexChars_cons, hstart]
  exact bind_eq_ok_iff.2 ⟨_, rfl, bind_eq_ok_iff.2 ⟨_, hlex, rfl⟩⟩

/-- A word goes on with the word characters behind it. -/
theorem lexChars_extend {w : List Char} : ∀ {i origin : Nat} {text : String},
    (∀ c ∈ w, Text.isWordChar c = true) →
      lexChars (w ++ rest) i (.word text origin) =
        lexChars rest (i + w.length) (.word (text ++ String.ofList w) origin) := by
  induction w with
  | nil =>
    intro i origin text _
    rw [String.ofList_nil, String.append_empty]
    rfl
  | cons c w ih =>
    intro i origin text hw
    have htext : text.push c ++ String.ofList w = text ++ String.ofList (c :: w) := by
      apply String.toList_inj.1
      simp
    have hlen : i + 1 + w.length = i + (c :: w).length := by
      rw [List.length_cons]
      omega
    have hall : ∀ d ∈ w, Text.isWordChar d = true := fun d hd => hw d (List.mem_cons_of_mem _ hd)
    rw [List.cons_append, lexChars_cons, Lexing.next_word_of_isWordChar (hw c List.mem_cons_self)]
    change (lexChars (w ++ rest) (i + 1) (.word (text.push c) origin) >>= fun later =>
      pure later) = _
    rw [bind_pure, ih hall, htext, hlen]

/-- Where no word character follows, a word is a token of its own. -/
theorem lexChars_endWord {i origin : Nat} {text : String}
    (hr : ∀ c ∈ rest.head?, Text.isWordChar c = false) :
    lexChars rest i (.word text origin) =
      (lexChars rest i .between).map fun later => ⟨.word text, origin⟩ :: later := by
  cases rest with
  | nil => rfl
  | cons c rest =>
    rw [lexChars_cons, lexChars_cons, Lexing.next_word_of_not (hr c rfl)]
    change _ = Except.map _ (Lexing.start (Position.ordinal i) c >>= _)
    cases Lexing.start (Position.ordinal i) c with
    | error e => rfl
    | ok out =>
      change (lexChars rest (i + 1) out.2 >>= fun later => pure (_ :: out.1 ++ later)) =
        Except.map _ (lexChars rest (i + 1) out.2 >>= fun later => pure (out.1 ++ later))
      cases lexChars rest (i + 1) out.2 <;> rfl

/-- **A run spells a word** in front of anything but a word character. -/
theorem Spells.word {w : List Char} (hw : Text.IsRun w)
    (hr : ∀ c ∈ rest.head?, Text.isWordChar c = false) (h : Spells rest ts) :
    Spells (w ++ rest) (.word (String.ofList w) :: ts) := by
  intro i
  obtain ⟨hne, hall⟩ := hw
  cases w with
  | nil => exact absurd rfl hne
  | cons c w =>
    obtain ⟨toks, hlex, hmap⟩ := h (i + 1 + w.length)
    have hc := hall c List.mem_cons_self
    have hmark : Token.ofMark c = none := by
      unfold Token.ofMark
      split <;> first | rfl | exact absurd hc (by decide)
    have hquote : c ≠ '"' := Text.ne_of_isWordChar hc (by decide)
    have hstart : Lexing.next (Position.ordinal i) c .between =
        .ok ([], .word c.toString (Position.ordinal i)) := by
      have hblank : Text.isBlank c = false := by
        by_contra hb
        rw [Bool.not_eq_false] at hb
        rw [Text.isWordChar_of_isBlank hb] at hc
        cases hc
      rw [Lexing.next, Lexing.start, hblank, if_neg Bool.false_ne_true]
      simp only [hmark, if_neg hquote, if_pos hc]
    have htext : c.toString ++ String.ofList w = String.ofList (c :: w) := by
      apply String.toList_inj.1
      simp
    refine ⟨⟨.word (String.ofList (c :: w)), Position.ordinal i⟩ :: toks, ?_,
      by rw [List.map_cons, hmap]⟩
    rw [List.cons_append, lexChars_cons, hstart]
    change (lexChars (w ++ rest) (i + 1) (.word c.toString (Position.ordinal i)) >>= fun later =>
      pure later) = _
    rw [bind_pure, lexChars_extend fun d hd => hall d (List.mem_cons_of_mem _ hd), htext,
      lexChars_endWord hr, hlex]
    rfl

/-- A quoted text goes on to its closing quote. -/
theorem lexChars_quoted {q : List Char} : ∀ {i origin : Nat} {text : String}, '"' ∉ q →
    lexChars (q ++ '"' :: rest) i (.quoted text origin) =
      (lexChars rest (i + q.length + 1) .between).map fun later =>
        ⟨.quoted (text ++ String.ofList q), origin⟩ :: later := by
  induction q with
  | nil =>
    intro i origin text _
    rw [String.ofList_nil, String.append_empty, List.nil_append, lexChars_cons,
      Lexing.next_quoted_of_quote]
    change (lexChars rest (i + 1) .between >>= fun later => pure (_ ++ later)) =
      Except.map _ (lexChars rest (i + 1) .between)
    cases lexChars rest (i + 1) .between <;> rfl
  | cons c q ih =>
    intro i origin text hq
    obtain ⟨hc, hq⟩ : c ≠ '"' ∧ '"' ∉ q := by
      rw [List.mem_cons, not_or] at hq
      exact ⟨Ne.symm hq.1, hq.2⟩
    have htext : text.push c ++ String.ofList q = text ++ String.ofList (c :: q) := by
      apply String.toList_inj.1
      simp
    have hlen : i + 1 + q.length + 1 = i + (c :: q).length + 1 := by
      rw [List.length_cons]
      omega
    rw [List.cons_append, lexChars_cons, Lexing.next_quoted_of_ne hc]
    change (lexChars (q ++ '"' :: rest) (i + 1) (.quoted (text.push c) origin) >>= fun later =>
      pure later) = _
    rw [bind_pure, ih hq, htext, hlen]

/-- **Text between quotes spells a quoted text.** -/
theorem Spells.quoted {q : List Char} (hq : '"' ∉ q) (h : Spells rest ts) :
    Spells ('"' :: (q ++ '"' :: rest)) (.quoted (String.ofList q) :: ts) := by
  intro i
  obtain ⟨toks, hlex, hmap⟩ := h (i + 1 + q.length + 1)
  have hstart : Lexing.next (Position.ordinal i) '"' .between =
      .ok ([], .quoted "" (Position.ordinal i)) := rfl
  refine ⟨⟨.quoted (String.ofList q), Position.ordinal i⟩ :: toks, ?_, by rw [List.map_cons, hmap]⟩
  rw [lexChars_cons, hstart]
  change (lexChars (q ++ '"' :: rest) (i + 1) (.quoted "" (Position.ordinal i)) >>= fun later =>
    pure later) = _
  rw [bind_pure, lexChars_quoted hq, hlex, String.empty_append]
  rfl

/-- A text whose characters spell tokens has those. -/
theorem tokens_of_spells {source : String} (h : Spells source.toList ts) :
    ∃ toks, tokens source = .ok toks ∧ toks.map Placed.token = ts :=
  h 0

end Signature

end CommandScript
