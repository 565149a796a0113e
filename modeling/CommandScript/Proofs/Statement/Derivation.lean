import CommandScript.Proofs.Statement.Grammar
import CommandScript.Proofs.Statement.Lexing

/-!
# The scanner reads derivations

The scanner keeps a stack of frames where the grammar nests, so the two meet in
what the stack has read: `Opened` says from which tokens the open arrays and
the values so far are derived, and `Partial` adds the name that waits. Each
token carries `Partial` over (`partial_of_feed`), and a semicolon turns it into
a statement of the grammar (`isScript_of_semicolon`), which makes what the
scanner accepts a script (`isScript_of_passScript`). The other way is an
induction on the derivation: a value that may stand where it does is pushed,
and nothing else happens (`passTokens_of_isValue`).
-/

namespace CommandScript

namespace Scanner

open Statement

variable {s t : Scanner} {n : Nat} {ts us : List Placed} {v : Value} {f : Frame}
  {rest : List Frame}

/-! ## What has been read -/

/-- The tokens of a name that waits for its value, or of none. -/
inductive LabelTokens : Option String → List Placed → Prop
  | none : LabelTokens none []
  | some {w : String} {p : Position} : LabelTokens (some w) [⟨.name w, p⟩]

/-- **The tokens of frames**: those of the values outside arrays and, for each
open array, a name or none, an opening parenthesis and the arguments so far. -/
inductive Opened : List Frame → List Placed → Prop
  | root {f : Frame} {ts : List Placed} :
      f.tag = {} → f.Flagged → IsArguments maxNesting ts f.items.reverse → Opened [f] ts
  | array {rest : List Frame} {f : Frame} {ts ls us : List Placed} :
      Opened rest ts → LabelTokens f.tag.name ls → rest.length ≤ maxNesting → f.Flagged →
      IsArguments (maxNesting - rest.length) us f.items.reverse →
      Opened (f :: rest) (ts ++ ls ++ ⟨.openParen, f.tag.position⟩ :: us)

/-- **The invariant between tokens**: the state is what the tokens of the
statement so far make, and before the first there are none. -/
structure Partial (ts : List Placed) (s : Scanner) : Prop where
  /-- No word is being read. -/
  word : s.word = none
  /-- The values and the open arrays, and then the name that waits. -/
  opened : ∃ us ls, ts = us ++ ls ∧ Opened s.frames us ∧
    LabelTokens (s.label.map Lexeme.text) ls
  /-- A statement without a start has no tokens. -/
  started : s.started = none → ts = []

theorem partial_empty : Partial [] {} where
  word := rfl
  opened := ⟨[], [], rfl, .root rfl rfl (.named .nil), .none⟩
  started _ := rfl

/-! ## One more value -/

/-- Arguments go on with a value that may be taken, under its name. -/
theorem snoc_of_mayTake {label : Option String} {ls : List Placed} (hf : f.Flagged)
    (h : IsArguments n ts f.items.reverse) (hl : LabelTokens label ls) (hv : IsValue n us v)
    (hm : ((v.rename label).name.isSome || !f.named) = true) :
    IsArguments n (ts ++ ls ++ us) (f.push (v.rename label)).items.reverse := by
  unfold Frame.push
  rw [List.reverse_cons]
  cases hl with
  | some =>
    rw [List.append_assoc, List.singleton_append]
    exact h.snoc_named hv
  | none =>
    have hself : v.rename none = v := by
      rw [← hv.name_eq_none, Value.rename_self]
    -- the value has no name, so none of the others does
    rw [hself, hv.name_eq_none, hf] at hm
    have hnone : ∀ w ∈ f.items, w.name = none := by simpa using hm
    have hlast : ∀ w ∈ f.items.reverse.getLast?, w.name = none := by
      intro w hw
      rw [List.getLast?_reverse] at hw
      exact hnone w (List.mem_of_head? hw)
    rw [List.append_nil, hself]
    exact h.snoc_positional hv hlast

/-- **A value that may be taken goes on with what has been read.** -/
theorem opened_push {label : Option String} {ls : List Placed}
    (h : Opened s.frames ts) (hl : LabelTokens label ls)
    (hv : IsValue (maxNesting + 1 - s.frames.length) us v)
    (hm : s.mayTake (v.rename label) = true) :
    Opened (s.push (v.rename label)).frames (ts ++ ls ++ us) := by
  obtain ⟨frames, word, lab, started⟩ := s
  cases h with
  | root htag hf h =>
    exact .root htag (hf.push _) (snoc_of_mayTake hf h hl hv ((mayTake_of_cons rfl).symm.trans hm))
  | @array rest f ts' ls' us' h hla hle hf hargs =>
    have hdepth : maxNesting + 1 - (f :: rest).length = maxNesting - rest.length := by
      rw [List.length_cons]
      omega
    have hassoc : ts' ++ ls' ++ ⟨.openParen, f.tag.position⟩ :: us' ++ ls ++ us =
        ts' ++ ls' ++ ⟨.openParen, f.tag.position⟩ :: (us' ++ ls ++ us) := by simp
    rw [hdepth] at hv
    rw [hassoc]
    exact .array h hla hle (hf.push _)
      (snoc_of_mayTake hf hargs hl hv ((mayTake_of_cons rfl).symm.trans hm))

/-! ## One token -/

/-- A scalar goes on with what has been read. -/
theorem partial_attachScalar {tok : Token} {p q : Position} {u : Scanner} (h : Partial ts s)
    (hv : ∀ n, IsValue n [⟨tok, p⟩] v) (hu : u = { s with started := s.started.or (some q) })
    (ht : attachScalar v u = .ok () t) : Partial (ts ++ [⟨tok, p⟩]) t := by
  obtain ⟨us, ls, rfl, ho, hl⟩ := h.opened
  obtain ⟨hm, rfl⟩ := attachScalar_eq_ok_iff.1 ht
  subst hu
  refine ⟨?_, ⟨us ++ ls ++ [⟨tok, p⟩], [], ?_, ?_, ?_⟩, ?_⟩
  · rw [word_push]
    exact h.word
  · rw [List.append_nil]
  · exact opened_push ho hl (hv _) hm
  · rw [label_push]
    exact .none
  · rw [started_push]
    intro hn
    cases hs : s.started <;> simp [hs] at hn

/-- **Every token but a semicolon carries what has been read over.** -/
theorem partial_of_feed {tok : Placed} {made : Option Statement} (htok : tok.token ≠ .semicolon)
    (h : Partial ts s) (ht : feed tok s = .ok made t) : made = none ∧ Partial (ts ++ [tok]) t := by
  obtain ⟨token, p⟩ := tok
  cases token with
  | semicolon => exact absurd rfl htok
  | word w =>
    obtain ⟨_, u, hu, ht⟩ := bind_eq_ok_iff.1 ht
    obtain ⟨ht, hmade⟩ := bind_pure_eq_ok_iff.1 ht
    cases hu
    exact ⟨hmade.symm, partial_attachScalar h (fun _ => .word) rfl ht⟩
  | quoted q =>
    obtain ⟨_, u, hu, ht⟩ := bind_eq_ok_iff.1 ht
    obtain ⟨ht, hmade⟩ := bind_pure_eq_ok_iff.1 ht
    cases hu
    exact ⟨hmade.symm, partial_attachScalar h (fun _ => .quoted) rfl ht⟩
  | name w =>
    cases hl : s.label with
    | some l =>
      rw [feed_name_of_label hl] at ht
      cases ht
    | none =>
      rw [feed_name_of_none hl] at ht
      cases ht
      obtain ⟨us, ls, rfl, ho, hls⟩ := h.opened
      rw [hl] at hls
      cases hls
      refine ⟨rfl, h.word, ⟨us, [⟨.name w, p⟩], by rw [List.append_nil], ho, .some⟩, ?_⟩
      intro hn
      cases hs : s.started <;> simp [hs] at hn
  | openParen =>
    obtain ⟨ht, hmade⟩ := bind_pure_eq_ok_iff.1 ht
    obtain ⟨hle, rfl⟩ := openArray_eq_ok_iff.1 ht
    obtain ⟨us, ls, rfl, ho, hls⟩ := h.opened
    refine ⟨hmade.symm, h.word, ⟨us ++ ls ++ [⟨.openParen, p⟩], [], ?_, ?_, .none⟩, ?_⟩
    · rw [List.append_nil]
    · exact .array (f := { tag := ⟨s.label.map Lexeme.text, p⟩ }) ho hls hle rfl (.named .nil)
    · intro hn
      cases hs : s.started <;> simp [hs] at hn
  | closeParen =>
    obtain ⟨ht, hmade⟩ := bind_pure_eq_ok_iff.1 ht
    obtain ⟨f, g, rest, hframes, hl, hm, rfl⟩ := closeArray_eq_ok_iff.1 ht
    obtain ⟨us, ls, rfl, ho, hls⟩ := h.opened
    rw [hl] at hls
    cases hls
    rw [hframes] at ho
    cases ho with
    | @array _ _ ts' ls' us' ho hla hle _ hargs =>
      have hdepth : maxNesting - (g :: rest).length + 1 = maxNesting + 1 - (g :: rest).length := by
        omega
      have hv := IsValue.array (p := f.tag.position) (q := p) hargs
      rw [hdepth] at hv
      -- the array is its items under the name that stood before the parenthesis
      have hval : Value.array f.tag f.items.reverse =
          (Value.list f.items.reverse f.tag.position).rename f.tag.name := rfl
      rw [hval] at hm ⊢
      have hopened := opened_push (s := { s with frames := g :: rest }) ho hla hv hm
      refine ⟨hmade.symm, ?_, ⟨_, [], ?_, hopened, ?_⟩, ?_⟩
      · rw [word_push]
        exact h.word
      · simp
      · rw [label_push]
        change LabelTokens (s.label.map Lexeme.text) []
        rw [hl]
        exact .none
      · rw [started_push]
        intro hn
        have hnil := h.started hn
        simp at hnil

/-! ## The end of a statement -/

/-- A command word and the tokens of what is passed to it. -/
theorem exists_head_of_toStatement {p : Position} {command : Value} {arguments : List Value}
    {made : Statement} (h : IsArguments maxNesting ts (command :: arguments))
    (hm : toStatement p command arguments = .ok made) :
    ∃ head name q us, ts = ⟨head, q⟩ :: us ∧ head.head? = some name ∧
      IsArguments maxNesting us arguments ∧
      made = ⟨name, q, Value.list arguments (argumentsStart p arguments)⟩ := by
  cases h with
  | positional hv h =>
    cases hv with
    | @word _ w q =>
      cases hm
      exact ⟨.word w, w, q, _, rfl, rfl, h, rfl⟩
    | @quoted _ w q =>
      cases hm
      exact ⟨.quoted w, w, q, _, rfl, rfl, h, rfl⟩
    | array => cases hm
  | named h =>
    cases h with
    | @cons _ w q _ _ v _ _ _ =>
      -- a value with a name is no command word
      cases v <;> cases hm

/-- **A semicolon makes a statement of what has been read**, or none of
nothing. -/
theorem exists_head_of_semicolon {p : Position} {made : Option Statement} (h : Partial ts s)
    (hm : feed ⟨.semicolon, p⟩ s = .ok made t) :
    t = {} ∧ (made = none ∧ ts = [] ∨
      ∃ head name q us vs, ts = ⟨head, q⟩ :: us ∧ head.head? = some name ∧
        IsArguments maxNesting us vs ∧
        made = some ⟨name, q, Value.list vs (argumentsStart p vs)⟩) := by
  change completeStatement p s = .ok made t at hm
  obtain ⟨f, hf, hl, ht⟩ := completeStatement_eq_ok h.word hm
  obtain ⟨us, ls, rfl, ho, hls⟩ := h.opened
  rw [hf] at ho
  rw [hl] at hls
  cases hls
  cases ho with
  | array ho => cases ho
  | root htag _ hargs =>
    rw [Frame.clear_eq htag] at ht
    refine ⟨ht, ?_⟩
    rw [List.append_nil]
    rw [completeStatement_eq hf hl] at hm
    cases hi : f.items.reverse with
    | nil =>
      rw [hi] at hm hargs
      cases hm
      exact .inl ⟨rfl, hargs.eq_nil⟩
    | cons command arguments =>
      rw [hi] at hm hargs
      cases hst : toStatement p command arguments with
      | error e =>
        simp only [hst] at hm
        cases hm
      | ok st =>
        simp only [hst] at hm
        cases hm
        obtain ⟨head, name, q, us, hts, hhead, hus, rfl⟩ := exists_head_of_toStatement hargs hst
        exact .inr ⟨head, name, q, us, arguments, hts, hhead, hus, rfl⟩

theorem passScript_cons (tok : Placed) (ts : List Placed) (s : Scanner) :
    passScript (tok :: ts) s = (Passage.ofStep (feed tok s)).followedBy (passScript ts) :=
  Passage.followedBy_assoc _ _ _

/-- **Tokens that the scanner gets through are those of a script**, behind
what had been read of its first statement. -/
theorem isScript_of_passScript {ts : List Placed} : ∀ {pre : List Placed} {s t : Scanner},
    Partial pre s → (passScript ts s).outcome = .ok () t →
      IsScript (pre ++ ts) (passScript ts s).statements := by
  induction ts with
  | nil =>
    intro pre s t h hok
    change finish s = .ok () t at hok
    rw [finish_eq] at hok
    cases hs : s.started with
    | some p =>
      rw [hs] at hok
      cases hok
    | none =>
      rw [h.started hs]
      exact .nil
  | cons tok ts ih =>
    intro pre s t h hok
    rw [passScript_cons] at hok ⊢
    obtain ⟨u, hu, hnext, -⟩ := Passage.followedBy_outcome_ok hok
    obtain ⟨made, hmade⟩ := exists_of_ofStep hu
    rw [hmade, Passage.ofStep, Passage.followedBy_ok]
    -- a semicolon ends what was begun, and any other token goes on with it
    by_cases htok : tok.token = .semicolon
    · obtain ⟨token, p⟩ := tok
      obtain rfl : token = .semicolon := htok
      obtain ⟨rfl, ⟨rfl, rfl⟩ | ⟨head, name, q, us, vs, rfl, hhead, hus, rfl⟩⟩ :=
        exists_head_of_semicolon h hmade
      · exact .empty (ih partial_empty hnext)
      · exact .statement hhead hus (ih partial_empty hnext)
    · obtain ⟨rfl, hpartial⟩ := partial_of_feed htok h hmade
      have hrest := ih hpartial hnext
      rw [List.append_assoc] at hrest
      exact hrest

/-! ## From derivations -/

/-- Several values, one after the other. -/
def pushAll (s : Scanner) (vs : List Value) : Scanner :=
  vs.foldl push s

theorem pushAll_of_cons (vs : List Value) (h : s.frames = f :: rest) :
    s.pushAll vs = { s with frames := vs.foldl Frame.push f :: rest } := by
  induction vs generalizing s f with
  | nil =>
    change s = { s with frames := f :: rest }
    rw [← h]
  | cons v vs ih =>
    change (s.push v).pushAll vs = _
    rw [push_of_cons h, ih rfl]
    rfl

theorem tag_foldl_push (vs : List Value) (f : Frame) : (vs.foldl Frame.push f).tag = f.tag := by
  induction vs generalizing f with
  | nil => rfl
  | cons v vs ih => exact ih (f.push v)

theorem items_foldl_push (vs : List Value) (f : Frame) :
    (vs.foldl Frame.push f).items = vs.reverse ++ f.items := by
  induction vs generalizing f with
  | nil => rfl
  | cons v vs ih =>
    rw [List.foldl_cons, ih, List.reverse_cons, List.append_assoc]
    rfl

@[simp] theorem frames_length_push (s : Scanner) (v : Value) :
    (s.push v).frames.length = s.frames.length := by
  unfold push
  split
  · rfl
  · rename_i h
    rw [h]
    rfl

/-- A value with a name may stand anywhere. -/
theorem mayTake_of_isSome (hf : s.frames = f :: rest) (h : v.name.isSome = true) :
    s.mayTake v = true := by
  rw [mayTake_of_cons hf, h]
  rfl

/-- A value may stand behind those without names. -/
theorem mayTake_of_unnamed (hf : s.frames = f :: rest) (h : f.named = false) :
    s.mayTake v = true := by
  rw [mayTake_of_cons hf, h]
  exact Bool.or_true _

/-- The start of a statement that has started stays. -/
theorem or_some_of_isSome {o : Option Position} (p : Position) (h : o.isSome = true) :
    o.or (some p) = o := by
  obtain ⟨q, rfl⟩ := Option.isSome_iff_exists.1 h
  rfl

/-- A scalar that may be taken is taken. -/
theorem passTokens_of_scalar {tok : Placed} {p : Position} (hs : s.started.isSome = true)
    (hm : { s with label := none }.mayTake (v.rename (s.label.map Lexeme.text)) = true)
    (hf : feed tok s = (markStarted p >>= fun _ => attachScalar v >>= fun _ => pure none) s) :
    passTokens [tok] s =
      ⟨[], .ok () ({ s with label := none }.push (v.rename (s.label.map Lexeme.text)))⟩ := by
  have hfeed : feed tok s =
      .ok none ({ s with label := none }.push (v.rename (s.label.map Lexeme.text))) := by
    rw [hf, bind_eq, markStarted_eq, or_some_of_isSome p hs]
    exact bind_pure_eq_ok_iff.2 ⟨attachScalar_eq_ok_iff.2 ⟨hm, rfl⟩, rfl⟩
  rw [passTokens, hfeed]
  rfl

mutual

/-- **The tokens of a value make the value**, where it may stand, under the
name that waits for it. -/
theorem passTokens_of_isValue : ∀ {n : Nat} {ts : List Placed} {v : Value} {s : Scanner},
    IsValue n ts v → s.started.isSome = true → s.frames.length + n ≤ maxNesting + 1 →
    { s with label := none }.mayTake (v.rename (s.label.map Lexeme.text)) = true →
      passTokens ts s =
        ⟨[], .ok () ({ s with label := none }.push (v.rename (s.label.map Lexeme.text)))⟩
  | _, _, _, _, .word, hs, _, hm => passTokens_of_scalar hs hm rfl
  | _, _, _, _, .quoted, hs, _, hm => passTokens_of_scalar hs hm rfl
  | n + 1, _, _, s, @IsValue.array _ ts vs p q h, hs, hn, hm => by
    obtain ⟨g, rest, hframes, -⟩ := exists_of_mayTake hm
    let f : Frame := { tag := ⟨s.label.map Lexeme.text, p⟩ }
    let u : Scanner := { s with frames := f :: s.frames, label := none }
    have hopen : feed ⟨.openParen, p⟩ s = .ok none u := by
      refine bind_pure_eq_ok_iff.2 ⟨openArray_eq_ok_iff.2 ⟨by omega, ?_⟩, rfl⟩
      rw [or_some_of_isSome p hs]
    have hlen : u.frames.length + n ≤ maxNesting + 1 := by
      change s.frames.length + 1 + n ≤ maxNesting + 1
      omega
    have hitems : passTokens ts u = ⟨[], .ok () (u.pushAll vs)⟩ :=
      passTokens_of_isArguments h hs rfl hlen (rfl : u.frames = f :: s.frames) rfl
    have hclose : feed ⟨.closeParen, q⟩ (u.pushAll vs) =
        .ok none ({ s with label := none }.push
          ((Value.list vs p).rename (s.label.map Lexeme.text))) := by
      have hval : Value.array (vs.foldl Frame.push f).tag (vs.foldl Frame.push f).items.reverse =
          (Value.list vs p).rename (s.label.map Lexeme.text) := by
        rw [tag_foldl_push, items_foldl_push, List.append_nil, List.reverse_reverse]
        rfl
      have hbelow : ({ s with frames := g :: rest, label := none } : Scanner) =
          { s with label := none } := by rw [← hframes]
      rw [pushAll_of_cons vs (rfl : u.frames = f :: s.frames), ← hbelow]
      rw [← hbelow] at hm
      refine bind_pure_eq_ok_iff.2 ⟨closeArray_eq_ok_iff.2
        ⟨vs.foldl Frame.push f, g, rest, ?_, rfl, ?_⟩, rfl⟩
      · exact congrArg (vs.foldl Frame.push f :: ·) hframes
      · rw [hval]
        exact ⟨hm, rfl⟩
    rw [passTokens, hopen, Passage.ofStep, Passage.followedBy_ok, passTokens_append, hitems,
      Passage.followedBy_ok, passTokens, hclose]
    rfl

/-- **The tokens of arguments make the arguments**, one after the other, behind
values without names. -/
theorem passTokens_of_isArguments : ∀ {n : Nat} {ts : List Placed} {vs : List Value} {s : Scanner}
    {f : Frame} {rest : List Frame}, IsArguments n ts vs → s.started.isSome = true →
    s.label = none → s.frames.length + n ≤ maxNesting + 1 → s.frames = f :: rest →
    f.named = false → passTokens ts s = ⟨[], .ok () (s.pushAll vs)⟩
  | _, _, _, s, f, rest, @IsArguments.positional _ _ _ v _ hv h, hs, hl, hn, hf, hnamed => by
    have hname := hv.name_eq_none
    have hstate : ({ s with label := none } : Scanner) = s := by rw [← hl]
    have hself : v.rename (s.label.map Lexeme.text) = v := by
      rw [hl, Option.map_none, ← hname, Value.rename_self]
    have hfirst := passTokens_of_isValue hv hs hn (mayTake_of_unnamed hf hnamed)
    have hnext : (s.push v).frames = f.push v :: rest := by rw [push_of_cons hf]
    have hpush : (f.push v).named = false := by
      unfold Frame.push
      rw [hname, hnamed]
      rfl
    rw [hstate, hself] at hfirst
    rw [passTokens_append, hfirst, Passage.followedBy_ok,
      passTokens_of_isArguments h (by rw [started_push]; exact hs) (by rw [label_push]; exact hl)
        (by rw [frames_length_push]; exact hn) hnext hpush]
    rfl
  | _, _, _, _, _, _, .named h, hs, hl, hn, hf, _ => passTokens_of_isNamed h hs hl hn hf

/-- The tokens of arguments with names make the arguments. -/
theorem passTokens_of_isNamed : ∀ {n : Nat} {ts : List Placed} {vs : List Value} {s : Scanner}
    {f : Frame} {rest : List Frame}, IsNamed n ts vs → s.started.isSome = true →
    s.label = none → s.frames.length + n ≤ maxNesting + 1 → s.frames = f :: rest →
    passTokens ts s = ⟨[], .ok () (s.pushAll vs)⟩
  | _, _, _, _, _, _, .nil, _, _, _, _ => rfl
  | _, _, _, s, f, rest, @IsNamed.cons _ w p _ _ v _ hv h, hs, hl, hn, hf => by
    let t : Scanner := { s with label := some ⟨w, p⟩ }
    have hname : feed ⟨.name w, p⟩ s = .ok none t := by
      rw [feed_name_of_none hl, or_some_of_isSome p hs]
    have hstate : ({ t with label := none } : Scanner) = s := by
      change ({ s with label := none } : Scanner) = s
      rw [← hl]
    have hsome : (v.rename (some w)).name.isSome = true := by
      rw [Value.name_rename]
      rfl
    have hname' : v.rename (t.label.map Lexeme.text) = v.rename (some w) := rfl
    have hfirst := passTokens_of_isValue (s := t) hv hs hn (mayTake_of_isSome hf hsome)
    have hnext : (s.push (v.rename (some w))).frames = f.push (v.rename (some w)) :: rest := by
      rw [push_of_cons hf]
    rw [hstate, hname'] at hfirst
    rw [passTokens, hname, Passage.ofStep, Passage.followedBy_ok, passTokens_append, hfirst,
      Passage.followedBy_ok,
      passTokens_of_isNamed h (by rw [started_push]; exact hs) (by rw [label_push]; exact hl)
        (by rw [frames_length_push]; exact hn) hnext]
    rfl

end

/-- A command word starts a statement. -/
theorem feed_head {head : Token} {name : String} {p : Position} (h : head.head? = some name) :
    ∃ v, feed ⟨head, p⟩ {} = .ok none { frames := [{ items := [v] }], started := some p } ∧
      ∀ (q : Position) (vs : List Value),
        toStatement q v vs = .ok ⟨name, p, Value.list vs (argumentsStart q vs)⟩ := by
  cases head with
  | word w =>
    cases h
    exact ⟨Value.word name p, rfl, fun _ _ => rfl⟩
  | quoted w =>
    cases h
    exact ⟨Value.quoted name p, rfl, fun _ _ => rfl⟩
  | _ => cases h

/-- The tokens of a statement make it, and the scanner is as before. -/
theorem passTokens_of_statement {head : Token} {name : String} {p q : Position}
    {us : List Placed} {vs : List Value} (hhead : head.head? = some name)
    (h : IsArguments maxNesting us vs) :
    passTokens (⟨head, p⟩ :: (us ++ [⟨.semicolon, q⟩])) {} =
      ⟨[⟨name, p, Value.list vs (argumentsStart q vs)⟩], .ok () {}⟩ := by
  obtain ⟨v, hv, hst⟩ := feed_head (p := p) hhead
  let f : Frame := { items := [v] }
  let s : Scanner := { frames := [f], started := some p }
  have hargs : passTokens us s = ⟨[], .ok () (s.pushAll vs)⟩ :=
    passTokens_of_isArguments h rfl rfl (Nat.le_of_eq (Nat.add_comm _ _))
      (rfl : s.frames = [f]) rfl
  have hend : feed ⟨.semicolon, q⟩ (s.pushAll vs) =
      .ok (some ⟨name, p, Value.list vs (argumentsStart q vs)⟩) {} := by
    have hitems : (vs.foldl Frame.push f).items.reverse = v :: vs := by
      rw [items_foldl_push, List.reverse_append, List.reverse_reverse]
      rfl
    have hclear : (vs.foldl Frame.push f).clear = {} := Frame.clear_eq (tag_foldl_push vs f)
    rw [pushAll_of_cons vs (rfl : s.frames = [f])]
    change completeStatement q _ = _
    rw [completeStatement_eq rfl rfl]
    simp only [hitems, hst, hclear]
    rfl
  rw [passTokens, hv, Passage.ofStep, Passage.followedBy_ok, passTokens_append, hargs,
    Passage.followedBy_ok, passTokens, hend]
  rfl

/-- **The tokens of a script make its statements**, and no fault. -/
theorem passScript_of_isScript {ts : List Placed} {ss : List Statement} (h : IsScript ts ss) :
    passScript ts {} = ⟨ss, .ok () {}⟩ := by
  induction h with
  | nil => rfl
  | @empty p ts ss _ ih =>
    have hfeed : feed ⟨.semicolon, p⟩ {} = .ok none {} := rfl
    rw [passScript_cons, hfeed, Passage.ofStep, Passage.followedBy_ok, ih]
    rfl
  | @statement head name p q us ts vs ss hhead hargs _ ih =>
    have hts : ⟨head, p⟩ :: (us ++ ⟨.semicolon, q⟩ :: ts) =
        (⟨head, p⟩ :: (us ++ [⟨.semicolon, q⟩])) ++ ts := by simp
    unfold passScript at ih
    rw [passScript, hts, passTokens_append, passTokens_of_statement hhead hargs,
      Passage.followedBy_assoc, Passage.followedBy_ok, ih]
    rfl

end Scanner

namespace Statement

variable {source : String} {ts : List Placed} {statements : List Statement}

/-- A text that is read without a fault is made of the tokens of a script. -/
theorem isScript_of_readAll (h : readAll source = .ok statements) :
    ∃ ts, Tokens source ts ∧ IsScript ts statements := by
  rw [readAll_eq] at h
  cases hout : (passage source).outcome with
  | error e t =>
    rw [hout] at h
    cases h
  | ok _ t =>
    rw [hout] at h
    cases h
    obtain ⟨ts, hts⟩ := Scanner.exists_linesTokens rfl hout
    have hagree : passage source = Scanner.passScript ts {} :=
      Scanner.passLines_agrees hts {} rfl ⟨t, .inl hout⟩
    rw [hagree] at hout
    have hscript := Scanner.isScript_of_passScript Scanner.partial_empty hout
    rw [← hagree] at hscript
    exact ⟨ts, hts, hscript⟩

/-- A text made of the tokens of a script is read without a fault. -/
theorem readAll_of_isScript (hts : Tokens source ts) (h : IsScript ts statements) :
    readAll source = .ok statements := by
  have hpass := Scanner.passScript_of_isScript h
  have hagree := Scanner.passLines_agrees hts {} rfl
    ⟨{}, .inr (congrArg Passage.outcome hpass)⟩
  have hpassage : passage source = ⟨statements, .ok () {}⟩ := hagree.trans hpass
  rw [readAll_eq, hpassage]

/-- **Reading a script is parsing it.** The statements of a text are those
that its tokens are derived from, and a text without such statements has a
fault. -/
theorem readAll_eq_ok_iff (source : String) (statements : List Statement) :
    readAll source = .ok statements ↔ ∃ ts, Tokens source ts ∧ IsScript ts statements := by
  constructor
  · exact isScript_of_readAll
  · rintro ⟨ts, hts, h⟩
    exact readAll_of_isScript hts h

end Statement

end CommandScript
