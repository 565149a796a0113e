import CommandScript.Proofs.Statement.Heads
import CommandScript.Proofs.Statement.Resume

/-!
# The places that the scanner keeps

The scanner keeps a place for each thing that it may have to speak of later:
values, open arrays, the name that waits, the word or the quoted text being
read, and the start of the statement. Each is a place where that thing is
written (`Within`), on the line being scanned or on an earlier one, and so the
place of a fault is one where the offending character or token stands
(`Within.scan`). And whoever begins to read at the start of the statement
comes to where the scanner is (`Within.begun`), and so to the same fault.
-/

namespace CommandScript

open Statement (place)

namespace Scanner

variable {α β : Type} {ls : List String} {p : Position} {c : Char} {text : String}
  {index i k : Nat} {rest : List Char} {s t : Scanner} {v : Value} {q : Option Lexeme}

/-! ## What the scanner keeps -/

/-- **What is kept of a statement is where it says.** -/
structure Sited (ls : List String) (s : Scanner) : Prop where
  /-- The values. -/
  values : Holds (Value.IsAt ls) s
  /-- The parentheses that are open. -/
  parens : ∀ x ∈ s.frames.dropLast.map Frame.tag, Shows ls x.position ['(']
  /-- The name that waits, with its colon. -/
  label : ∀ l ∈ s.label, l.text ≠ "" ∧ Shows ls l.start (l.text.toList ++ [':'])
  /-- The flags are right. -/
  flagged : ∀ f ∈ s.frames, f.Flagged
  /-- The root is there. -/
  rooted : Rooted s
  /-- Before a statement starts nothing is kept. -/
  idle : s.started = none → s = {}

theorem sited_empty : Sited ls {} where
  values := by simp [Holds]
  parens := by simp
  label := by simp
  flagged := List.forall_mem_singleton.2 rfl
  rooted := rooted_empty
  idle _ := rfl

/-- What does not change the frames keeps the rest, once a statement has
started. -/
theorem Sited.of_frames (h : Sited ls s) (hframes : t.frames = s.frames)
    (hlabel : ∀ l ∈ t.label, l.text ≠ "" ∧ Shows ls l.start (l.text.toList ++ [':']))
    (hs : t.started ≠ none) : Sited ls t := by
  obtain ⟨frames, word, label, started⟩ := t
  obtain rfl : frames = s.frames := hframes
  exact ⟨h.values, h.parens, hlabel, h.flagged, h.rooted, fun hnone => absurd hnone hs⟩

/-- The word being read is what comes before an index. -/
def WordTo (index : Nat) (text : String) (i : Nat) (w : Lexeme) : Prop :=
  w.text ≠ "" ∧ ∃ k, w.start = place (Position.ordinal index) k ∧
    text.toList.drop k = w.text.toList ++ text.toList.drop i

/-- The quoted text being read is what comes before an index, behind the
quote. -/
def QuoteTo (index : Nat) (text : String) (i : Nat) (q : Lexeme) : Prop :=
  '"' ∉ q.text.toList ∧ ∃ k, q.start = place (Position.ordinal index) k ∧
    text.toList.drop k = '"' :: (q.text.toList ++ text.toList.drop i)

/-- A bare word is written where it starts. -/
theorem WordTo.isAt {w : Lexeme} (h : WordTo index text i w) (hline : IsLine ls index text) :
    (Value.word w.text w.start).IsAt ls := by
  obtain ⟨hne, k, hstart, hdrop⟩ := h
  refine .inl ⟨hne, ?_⟩
  change Shows ls w.start _
  rw [hstart]
  exact hline.shows hdrop fun hnil => hne (String.toList_eq_nil_iff.1 hnil)

/-- A quoted text is written where it starts, once it is closed. -/
theorem QuoteTo.isAt {w : Lexeme} (h : QuoteTo index text i w) (hline : IsLine ls index text)
    (hdrop : text.toList.drop i = '"' :: rest) : (Value.quoted w.text w.start).IsAt ls := by
  obtain ⟨-, k, hstart, hk⟩ := h
  refine .inr ?_
  change Shows ls w.start _
  rw [hstart]
  have htext : text.toList.drop k = ('"' :: (w.text.toList ++ ['"'])) ++ rest := by
    rw [hk, hdrop]
    simp
  exact hline.shows htext (List.cons_ne_nil _ _)

/-! ## Steps -/

/-- **What a step is at fault for**, in a statement that has started at a place
or in none. -/
def Blamed (ls : List String) (started : Option Position) (e : ScanError) (t : Scanner) : Prop :=
  match e.fault with
  | .positionalAfterNamed => started ≠ none ∧ Misplaced ls t.frames e.position
  | .noCommandWord => started ≠ none ∧ ∀ a ∈ started, Uncommanded ls a e.position
  | fault => fault.At ls e.position

/-- A step that fails is at fault where it says, if whoever begins at the start
of the statement comes to the same fault. -/
theorem Blamed.at {started : Option Position} {e : ScanError} (h : Blamed ls started e t)
    (hbegun : ∀ a ∈ started, passFrom ls a = ⟨[], .error e t⟩) : e.fault.At ls e.position := by
  obtain ⟨fault, p⟩ := e
  cases fault with
  | positionalAfterNamed =>
    obtain ⟨hs, hvalues⟩ := h
    obtain ⟨a, ha⟩ := Option.ne_none_iff_exists'.1 hs
    exact ⟨a, t, hvalues, hbegun a ha⟩
  | noCommandWord =>
    obtain ⟨hs, hfirst⟩ := h
    obtain ⟨a, ha⟩ := Option.ne_none_iff_exists'.1 hs
    exact ⟨a, t, hfirst a ha, hbegun a ha⟩
  | _ => exact h

/-- What a step leaves that stays in the statement: all is where it says, and no
word is being read. -/
structure Stays (ls : List String) (started : Option Position) (t : Scanner) : Prop where
  sited : Sited ls t
  leads : Leads ls none t
  word : t.word = none
  started : t.started = started

theorem dropLast_map_tag_push (s : Scanner) (v : Value) :
    (s.push v).frames.dropLast.map Frame.tag = s.frames.dropLast.map Frame.tag := by
  unfold push
  split
  · rfl
  · rename_i f rest hf
    rw [hf]
    cases rest <;> rfl

theorem Sited.push (h : Sited ls s) (hs : s.started ≠ none) (hv : v.IsAt ls) :
    Sited ls (s.push v) where
  values := h.values.push hv
  parens := by
    rw [dropLast_map_tag_push]
    exact h.parens
  label := by
    rw [label_push]
    exact h.label
  flagged := by
    obtain ⟨f, rest, hf⟩ := h.rooted.exists_cons
    have hflagged := h.flagged
    rw [push_of_cons hf]
    rw [hf] at hflagged
    obtain ⟨hfirst, hrest⟩ := List.forall_mem_cons.1 hflagged
    exact List.forall_mem_cons.2 ⟨hfirst.push v, hrest⟩
  rooted := h.rooted.push v
  idle := by
    rw [started_push]
    exact fun hnone => absurd hnone hs

/-- A value that is not taken has no name, and another in its frame has one. -/
theorem Sited.misplaced (h : Sited ls s) (hv : v.IsAt ls) (hmay : ¬ s.mayTake v = true) :
    Misplaced ls s.frames v.position := by
  obtain ⟨f, rest, hf⟩ := h.rooted.exists_cons
  have hmem : f ∈ s.frames := by simp [hf]
  rw [mayTake_of_cons hf] at hmay
  obtain ⟨hname, hnamed⟩ : v.name = none ∧ f.named = true := by simpa using hmay
  rw [h.flagged f hmem] at hnamed
  obtain ⟨w, hw, hsome⟩ := List.any_eq_true.1 hnamed
  exact ⟨v, w, f, rest, rfl, hv, hname, hf, hw, h.values f hmem w hw, hsome⟩

/-- A value that is where it says is taken, or is at fault. -/
theorem Sited.attach (h : Sited ls s) (hs : s.started ≠ none) (hword : s.word = none)
    (hlabel : s.label = none) (hv : v.IsAt ls)
    (hlead : LeadsWith ls s.started (heads s.frames ++ [v.tag])) :
    Ends (attach v s) (fun _ t => Stays ls s.started t) (Blamed ls s.started) := by
  obtain ⟨f, rest, hf⟩ := h.rooted.exists_cons
  rw [attach_eq]
  split
  · exact ⟨h.push hs hv, leads_push h.rooted hword hlabel hlead, (word_push s v).trans hword,
      started_push s v⟩
  · rename_i hmay
    rw [refusal_of_cons hf]
    exact ⟨hs, h.misplaced hv hmay⟩

theorem Sited.attachScalar (h : Sited ls s) (hs : s.started ≠ none) (hword : s.word = none)
    (hv : v.IsAt ls)
    (hlead : LeadsWith ls s.started
      (heads s.frames ++ [⟨s.label.map Lexeme.text, v.position⟩])) :
    Ends (attachScalar v s) (fun _ t => Stays ls s.started t) (Blamed ls s.started) := by
  have hlabel : Sited ls { s with label := none } := h.of_frames rfl (by simp) hs
  have htag : (v.rename (s.label.map Lexeme.text)).tag = ⟨s.label.map Lexeme.text, v.position⟩ := by
    cases v <;> rfl
  rw [← htag] at hlead
  rw [attachScalar_eq]
  exact hlabel.attach hs hword rfl (hv.rename _) hlead

/-- A word that ends is a value where it stands. -/
theorem Sited.completeWord (h : Sited ls s) (hlead : Leads ls none s)
    (hline : IsLine ls index text) (hw : ∀ w ∈ s.word, WordTo index text i w) :
    Ends (completeWord s) (fun _ t => Stays ls s.started t) (Blamed ls s.started) := by
  cases hword : s.word with
  | none =>
    rw [completeWord_of_none hword]
    exact ⟨h, hlead, hword, rfl⟩
  | some w =>
    have hs : s.started ≠ none := by
      intro hnone
      rw [h.idle hnone] at hword
      cases hword
    have hrest : Sited ls { s with word := none } := h.of_frames rfl h.label hs
    rw [completeWord_of_some hword]
    exact hrest.attachScalar hs rfl ((hw w hword).isAt hline)
      ((leads_iff_of_word (by rw [hword]; rfl)).1 hlead)

/-- What a character may leave: all is where it says, and a statement has
started there if none had before. -/
structure Moves (ls : List String) (index : Nat) (text : String) (i : Nat) (s t : Scanner) :
    Prop where
  sited : Sited ls t
  word : ∀ w ∈ t.word, WordTo index text (i + 1) w
  started : ∀ p ∈ t.started,
    p ∈ s.started ∨ s.started = none ∧ p = place (Position.ordinal index) i

theorem Stays.moves (h : Stays ls s.started t) : Moves ls index text i s t := by
  refine ⟨h.sited, ?_, ?_⟩
  · rw [h.word]
    simp
  · rw [h.started]
    exact fun p hp => .inl hp

/-- A word being read is written up to the next index when a character more
is read of it. -/
theorem WordTo.push {w : Lexeme} (h : WordTo index text i w)
    (hdrop : text.toList.drop i = c :: rest) :
    WordTo index text (i + 1) { w with text := w.text.push c } := by
  obtain ⟨-, k, hstart, hk⟩ := h
  refine ⟨fun hnil => ?_, k, hstart, ?_⟩
  · have hlist := congrArg String.toList hnil
    rw [String.toList_push] at hlist
    exact List.append_ne_nil_of_right_ne_nil _ (List.cons_ne_nil c []) hlist
  · rw [hk, hdrop, drop_succ_of_drop hdrop, String.toList_push, List.append_assoc]
    rfl

/-- Where the statement starts if it has not. -/
theorem mem_or {p p' : Position} {o : Option Position} (h : p' ∈ o.or (some p)) :
    p' ∈ o ∨ o = none ∧ p' = p := by
  cases o with
  | none =>
    cases h
    exact .inr ⟨rfl, rfl⟩
  | some p'' => exact .inl h

theorem or_ne_none (o : Option Position) (p : Position) : o.or (some p) ≠ none := by
  cases o <;> simp

theorem Sited.extendWord (h : Sited ls s) (hlead : Leads ls none s)
    (hw : ∀ w ∈ s.word, WordTo index text i w) (hdrop : text.toList.drop i = c :: rest) :
    Ends (extendWord c (place (Position.ordinal index) i) s)
      (fun _ t => Moves ls index text i s t ∧ Leads ls none t) (Blamed ls s.started) := by
  cases hword : s.word with
  | none =>
    rw [extendWord_of_none hword]
    refine ⟨⟨h.of_frames rfl h.label (or_ne_none _ _), fun w hmem => ?_, fun p hp => mem_or hp⟩,
      (leads_iff_of_word rfl).2 (hlead.begin hword h.idle _)⟩
    cases hmem
    refine ⟨by simp [← String.toList_eq_nil_iff], i, rfl, ?_⟩
    rw [hdrop, drop_succ_of_drop hdrop]
    simp
  | some w =>
    have hs : s.started ≠ none := by
      intro hnone
      rw [h.idle hnone] at hword
      cases hword
    have hlead' := (leads_iff_of_word (by rw [hword]; rfl)).1 hlead
    rw [extendWord_of_some hword]
    refine ⟨⟨h.of_frames rfl h.label hs, fun w' hmem => ?_, fun p hp => .inl hp⟩,
      (leads_iff_of_word (w := { w with text := w.text.push c }) rfl).2 hlead'⟩
    cases hmem
    exact (hw w hword).push hdrop

theorem Sited.openArray (h : Sited ls s) (hlead : Leads ls none s) (hword : s.word = none)
    (hshows : Shows ls (place (Position.ordinal index) i) ['(']) :
    Ends (openArray (place (Position.ordinal index) i) s)
      (fun _ t => Moves ls index text i s t ∧ Leads ls none t) (Blamed ls s.started) := by
  obtain ⟨f, more, hf⟩ := h.rooted.exists_cons
  rw [openArray_eq]
  split
  · exact hshows
  · refine ⟨⟨⟨List.forall_mem_cons.2 ⟨by simp, h.values⟩, ?_, by simp,
      List.forall_mem_cons.2 ⟨rfl, h.flagged⟩, ?_, fun hnone => absurd hnone (or_ne_none _ _)⟩, ?_,
      fun p hp => mem_or hp⟩, leads_open h.rooted hword (hlead.begin hword h.idle _)⟩
    · change ∀ x ∈ (List.dropLast (_ :: s.frames)).map Frame.tag, _
      rw [List.dropLast_cons_of_ne_nil (by simp [hf]), List.map_cons]
      exact List.forall_mem_cons.2 ⟨hshows, h.parens⟩
    · obtain ⟨frames, word, label, started⟩ := s
      obtain rfl : frames = f :: more := hf
      exact rooted_cons_iff.2 h.rooted
    · change ∀ w ∈ s.word, _
      rw [hword]
      simp

theorem Sited.closeArray (h : Sited ls s) (hlead : Leads ls none s) (hword : s.word = none)
    (hshows : Shows ls (place (Position.ordinal index) i) [')']) :
    Ends (closeArray (place (Position.ordinal index) i) s) (fun _ t => Stays ls s.started t)
      (Blamed ls s.started) := by
  obtain ⟨-, hout⟩ | ⟨f, g, more, hf, ⟨l, hlabel, hout⟩ | ⟨hlabel, hout⟩⟩ :=
    closeArray_cases (place (Position.ordinal index) i) s
  · rw [hout]
    exact hshows
  · rw [hout]
    exact h.label l hlabel
  · have hs : s.started ≠ none := by
      intro hnone
      rw [h.idle hnone] at hf
      cases hf
    have hparens := h.parens
    have hvalues := h.values
    unfold Holds at hvalues
    rw [hf] at hparens hvalues
    obtain ⟨hparen, hparens⟩ := List.forall_mem_cons.1 hparens
    have houter : Sited ls { s with frames := g :: more } := by
      refine ⟨(List.forall_mem_cons.1 hvalues).2, hparens, h.label, ?_, ?_,
        fun hnone => absurd hnone hs⟩
      · have hflagged := h.flagged
        rw [hf] at hflagged
        exact (List.forall_mem_cons.1 hflagged).2
      · obtain ⟨frames, word, label, started⟩ := s
        obtain rfl : frames = f :: g :: more := hf
        exact rooted_cons_iff.1 h.rooted
    -- the array stands where its frame did
    have hlead' : LeadsWith ls s.started (heads (g :: more) ++ [f.tag]) := by
      unfold Leads at hlead
      rw [pending_eq_nil hlabel (by rw [hword]; rfl), List.append_nil, hf] at hlead
      exact hlead
    rw [hout]
    exact houter.attach hs hword hlabel hparen hlead'

theorem Sited.takeLabel (h : Sited ls s) (hlead : Leads ls none s) (hline : IsLine ls index text)
    (hw : ∀ w ∈ s.word, WordTo index text i w) (hdrop : text.toList.drop i = ':' :: rest) :
    Ends (takeLabel (place (Position.ordinal index) i) s)
      (fun _ t => Moves ls index text i s t ∧ Leads ls none t) (Blamed ls s.started) := by
  have hshows := hline.shows_char hdrop
  cases hlabel : s.label with
  | some l =>
    rw [takeLabel_of_label hlabel]
    exact hshows
  | none =>
    cases hword : s.word with
    | none =>
      rw [takeLabel_of_none hlabel hword]
      exact hshows
    | some w =>
      have hs : s.started ≠ none := by
        intro hnone
        rw [h.idle hnone] at hword
        cases hword
      obtain ⟨hne, k, hstart, hk⟩ := hw w hword
      have hname : Shows ls w.start (w.text.toList ++ [':']) := by
        have htext : text.toList.drop k = (w.text.toList ++ [':']) ++ rest := by
          rw [hk, hdrop, List.append_assoc]
          rfl
        rw [hstart]
        exact hline.shows htext (by simp)
      rw [takeLabel_of_some hlabel hword]
      refine ⟨⟨h.of_frames rfl (fun l hl => ?_) hs, by simp, fun p hp => .inl hp⟩,
        leads_label hlead hlabel hword hname⟩
      cases hl
      exact ⟨hne, hname⟩

/-- A command word is written where it says. -/
theorem writtenAt_of_toStatement {command : Value} {arguments : List Value} {made : Statement}
    (h : toStatement p command arguments = .ok made) (hv : command.IsAt ls) :
    WrittenAt ls made.position made.name := by
  unfold toStatement at h
  split at h
  · cases h
    exact hv
  · cases h

/-- A value that is no command word is at fault. -/
theorem blamed_of_toStatement {command : Value} {arguments : List Value} {e : ScanError}
    (h : toStatement p command arguments = .error e) (hs : s.started ≠ none)
    (hv : command.IsAt ls) (hfirst : ∀ a ∈ s.started, BeginsAt ls a command.tag) :
    Blamed ls s.started e t := by
  unfold toStatement at h
  split at h
  · cases h
  · rename_i hno
    cases h
    refine ⟨hs, fun a ha => ⟨command, rfl, hv, ?_, hfirst a ha⟩⟩
    cases command with
    | array tag items => exact .inr rfl
    | scalar tag kind text =>
      obtain ⟨name, position⟩ := tag
      cases name with
      | none => exact absurd rfl (hno position kind text)
      | some name => exact .inl rfl

theorem Sited.completeStatement (h : Sited ls s) (hlead : Leads ls none s)
    (hword : s.word = none) :
    Ends (completeStatement p s) (fun made t => t = {} ∧ ∀ m ∈ made, WrittenAt ls m.position m.name)
      (Blamed ls s.started) := by
  obtain ⟨a, ha, hout⟩ | ⟨l, hlabel, hout⟩ | ⟨hnil, -⟩ | ⟨f, hf, hlabel⟩ :=
    completeStatement_cases p s
  · rw [hout]
    exact h.parens a.tag (List.mem_map_of_mem ha)
  · rw [hout]
    exact h.label l hlabel
  · obtain ⟨f, more, hf⟩ := h.rooted.exists_cons
    rw [hnil] at hf
    cases hf
  · have hempty : { s with started := none, frames := [f.clear] } = ({} : Scanner) := by
      rw [Frame.clear_eq (h.rooted.tag_eq hf), hlabel, hword]
    rw [completeStatement_eq hf hlabel, hempty]
    cases hitems : f.items.reverse with
    | nil => exact ⟨rfl, by simp⟩
    | cons command arguments =>
      have hmem : command ∈ f.items := List.mem_reverse.1 (hitems ▸ List.mem_cons_self)
      have hcommand : command.IsAt ls := h.values f (by simp [hf]) command hmem
      have hs : s.started ≠ none := by
        intro hnone
        rw [h.idle hnone] at hf
        cases hf
        cases hmem
      -- outside arrays there are the values only
      have hfirst : ∀ a ∈ s.started, BeginsAt ls a command.tag := by
        intro a ha
        obtain ⟨x, hx, hbegins⟩ := hlead a ha
        rw [pending_eq_nil hlabel (by rw [hword]; rfl), List.append_nil, hf] at hx
        change x ∈ (f.items.reverse.map Value.tag).head? at hx
        rw [hitems] at hx
        cases hx
        exact hbegins
      dsimp only
      cases hmade : toStatement p command arguments with
      | error e => exact blamed_of_toStatement hmade hs hcommand hfirst
      | ok statement =>
        refine ⟨rfl, fun m hm => ?_⟩
        cases hm
        exact writtenAt_of_toStatement hmade hcommand

/-- The quoted text that a character opens. -/
def opened (c : Char) (p : Position) : Option Lexeme :=
  match CharClass.of c with
  | .quote => some ⟨"", p⟩
  | _ => none

/-- **A character ends no worse**: what it leaves is where it says, and so is
the command word of a statement that it ends. -/
theorem Sited.step (h : Sited ls s) (hlead : Leads ls none s) (hline : IsLine ls index text)
    (hw : ∀ w ∈ s.word, WordTo index text i w) (hdrop : text.toList.drop i = c :: rest) :
    Ends (step c (place (Position.ordinal index) i) s)
      (fun made t => (Moves ls index text i s t ∧
        Leads ls (opened c (place (Position.ordinal index) i)) t) ∧
          ∀ m ∈ made, WrittenAt ls m.position m.name)
      (Blamed ls s.started) := by
  have hshows := hline.shows_char hdrop
  have hclass := CharClass.eq_of_mark (c := c)
  have hword := h.completeWord hlead hline hw
  -- a step that ends the word first goes on where no word is being read
  have hafter : ∀ {f : Unit → ScanM (Option Statement)} {Q : Option Statement → Scanner → Prop},
      (∀ t, Stays ls s.started t → Ends (f () t) Q (Blamed ls s.started)) →
        Ends ((Scanner.completeWord >>= f) s) Q (Blamed ls s.started) :=
    fun hf => hword.bind fun _ t ht => hf t ht
  -- and a step that ends no statement only moves
  have hquiet : ∀ {x : ScanM Unit} {t : Scanner} {Q : Scanner → Prop},
      Ends (x t) (fun _ u => Q u) (Blamed ls s.started) →
        Ends ((x >>= fun _ => pure none) t) (fun (made : Option Statement) u =>
          Q u ∧ ∀ m ∈ made, WrittenAt ls m.position m.name) (Blamed ls s.started) :=
    fun hx => hx.bind fun _ u hu => ⟨hu, by simp⟩
  have hmoves : ∀ {t u : Scanner}, t.started = s.started → Moves ls index text i t u →
      Moves ls index text i s u := by
    intro t u ht hu
    refine ⟨hu.sited, hu.word, ?_⟩
    rw [← ht]
    exact hu.started
  unfold Scanner.step opened
  cases hc : CharClass.of c with
  | quote =>
    refine hafter fun t ht => hquiet ?_
    rw [markStarted_eq]
    refine ⟨⟨ht.sited.of_frames rfl ht.sited.label (or_ne_none _ _), ?_, fun p hp => ?_⟩,
      (leads_iff_of_word (by rw [ht.word]; rfl)).2 (ht.leads.begin ht.word ht.sited.idle _)⟩
    · change ∀ w ∈ t.word, _
      rw [ht.word]
      simp
    · rw [← ht.started]
      exact mem_or hp
  | comment | separator => exact hafter fun t ht => ⟨⟨ht.moves, ht.leads⟩, by simp⟩
  | terminator =>
    refine hafter fun t ht => ?_
    have hcomplete := ht.sited.completeStatement (p := place (Position.ordinal index) i)
      ht.leads ht.word
    rw [ht.started] at hcomplete
    refine hcomplete.mono (fun made u hu => ?_) fun _ _ he => he
    obtain ⟨rfl, hmade⟩ := hu
    exact ⟨⟨⟨sited_empty, by simp, by simp⟩, leads_empty none⟩, hmade⟩
  | openParen =>
    rw [hclass.2.2.2.1 hc] at hshows
    refine hafter fun t ht => hquiet ?_
    have hopen : Ends _ (fun _ u => Moves ls index text i t u ∧ Leads ls none u)
        (Blamed ls t.started) := ht.sited.openArray ht.leads ht.word hshows
    rw [ht.started] at hopen
    exact hopen.mono (fun _ u hu => ⟨hmoves ht.started hu.1, hu.2⟩) fun _ _ he => he
  | closeParen =>
    rw [hclass.2.2.2.2.1 hc] at hshows
    refine hafter fun t ht => hquiet ?_
    have hclose := ht.sited.closeArray ht.leads ht.word hshows
    rw [ht.started] at hclose
    exact hclose.mono (fun _ u hu => ⟨hu.moves, hu.leads⟩) fun _ _ he => he
  | colon =>
    rw [hclass.2.2.2.2.2 hc] at hdrop
    exact hquiet (h.takeLabel hlead hline hw hdrop)
  | word => exact hquiet (h.extendWord hlead hw hdrop)
  | other => exact ⟨hc, rfl, hshows⟩

/-! ## Scans -/

/-- The passage over the rest of a line and the lines below it. -/
def passRest (ls : List String) (index : Nat) (text : String) (i : Nat) (q : Option Lexeme)
    (s : Scanner) : Passage :=
  (passChars (Position.ordinal index) (text.toList.drop i) i q s).followedBy
    (passLines (ls.drop (index + 1)) (index + 1))

/-- To read on from a place with nothing read is to begin there. -/
theorem passFrom_place (hline : IsLine ls index text) (hdrop : text.toList.drop i = c :: rest) :
    passFrom ls (place (Position.ordinal index) i) = passRest ls index text i none {} := by
  have hi : i < text.length := lt_length_of_drop hdrop
  have hcolumns := hline.columns
  unfold passFrom passRest place
  rw [Position.ordinal_of_lt hline.line, Position.ordinal_of_lt (by omega)]
  simp only [Nat.add_sub_cancel, hline.get, Option.getD_some]
  rfl

/-- Behind a character that ends no statement the rest is what is left. -/
theorem passRest_of_step (ls : List String) (hdrop : text.toList.drop i = c :: rest)
    (h : step c (place (Position.ordinal index) i) s = .ok none t) :
    passRest ls index text i none s =
      match CharClass.of c with
      | .comment => passLines (ls.drop (index + 1)) (index + 1) t
      | .quote =>
        passRest ls index text (i + 1) (some ⟨"", place (Position.ordinal index) i⟩) t
      | _ => passRest ls index text (i + 1) none t := by
  unfold place at h
  unfold passRest
  rw [hdrop, passChars, h, drop_succ_of_drop hdrop]
  cases CharClass.of c <;> rfl

/-- **Within a line**: all is where it says, and the statement that is being
read is the one that whoever begins at its start reads. -/
structure Within (ls : List String) (index : Nat) (text : String) (i : Nat) (q : Option Lexeme)
    (s : Scanner) : Prop where
  sited : Sited ls s
  leads : Leads ls q s
  word : ∀ w ∈ s.word, WordTo index text i w
  quote : ∀ x ∈ q, QuoteTo index text i x ∧ s.word = none ∧ s.started ≠ none
  begun : ∀ p ∈ s.started,
    (∃ c, Shows ls p [c]) ∧ passFrom ls p = passRest ls index text i q s

/-- **Between lines** the same holds, and no word is being read. -/
structure Between (ls : List String) (index : Nat) (s : Scanner) : Prop where
  sited : Sited ls s
  leads : Leads ls none s
  word : s.word = none
  begun : ∀ p ∈ s.started,
    (∃ c, Shows ls p [c]) ∧ passFrom ls p = passLines (ls.drop index) index s

theorem between_empty (ls : List String) (index : Nat) : Between ls index {} :=
  ⟨sited_empty, leads_empty none, rfl, by simp⟩

theorem within_empty (ls : List String) (index : Nat) (text : String) (i : Nat) :
    Within ls index text i none {} :=
  ⟨sited_empty, leads_empty none, by simp, by simp, by simp⟩

/-- A line begins where the one above it has ended. -/
theorem Between.within (h : Between ls index s) (hget : ls[index]? = some text) :
    Within ls index text 0 none s := by
  refine ⟨h.sited, h.leads, ?_, by simp, fun p hp => ?_⟩
  · rw [h.word]
    simp
  · have hdrop : ls.drop index = text :: ls.drop (index + 1) := by
      rw [List.drop_eq_getElem?_toList_append, hget]
      rfl
    obtain ⟨hchar, hpass⟩ := h.begun p hp
    refine ⟨hchar, ?_⟩
    rw [hpass, hdrop]
    rfl

/-- The start of a statement is a place from which the rest is read, also
behind one more character. -/
theorem Within.begun_of_step (h : Within ls index text i none s) (hline : IsLine ls index text)
    (hdrop : text.toList.drop i = c :: rest) (hmoves : Moves ls index text i s t)
    (left : Passage) (hleft : passRest ls index text i none s = left) :
    ∀ p ∈ t.started, (∃ c, Shows ls p [c]) ∧ passFrom ls p = left := by
  intro p hp
  rcases hmoves.started p hp with hp | ⟨hnone, rfl⟩
  · rw [← hleft]
    exact h.begun p hp
  · refine ⟨⟨c, hline.shows_char hdrop⟩, ?_⟩
    rw [← hleft, passFrom_place hline hdrop, h.sited.idle hnone]

/-- No word is being read in a comment. -/
theorem word_of_comment {made : Option Statement} (hc : CharClass.of c = .comment)
    (h : Scanner.step c p s = .ok made t) : t.word = none := by
  unfold Scanner.step at h
  rw [hc] at h
  exact word_of_completeWord (bind_pure_eq_ok_iff.1 h).1

/-- No word is being read in a quoted text, and a statement has started. -/
theorem of_quote {made : Option Statement} (hc : CharClass.of c = .quote)
    (h : Scanner.step c p s = .ok made t) : t.word = none ∧ t.started ≠ none := by
  unfold Scanner.step at h
  rw [hc] at h
  obtain ⟨_, u, hu, h⟩ := bind_eq_ok_iff.1 h
  have hword : u.word = none := word_of_completeWord hu
  obtain ⟨h, -⟩ := bind_pure_eq_ok_iff.1 h
  rw [markStarted_eq] at h
  cases h
  exact ⟨hword, or_ne_none _ _⟩

/-- Where a line ends inside quotes, the text runs from its quote to the
end. -/
theorem Within.unterminated {q : Lexeme} (h : Within ls index text i (some q) s)
    (hline : IsLine ls index text) (hdrop : text.toList.drop i = []) :
    ScanFault.unterminatedText.At ls q.start := by
  obtain ⟨⟨hno, k, hstart, hk⟩, -, -⟩ := h.quote q rfl
  rw [hdrop, List.append_nil] at hk
  have hshows : Shows ls q.start ['"'] := by
    rw [hstart]
    exact hline.shows_char hk
  have hcolumns := hline.columns
  have hlt : k < text.length := lt_length_of_drop hk
  have hplace : q.start = ⟨index + 1, k + 1⟩ := by
    rw [hstart, place, Position.ordinal_of_lt hline.line, Position.ordinal_of_lt (by omega)]
  refine ⟨hshows.1, hshows.2.1, text, q.text.toList, ?_, ?_, hno⟩
  · rw [hplace]
    exact hline.get
  · rw [hplace]
    exact hk

/-- A fault within a line is where it says: whoever begins at the start of the
statement reads the rest of the line, too, and comes to the same fault. -/
theorem Within.at_of_blamed {e : ScanError} (h : Within ls index text i q s)
    (hfault : Blamed ls s.started e t)
    (hpass : passRest ls index text i q s = ⟨[], .error e t⟩) : e.fault.At ls e.position :=
  hfault.at fun a ha => (h.begun a ha).2.trans hpass

/-- Where a line ends outside quotes, its last word does. -/
theorem Within.between (h : Within ls index text i none s) (hline : IsLine ls index text)
    (hdrop : text.toList.drop i = []) :
    Ends (completeWord s) (fun _ t => Between ls (index + 1) t)
      fun e _ => e.fault.At ls e.position := by
  have hword := h.sited.completeWord h.leads hline h.word
  cases hc : completeWord s with
  | error e t =>
    rw [hc] at hword
    refine h.at_of_blamed hword ?_
    rw [passRest, hdrop, passChars, hc]
    rfl
  | ok _ t =>
    rw [hc] at hword
    refine ⟨hword.sited, hword.leads, hword.word, fun p hp => ?_⟩
    rw [hword.started] at hp
    obtain ⟨hchar, hpass⟩ := h.begun p hp
    refine ⟨hchar, ?_⟩
    rw [hpass, passRest, hdrop, passChars, hc]
    rfl

/-- A closing quote makes a value that is where it says. -/
theorem Within.closeQuote {q : Lexeme} (h : Within ls index text i (some q) s)
    (hline : IsLine ls index text) (hdrop : text.toList.drop i = '"' :: rest) :
    Ends (closeQuote q s) (fun _ t => Within ls index text (i + 1) none t)
      fun e _ => e.fault.At ls e.position := by
  obtain ⟨hquote, hnone, hs⟩ := h.quote q rfl
  have hlead := (leads_iff_of_word (by rw [hnone]; rfl)).1 h.leads
  have hclose : Ends (Scanner.closeQuote q s) (fun _ t => Stays ls s.started t)
      (Blamed ls s.started) :=
    (h.sited.attachScalar hs hnone (hquote.isAt hline hdrop) hlead).bind fun _ t ht => ht
  cases hout : Scanner.closeQuote q s with
  | error e t =>
    rw [hout] at hclose
    refine h.at_of_blamed hclose ?_
    rw [passRest, hdrop, passChars, if_pos rfl, hout]
    rfl
  | ok made t =>
    rw [hout] at hclose
    obtain rfl := made_of_closeQuote hout
    refine ⟨hclose.sited, hclose.leads, ?_, by simp, fun p hp => ?_⟩
    · rw [hclose.word]
      simp
    · rw [hclose.started] at hp
      obtain ⟨hchar, hpass⟩ := h.begun p hp
      refine ⟨hchar, ?_⟩
      rw [hpass, passRest, passRest, hdrop, passChars, if_pos rfl, hout, drop_succ_of_drop hdrop]
      rfl

/-- Any other character goes on with the quoted text. -/
theorem Within.extendQuote {q : Lexeme} (h : Within ls index text i (some q) s)
    (hdrop : text.toList.drop i = c :: rest) (hc : ¬ c = '"') :
    Within ls index text (i + 1) (some { q with text := q.text.push c }) s := by
  have hrest := drop_succ_of_drop hdrop
  obtain ⟨⟨hno, k, hstart, hk⟩, hnone, hs⟩ := h.quote q rfl
  have hlead := (leads_iff_of_word (by rw [hnone]; rfl)).1 h.leads
  have hlonger : Leads ls (some { q with text := q.text.push c }) s :=
    (leads_iff_of_word (w := { q with text := q.text.push c }) (by rw [hnone]; rfl)).2 hlead
  refine ⟨h.sited, hlonger, ?_, fun x hx => ?_, fun p hp => ?_⟩
  · rw [hnone]
    simp
  · cases hx
    refine ⟨⟨?_, k, hstart, ?_⟩, hnone, hs⟩
    · rw [String.toList_push, List.mem_append, List.mem_singleton, not_or]
      exact ⟨hno, fun heq => hc heq.symm⟩
    · rw [hk, hdrop, hrest, String.toList_push, List.append_assoc]
      rfl
  · obtain ⟨hchar, hpass⟩ := h.begun p hp
    refine ⟨hchar, ?_⟩
    rw [hpass, passRest, passRest, hdrop, passChars, if_neg hc, hrest]

/-- What a scan of a line leaves. -/
def Scanned (ls : List String) (index : Nat) (out : Scan) (t : Scanner) : Prop :=
  match out with
  | .statement made _ => WrittenAt ls made.position made.name
  | .endOfLine => Between ls (index + 1) t

/-- Characters carry along that all is where it says, and end no statement but one
whose command word is. -/
theorem carries_within (hline : IsLine ls index text) : Carries (Position.ordinal index)
    (fun cs i q s => text.toList.drop i = cs ∧ Within ls index text i q s) (Scanned ls index)
    fun e _ => e.fault.At ls e.position where
  unterminated h := h.2.unterminated hline h.1
  lineEnd h := h.2.between hline h.1
  quoted hc h := ⟨drop_succ_of_drop h.1, h.2.extendQuote h.1 hc⟩
  closeQuote h := (h.2.closeQuote hline h.1).mono (fun _ _ ht => ⟨drop_succ_of_drop h.1, ht⟩)
    fun _ _ he => he
  step := by
    rintro c rest i s ⟨hdrop, h⟩
    have hrest := drop_succ_of_drop hdrop
    refine (h.sited.step h.leads hline h.word hdrop).with_eq.mono (fun made t ht => ?_)
      fun e t he => ?_
    · obtain ⟨hout, ⟨hmoves, hlead⟩, hmade⟩ := ht
      cases made with
      | some made => exact hmade made rfl
      | none =>
        have hleft := passRest_of_step ls hdrop hout
        have hbegun := fun left hleft => h.begun_of_step hline hdrop hmoves left hleft
        unfold opened at hlead
        unfold Behind
        cases hc : CharClass.of c with
        | comment =>
          rw [hc] at hleft hlead
          exact ⟨hmoves.sited, hlead, word_of_comment hc hout, hbegun _ hleft⟩
        | quote =>
          rw [hc] at hleft hlead
          refine ⟨hrest, hmoves.sited, hlead, hmoves.word, fun x hx => ?_, hbegun _ hleft⟩
          cases hx
          refine ⟨⟨List.not_mem_nil, i, rfl, ?_⟩, of_quote hc hout⟩
          rw [hdrop, hrest, CharClass.eq_of_mark.1 hc]
          rfl
        | _ =>
          rw [hc] at hleft hlead
          exact ⟨hrest, hmoves.sited, hlead, hmoves.word, by simp, hbegun _ hleft⟩
    · obtain ⟨hout, hblamed⟩ := he
      refine h.at_of_blamed hblamed ?_
      unfold place at hout
      rw [passRest, hdrop, passChars, hout]
      rfl

/-- **A scan of a line**, from wherever on it the scanner is. -/
theorem Within.scan (h : Within ls index text i none s) (hline : IsLine ls index text) :
    Ends (scan text (Position.ordinal index) i s) (Scanned ls index)
      fun e _ => e.fault.At ls e.position :=
  (carries_within hline).scanChars ⟨rfl, h⟩

/-- **At the end of the script** a statement that has started is at fault. -/
theorem Between.finish (h : Between ls index s) (hend : ls.drop index = []) :
    Ends (finish s) (fun _ _ => True) fun e _ => e.fault.At ls e.position := by
  rw [finish_eq]
  cases hstarted : s.started with
  | none => trivial
  | some p =>
    obtain ⟨hchar, hpass⟩ := h.begun p hstarted
    refine ⟨hchar, ?_⟩
    rw [hpass, hend, passLines, finish_eq, hstarted]

end Scanner

end CommandScript
