import CommandScript.Proofs.Statement.Passage

/-!
# What every state of the scanner keeps

A scanner is used line after line, and goes on after a fault with the state
the fault left. An invariant has to survive all that. It does if each
character keeps it and so does each value that ends (`Invariant`): then every
scan keeps it (`Invariant.scan`), failed or not, and every state that scans
lead to has it (`Invariant.of_reachable`). A character keeps what each of the
few things does that characters are made of (`Steady.step`), so an invariant
is shown by one fact for each of these (`Steady.invariant`). What holds of
all values that a scanner can build is such an invariant (`invariant_holds`).
-/

namespace CommandScript

namespace Scanner

variable {s t : Scanner} {v : Value} {p : Position}

/-- **The states of a scanner**: those that scans lead to, and the ends of
scripts, whether or not they fail. -/
inductive Reachable : Scanner → Prop
  | empty : Reachable {}
  | scan {s : Scanner} (text : String) (line start : Nat) :
      Reachable s → Reachable (last (scan text line start s))
  | finish {s : Scanner} : Reachable s → Reachable (last (finish s))

/-- **What the scanner's steps keep**, failed ones too, and what holds of the
statements that they end. -/
structure Invariant (I : Scanner → Prop) (Q : Statement → Prop) : Prop where
  /-- Nothing has been read. -/
  empty : I {}
  /-- A character outside quotes. -/
  step (c : Char) (p : Position) (s : Scanner) : I s → I (last (step c p s))
  /-- A semicolon that ends a statement. -/
  made (c : Char) (p : Position) (s t : Scanner) (made : Statement) :
    I s → Scanner.step c p s = .ok (some made) t → Q made
  /-- A closing quote, which is the first behind the opening one. -/
  closeQuote (q : Lexeme) (s : Scanner) :
    '"' ∉ q.text.toList → I s → I (last (closeQuote q s))
  /-- The end of a line. -/
  completeWord (s : Scanner) : I s → I (last (completeWord s))

variable {I : Scanner → Prop} {Q : Statement → Prop} {line : Nat}

namespace Invariant

/-- Characters carry the invariant along, and that a quoted text has no quote. -/
theorem carries (h : Invariant I Q) :
    Carries line (fun _ _ q s => (∀ x ∈ q, '"' ∉ x.text.toList) ∧ I s)
      (fun out t => I t ∧ ∀ made resume, out = .statement made resume → Q made) fun _ t => I t where
  unterminated hs := hs.2
  lineEnd := by
    rintro i s ⟨-, hs⟩
    exact (ends_last_iff.2 (h.completeWord s hs)).mono
      (fun _ t ht => ⟨ht, fun _ _ hout => by cases hout⟩) fun _ _ ht => ht
  quoted := by
    rintro c rest i q s hc ⟨hopen, hs⟩
    refine ⟨fun x hx => ?_, hs⟩
    cases hx
    rw [String.toList_push, List.mem_append, List.mem_singleton, not_or]
    exact ⟨hopen q rfl, hc.symm⟩
  closeQuote := by
    rintro rest i q s ⟨hopen, hs⟩
    exact (ends_last_iff.2 (h.closeQuote q s (hopen q rfl) hs)).mono
      (fun _ t ht => ⟨by simp, ht⟩) fun _ _ ht => ht
  step := by
    rintro c rest i s ⟨-, hs⟩
    refine (ends_last_iff.2 (h.step c _ s hs)).with_eq.mono (fun made t ht => ?_) fun _ _ he => he.2
    obtain ⟨hout, ht⟩ := ht
    cases made with
    | some made =>
      refine ⟨ht, fun made' resume hmade => ?_⟩
      cases hmade
      exact h.made _ _ _ _ _ hs hout
    | none =>
      unfold Behind
      cases CharClass.of c with
      | comment => exact ⟨ht, fun _ _ hmade => by cases hmade⟩
      | quote => exact ⟨fun x hx => by cases hx; exact List.not_mem_nil, ht⟩
      | _ => exact ⟨by simp, ht⟩

/-- **A scan keeps the invariant**, and so does what it ends. -/
theorem scan (h : Invariant I Q) (text : String) (start : Nat) (hs : I s) :
    Ends (scan text line start s)
      (fun out t => I t ∧ ∀ made resume, out = .statement made resume → Q made) fun _ t => I t :=
  h.carries.scanChars ⟨by simp, hs⟩

theorem finish (h : Invariant I Q) (hs : I s) : I (last (finish s)) := by
  rw [finish_eq]
  cases s.started with
  | none => exact hs
  | some p => exact h.empty

/-- **Every state of a scanner has the invariant.** -/
theorem of_reachable (h : Invariant I Q) (hs : Reachable s) : I s := by
  induction hs with
  | empty => exact h.empty
  | scan text line start _ ih =>
    exact ends_last_iff.1 ((h.scan text start ih).mono (fun _ _ ht => ht.1) fun _ _ ht => ht)
  | finish _ ih => exact h.finish ih

end Invariant

/-! ## What steps are made of -/

/-- **What a character cannot break**: all that characters do keeps it,
whether or not it fails. -/
structure Steady (I : Scanner → Prop) : Prop where
  markStarted (p : Position) (s : Scanner) : I s → I (last (markStarted p s))
  extendWord (c : Char) (p : Position) (s : Scanner) :
    CharClass.of c = .word → I s → I (last (extendWord c p s))
  completeWord (s : Scanner) : I s → I (last (completeWord s))
  openArray (p : Position) (s : Scanner) : I s → I (last (openArray p s))
  closeArray (p : Position) (s : Scanner) : I s → I (last (closeArray p s))
  takeLabel (p : Position) (s : Scanner) : I s → I (last (takeLabel p s))
  /-- No word is being read where a semicolon counts. -/
  completeStatement (p : Position) (s : Scanner) :
    s.word = none → I s → I (last (completeStatement p s))

/-- An answer after a step changes nothing. -/
theorem last_bind_pure {α β : Type} (x : ScanM α) (b : β) (s : Scanner) :
    last ((x >>= fun _ => pure b) s) = last (x s) := by
  rw [bind_eq]
  cases x s <;> rfl

namespace Steady

/-- Behind the end of a word none is being read, and a step that keeps to
what is steady keeps to it. -/
theorem completeWord_bind {α : Type} (h : Steady I) (hs : I s) (k : Unit → ScanM α)
    (hk : ∀ t, t.word = none → I t → I (last (k () t))) :
    I (last ((Scanner.completeWord >>= k) s)) := by
  have hword := h.completeWord s hs
  rw [bind_eq]
  cases hout : Scanner.completeWord s with
  | error e t =>
    rw [hout] at hword
    exact hword
  | ok _ t =>
    rw [hout] at hword
    exact hk t (word_of_completeWord hout) hword

/-- **A character outside quotes keeps what is steady.** -/
theorem step (h : Steady I) (c : Char) (p : Position) (hs : I s) : I (last (step c p s)) := by
  unfold Scanner.step
  cases hc : CharClass.of c with
  | quote =>
    refine h.completeWord_bind hs _ fun t _ ht => ?_
    rw [last_bind_pure]
    exact h.markStarted p t ht
  | comment => exact h.completeWord_bind hs _ fun t _ ht => ht
  | terminator => exact h.completeWord_bind hs _ fun t hw ht => h.completeStatement p t hw ht
  | openParen =>
    refine h.completeWord_bind hs _ fun t _ ht => ?_
    rw [last_bind_pure]
    exact h.openArray p t ht
  | closeParen =>
    refine h.completeWord_bind hs _ fun t _ ht => ?_
    rw [last_bind_pure]
    exact h.closeArray p t ht
  | colon =>
    rw [last_bind_pure]
    exact h.takeLabel p s hs
  | separator => exact h.completeWord_bind hs _ fun t _ ht => ht
  | word =>
    rw [last_bind_pure]
    exact h.extendWord c p s hc hs
  | other => exact hs

/-- **An invariant is shown** by what is steady, and by what holds at the
outset, behind a closing quote and of the statements that end. -/
theorem invariant (h : Steady I) (hempty : I {})
    (hquote : ∀ (q : Lexeme) (s : Scanner), '"' ∉ q.text.toList → I s →
      I (last (attachScalar (Value.quoted q.text q.start) s)))
    (hmade : ∀ (p : Position) (s t : Scanner) (made : Statement), I s →
      Scanner.completeStatement p s = .ok (some made) t → Q made) :
    Invariant I Q where
  empty := hempty
  step c p _ hs := h.step c p hs
  made c p s t made hs hstep := by
    obtain ⟨u, hu, hstatement⟩ := completeStatement_of_step hstep
    have hword := h.completeWord s hs
    rw [hu] at hword
    exact hmade p u t made hword hstatement
  closeQuote q s hq hs := by
    unfold Scanner.closeQuote
    rw [last_bind_pure]
    exact hquote q s hq hs
  completeWord := h.completeWord

end Steady

/-! ## The values that a scanner holds -/

/-- A property of values that the scanner cannot break: words and quoted
texts have it, and so have arrays of values with it, whatever the names. -/
structure Composable (P : Value → Prop) : Prop where
  word (text : String) (p : Position) (n : Option String) : P ((Value.word text p).rename n)
  quoted (text : String) (p : Position) (n : Option String) : P ((Value.quoted text p).rename n)
  array (tag : Tag) (vs : List Value) : (∀ v ∈ vs, P v) → P (.array tag vs)

/-- All values that the scanner holds have the property. -/
def Holds (P : Value → Prop) (s : Scanner) : Prop :=
  ∀ f ∈ s.frames, ∀ v ∈ f.items, P v

variable {P : Value → Prop}

theorem Holds.push (h : Holds P s) (hv : P v) : Holds P (s.push v) := by
  unfold Scanner.push
  split
  · exact h
  · rename_i f rest hf
    unfold Holds at h
    rw [hf] at h
    obtain ⟨hfirst, hrest⟩ := List.forall_mem_cons.1 h
    exact List.forall_mem_cons.2 ⟨List.forall_mem_cons.2 ⟨hv, hfirst⟩, hrest⟩

theorem Holds.attach (h : Holds P s) (hv : P v) : Holds P (last (attach v s)) := by
  rw [attach_eq]
  split
  · exact h.push hv
  · exact h

theorem Holds.attachScalar (h : Holds P s) (hv : ∀ n, P (v.rename n)) :
    Holds P (last (attachScalar v s)) := by
  have hlabel : Holds P { s with label := none } := h
  rw [attachScalar_eq]
  exact hlabel.attach (hv _)

theorem Holds.completeWord (hP : Composable P) (h : Holds P s) :
    Holds P (last (completeWord s)) := by
  cases hw : s.word with
  | none =>
    rw [completeWord_of_none hw]
    exact h
  | some w =>
    have hword : Holds P { s with word := none } := h
    rw [completeWord_of_some hw]
    exact hword.attachScalar (hP.word _ _)

theorem Holds.extendWord {c : Char} (h : Holds P s) : Holds P (last (extendWord c p s)) := by
  cases hw : s.word with
  | none =>
    rw [extendWord_of_none hw]
    exact h
  | some w =>
    rw [extendWord_of_some hw]
    exact h

theorem Holds.openArray (h : Holds P s) : Holds P (last (openArray p s)) := by
  rw [openArray_eq]
  split
  · exact h
  · exact List.forall_mem_cons.2 ⟨by simp, h⟩

theorem Holds.closeArray (hP : Composable P) (h : Holds P s) : Holds P (last (closeArray p s)) := by
  obtain ⟨-, hout⟩ | ⟨f, g, rest, hf, ⟨l, -, hout⟩ | ⟨-, hout⟩⟩ := closeArray_cases p s
  · rw [hout]
    exact h
  · rw [hout]
    exact h
  · unfold Holds at h
    rw [hf] at h
    obtain ⟨hitems, hrest⟩ := List.forall_mem_cons.1 h
    have houter : Holds P { s with frames := g :: rest } := hrest
    rw [hout]
    exact houter.attach (hP.array _ _ fun v hv => hitems v (List.mem_reverse.1 hv))

theorem Holds.takeLabel (h : Holds P s) : Holds P (last (takeLabel p s)) := by
  cases hl : s.label with
  | some l =>
    rw [takeLabel_of_label hl]
    exact h
  | none =>
    cases hw : s.word with
    | none =>
      rw [takeLabel_of_none hl hw]
      exact h
    | some w =>
      rw [takeLabel_of_some hl hw]
      exact h

/-- A semicolon keeps the values or drops them. -/
theorem Holds.completeStatement (h : Holds P s) : Holds P (last (completeStatement p s)) := by
  obtain hout | ⟨-, hout⟩ | ⟨f, -, -, hout⟩ := last_completeStatement p s
  · rw [hout]
    exact h
  · rw [hout]
    exact h
  · rw [hout]
    exact List.forall_mem_singleton.2 (by simp [Frame.clear])

/-- A semicolon makes a statement of the values. -/
theorem Holds.arguments {made : Statement} (hP : Composable P) (h : Holds P s)
    (hmade : Scanner.completeStatement p s = .ok (some made) t) : P made.arguments := by
  obtain ⟨f, command, arguments, q, hf, hitems, hq⟩ := exists_arguments_of_completeStatement hmade
  rw [hq]
  refine hP.array _ _ fun v hv => h f (by simp [hf]) v (List.mem_reverse.1 ?_)
  rw [hitems]
  exact List.mem_cons_of_mem _ hv

theorem steady_holds (hP : Composable P) : Steady (Holds P) where
  markStarted _ _ h := h
  extendWord _ _ _ _ h := h.extendWord
  completeWord _ h := h.completeWord hP
  openArray _ _ h := h.openArray
  closeArray _ _ h := h.closeArray hP
  takeLabel _ _ h := h.takeLabel
  completeStatement _ _ _ h := h.completeStatement

/-- **What holds of all values that can be built holds of all that a scanner
builds**, the arguments of its statements among them. -/
theorem invariant_holds (hP : Composable P) :
    Invariant (Holds P) fun made => P made.arguments :=
  (steady_holds hP).invariant (by simp [Holds])
    (fun _ _ _ h => h.attachScalar (hP.quoted _ _)) fun _ _ _ _ h hmade => h.arguments hP hmade

end Scanner

/-! ## Statements -/

namespace Statement

/-- **The statements that a scanner can yield**, from whatever state it has
come to. -/
def IsScanned (made : Statement) : Prop :=
  ∃ (s t : Scanner) (text : String) (line start resume : Nat),
    s.Reachable ∧ Scanner.scan text line start s = .ok (.statement made resume) t

/-- What an invariant says of the statements that end holds of all. -/
theorem IsScanned.of_invariant {made : Statement} {I : Scanner → Prop} {Q : Statement → Prop}
    (h : made.IsScanned) (hinv : Scanner.Invariant I Q) : Q made := by
  obtain ⟨s, t, text, line, start, resume, hs, hscan⟩ := h
  exact ((hinv.scan text start (hinv.of_reachable hs)).ok hscan).2 made resume rfl

/-- What can be said of all values that can be built can be said of the
arguments of a statement. -/
theorem IsScanned.arguments {made : Statement} {P : Value → Prop} (h : made.IsScanned)
    (hP : Scanner.Composable P) : P made.arguments :=
  h.of_invariant (Scanner.invariant_holds hP)

theorem isScanned_of_statementsFrom {text : String} {line : Nat} : ∀ {rounds start : Nat}
    {s t : Scanner} {statements : List Statement}, s.Reachable →
      Scanner.statementsFrom text line rounds start s = .ok statements t →
        t.Reachable ∧ ∀ made ∈ statements, made.IsScanned := by
  intro rounds
  induction rounds with
  | zero =>
    intro start s t statements hs h
    cases h
    exact ⟨hs, by simp⟩
  | succ rounds ih =>
    intro start s t statements hs h
    obtain ⟨out, u, hscan, h⟩ := bind_eq_ok_iff.1 h
    have hu : u.Reachable := by
      have hlast := hs.scan text line start
      rw [hscan] at hlast
      exact hlast
    cases out with
    | endOfLine =>
      cases h
      exact ⟨hu, by simp⟩
    | statement made resume =>
      obtain ⟨more, w, hmore, h⟩ := bind_eq_ok_iff.1 h
      cases h
      obtain ⟨hw, hall⟩ := ih hu hmore
      refine ⟨hw, List.forall_mem_cons.2 ⟨?_, hall⟩⟩
      exact ⟨s, u, text, line, start, resume, hs, hscan⟩

theorem isScanned_of_statementsOfLines : ∀ {lines : List String} {index : Nat} {s t : Scanner}
    {statements : List Statement}, s.Reachable →
      Scanner.statementsOfLines lines index s = .ok statements t →
        ∀ made ∈ statements, made.IsScanned := by
  intro lines
  induction lines with
  | nil =>
    intro index s t statements _ h
    obtain ⟨-, rfl⟩ := bind_pure_eq_ok_iff.1 h
    simp
  | cons text rest ih =>
    intro index s t statements hs h
    obtain ⟨here, u, hhere, h⟩ := bind_eq_ok_iff.1 h
    obtain ⟨more, w, hmore, h⟩ := bind_eq_ok_iff.1 h
    cases h
    obtain ⟨hu, hall⟩ := isScanned_of_statementsFrom hs hhere
    exact List.forall_mem_append.2 ⟨hall, ih hu hmore⟩

/-- **The statements of a script are scanned.** -/
theorem isScanned_of_readAll {source : String} {statements : List Statement}
    (h : readAll source = .ok statements) : ∀ made ∈ statements, made.IsScanned := by
  unfold readAll at h
  cases hrun : (Scanner.statementsOfLines (Text.lines source) 0).run {} with
  | error e t =>
    rw [hrun] at h
    cases h
  | ok found t =>
    rw [hrun] at h
    cases h
    exact isScanned_of_statementsOfLines .empty hrun

end Statement

end CommandScript
