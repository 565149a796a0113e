import CommandScript.Proofs.Signature.Spelling
import CommandScript.Proofs.Statement.Arguments
import CommandScript.Proofs.Statement.Frames
import CommandScript.Proofs.Statement.Sites

/-!
# A scanner under any calls

A scanner may be called in any order, with any texts, and go on after faults.
Whatever the calls, its state is sound (`sound_after_calls`). The root is there
for the next value to go into, so that no call brings a defect to light; only
so many arrays are open; and what a scan yields is in order, the statement and
where the rest starts. And between statements nothing is left of what was read
before, so that the calls that follow are answered as by a fresh scanner
(`Idle`). For every step that reads something of a statement marks where it
starts, failing steps included, and only what leaves nothing behind takes the
mark away.
-/

namespace CommandScript

namespace Scanner

variable {s t : Scanner} {v : Value} {p : Position} {line : Nat}

/-! ## Between statements -/

/-- **Nothing is left between statements**: where none has started, nothing has
been read. -/
structure Idle (s : Scanner) : Prop where
  /-- The root is there. -/
  rooted : Rooted s
  /-- It is empty, and all the rest, too. -/
  eq_empty : s.started = none → s = {}

theorem idle_empty : Idle {} := ⟨rooted_empty, fun _ => rfl⟩

theorem idle_of_ne_none (hroot : Rooted s) (h : s.started ≠ none) : Idle s :=
  ⟨hroot, fun hnone => absurd hnone h⟩

theorem started_attach (v : Value) (s : Scanner) : (last (attach v s)).started = s.started := by
  rw [attach_eq]
  split
  · exact started_push s v
  · rfl

theorem started_attachScalar (v : Value) (s : Scanner) :
    (last (attachScalar v s)).started = s.started := by
  rw [attachScalar_eq]
  exact started_attach _ _

theorem started_completeWord (s : Scanner) : (last (completeWord s)).started = s.started := by
  cases hw : s.word with
  | none => rw [completeWord_of_none hw]; rfl
  | some w =>
    rw [completeWord_of_some hw]
    exact started_attachScalar _ _

/-- A step that keeps the mark leaves nothing behind, if it reads nothing of
nothing. -/
theorem Idle.of_started (h : Idle s) (hroot : Rooted t) (hstarted : t.started = s.started)
    (hempty : s = {} → t = {}) : Idle t :=
  ⟨hroot, fun hnone => hempty (h.eq_empty (hstarted.symm.trans hnone))⟩

theorem Idle.completeWord (h : Idle s) : Idle (last (completeWord s)) := by
  refine h.of_started h.rooted.completeWord.rooted (started_completeWord s) ?_
  rintro rfl
  rfl

theorem Idle.closeArray (h : Idle s) : Idle (last (closeArray p s)) := by
  have hroot := (h.rooted.closeArray p).rooted
  obtain ⟨-, hout⟩ | ⟨f, g, rest, hf, hclose⟩ := closeArray_cases p s
  · rw [hout]
    exact h
  · -- a statement has started, for an array is open
    have hs : s.started ≠ none := by
      intro hnone
      rw [h.eq_empty hnone] at hf
      cases hf
    refine idle_of_ne_none hroot ?_
    obtain ⟨l, -, hout⟩ | ⟨-, hout⟩ := hclose
    · rw [hout]
      exact hs
    · rw [hout, started_attach]
      exact hs

theorem Idle.takeLabel (h : Idle s) : Idle (last (takeLabel p s)) := by
  have hroot := (h.rooted.takeLabel p).rooted
  cases hl : s.label with
  | some l =>
    rw [takeLabel_of_label hl]
    exact h
  | none =>
    cases hw : s.word with
    | none =>
      rw [takeLabel_of_none hl hw]
      exact h
    | some w =>
      refine h.of_started hroot ?_ ?_
      · rw [takeLabel_of_some hl hw]
        rfl
      · rintro rfl
        cases hw

theorem Idle.extendWord (c : Char) (h : Idle s) : Idle (last (extendWord c p s)) := by
  have hroot := (h.rooted.extendWord c p).rooted
  cases hw : s.word with
  | none =>
    refine idle_of_ne_none hroot ?_
    rw [extendWord_of_none hw]
    exact or_ne_none _ _
  | some w =>
    refine h.of_started hroot ?_ ?_
    · rw [extendWord_of_some hw]
      rfl
    · rintro rfl
      cases hw

theorem Idle.openArray (h : Idle s) : Idle (last (openArray p s)) := by
  have hroot := (h.rooted.openArray p).rooted
  rw [openArray_eq] at hroot ⊢
  split
  · exact h
  · rename_i hle
    rw [if_neg hle] at hroot
    exact idle_of_ne_none hroot (or_ne_none _ _)

/-- A semicolon keeps the mark or leaves nothing behind. -/
theorem Idle.completeStatement (h : Idle s) (hw : s.word = none) :
    Idle (last (completeStatement p s)) := by
  obtain hout | ⟨hnil, -⟩ | ⟨f, hf, hl, hout⟩ := last_completeStatement p s
  · rw [hout]
    exact h
  · obtain ⟨f, rest, hf⟩ := h.rooted.exists_cons
    rw [hnil] at hf
    cases hf
  · rw [hout, Frame.clear_eq (h.rooted.tag_eq hf), hl, hw]
    exact idle_empty

/-- **A character leaves nothing behind between statements.** -/
theorem steady_idle : Steady Idle where
  markStarted _ _ h := idle_of_ne_none h.rooted (or_ne_none _ _)
  extendWord c _ _ _ h := h.extendWord c
  completeWord _ h := h.completeWord
  openArray _ _ h := h.openArray
  closeArray _ _ h := h.closeArray
  takeLabel _ _ h := h.takeLabel
  completeStatement _ _ hw h := h.completeStatement hw

/-- Characters leave nothing behind between statements. Inside quotes a statement
has started. -/
theorem carries_idle : Carries line
    (fun _ _ q s => Idle s ∧ (q ≠ none → s.started ≠ none)) (fun _ t => Idle t)
    fun _ t => Idle t where
  unterminated h := h.1
  lineEnd h := ends_last_iff.2 h.1.completeWord
  quoted _ h := ⟨h.1, fun _ => h.2 (by simp)⟩
  closeQuote := by
    rintro rest i q s ⟨h, hs⟩
    have hquote : Idle (last (closeQuote q s)) := by
      unfold closeQuote
      rw [last_bind_pure]
      refine idle_of_ne_none (h.rooted.attachScalar _).rooted ?_
      rw [started_attachScalar]
      exact hs (by simp)
    exact (ends_last_iff.2 hquote).mono (fun _ _ ht => ⟨ht, fun hnone => absurd rfl hnone⟩)
      fun _ _ ht => ht
  step := by
    rintro c rest i s ⟨h, -⟩
    refine (ends_last_iff.2 (steady_idle.step c _ h)).with_eq.mono (fun made t ht => ?_)
      fun _ _ he => he.2
    obtain ⟨hout, ht⟩ := ht
    cases made with
    | some made => exact ht
    | none =>
      unfold Behind
      cases hc : CharClass.of c with
      | comment => exact ht
      -- a quoted text is no part of the state, but it has marked the start
      | quote => exact ⟨ht, fun _ => (of_quote hc hout).2⟩
      | _ => exact ⟨ht, fun hnone => absurd rfl hnone⟩

/-- **A scan leaves nothing behind between statements.** -/
theorem Idle.scan (h : Idle s) (text : String) (line start : Nat) :
    Idle (last (scan text line start s)) :=
  ends_last_iff.1 (carries_idle.scanChars ⟨h, fun hnone => absurd rfl hnone⟩)

theorem last_finish (h : Idle s) : last (finish s) = {} := by
  rw [finish_eq]
  cases hs : s.started with
  | none => exact h.eq_empty hs
  | some p => rfl

/-- **No state of a scanner has anything left between statements.** -/
theorem Reachable.idle (h : Reachable s) : Idle s := by
  induction h with
  | empty => exact idle_empty
  | scan text line start _ ih => exact ih.scan text line start
  | finish _ ih =>
    rw [last_finish ih]
    exact idle_empty

/-! ## Calls -/

/-- A call of a scanner: to scan a text as some line, from some index on, to end
the script, to forget what has been read, or to tell whether a statement has
started. -/
inductive Call where
  | scan (text : String) (line start : Nat)
  | finish
  | reset
  | inStatement

/-- The answer to a call. -/
inductive Reply where
  | scanned (result : Except ScanError Scan)
  | finished (result : Except ScanError Unit)
  | done
  | inStatement (started : Bool)

/-- What a step answers, its state aside. -/
def answer {α : Type} : EStateM.Result ScanError Scanner α → Except ScanError α
  | .ok a _ => .ok a
  | .error e _ => .error e

theorem answer_eq_ok {α : Type} {a : α} {out : EStateM.Result ScanError Scanner α}
    (h : answer out = .ok a) : ∃ t, out = .ok a t := by
  cases out with
  | ok b t =>
    cases h
    exact ⟨t, rfl⟩
  | error e t => cases h

theorem answer_eq_error {α : Type} {e : ScanError} {out : EStateM.Result ScanError Scanner α}
    (h : answer out = .error e) : ∃ t, out = .error e t := by
  cases out with
  | ok a t => cases h
  | error d t =>
    cases h
    exact ⟨t, rfl⟩

/-- The answer to a safe step is no defect. -/
theorem Safe.isDefect {α : Type} {e : ScanError} {out : EStateM.Result ScanError Scanner α}
    (h : Safe out) (he : answer out = .error e) : e.fault.isDefect = false := by
  obtain ⟨t, rfl⟩ := answer_eq_error he
  exact h.1

/-- The answer to a call. -/
def Call.reply (s : Scanner) : Call → Reply
  | scan text line start => .scanned (answer (Scanner.scan text line start s))
  | finish => .finished (answer (Scanner.finish s))
  | reset => .done
  | inStatement => .inStatement s.inStatement

/-- The state behind a call, failed or not. -/
def Call.next (s : Scanner) : Call → Scanner
  | scan text line start => last (Scanner.scan text line start s)
  | finish => last (Scanner.finish s)
  | reset => {}
  | inStatement => s

/-- The state behind calls. -/
def after (calls : List Call) (s : Scanner) : Scanner :=
  calls.foldl Call.next s

/-- The answers to calls, in order. -/
def replies : List Call → Scanner → List Reply
  | [], _ => []
  | call :: calls, s => call.reply s :: replies calls (call.next s)

theorem Reachable.after {calls : List Call} (h : Reachable s) : Reachable (after calls s) := by
  induction calls generalizing s with
  | nil => exact h
  | cons call calls ih =>
    cases call with
    | scan text line start => exact ih (h.scan text line start)
    | finish => exact ih h.finish
    | reset => exact ih .empty
    | inStatement => exact ih h

/-! ## Soundness -/

/-- **A sound state of a scanner.** -/
structure Sound (s : Scanner) : Prop where
  /-- Its frames come about by edits from the root of a fresh scanner. -/
  frames : Edits [{}] s.frames
  /-- The root is still there, below all open arrays. -/
  root : ∃ root, s.frames.getLast? = some root ∧ root.tag = {}
  /-- The flag of each frame says whether a value in it has a name. -/
  flagged : ∀ f ∈ s.frames, f.Flagged
  /-- A value finds a frame to go into, and nothing but its want of a name keeps
  it from there. -/
  attach (v : Value) : ∃ f outer, s.frames = f :: outer ∧
    Scanner.attach v s =
      if v.name.isSome || !f.named then .ok () { s with frames := f.push v :: outer }
      else .error ⟨.positionalAfterNamed, v.position⟩ s
  /-- Only so many arrays are open. -/
  arrays_le : s.frames.dropLast.length ≤ maxNesting
  /-- No fault is one of the scanner itself: no value is without a frame, and no
  statement without its root. -/
  fault (text : String) (line start : Nat) (e : ScanError) :
    answer (scan text line start s) = .error e ∨ answer (finish s) = .error e →
      e.fault ≠ .lostRoot ∧ e.fault ≠ .rootOutOfBounds ∧
        ∀ message, e.diagnostic.cause ≠ .internal message
  /-- A scan that ends a statement has read a character at least, and no more
  than there are. -/
  resume (text : String) (line start : Nat) (made : Statement) (resume : Nat) :
    answer (scan text line start s) = .ok (.statement made resume) →
      start < resume ∧ resume ≤ text.length
  /-- In no array of the statement does an item without a name stand behind one
  with a name, and only so many arrays are inside one another. -/
  statement (text : String) (line start : Nat) (made : Statement) (resume : Nat) :
    answer (scan text line start s) = .ok (.statement made resume) →
      made.arguments.Orderly ∧ ∃ vs p, made.arguments = .list vs p ∧
        ∀ v ∈ vs, Signature.valueNesting v ≤ maxNesting
  /-- Between statements, all calls are answered as by a fresh scanner. -/
  idle : s.inStatement = false → ∀ calls, replies calls s = replies calls {}
  /-- So they are behind the end of a script. -/
  finish : (last (Scanner.finish s)).inStatement = false ∧
    ∀ calls, replies calls (last (Scanner.finish s)) = replies calls {}

/-- What can be built has no more arrays inside one another than the number
says. -/
theorem nesting_le_of_isScanned {n : Nat} (h : v.IsScanned n) : Signature.valueNesting v ≤ n := by
  induction h with
  | word => exact Nat.zero_le _
  | quoted => exact Nat.zero_le _
  | array _ _ ih =>
    rw [Signature.valueNesting]
    exact Nat.succ_le_succ (Signature.valuesNesting_le_iff.2 ih)

theorem Reachable.sound (h : Reachable s) : Sound s where
  frames := invariant_edits.of_reachable h
  root := h.rooted
  flagged := h.proper.flagged
  attach v := by
    obtain ⟨f, outer, hf⟩ := h.rooted.exists_cons
    refine ⟨f, outer, hf, ?_⟩
    rw [attach_eq, mayTake_of_cons hf, refusal_of_cons hf, push_of_cons hf]
  arrays_le := by
    rw [List.length_dropLast]
    exact Nat.sub_le_of_le_add h.proper.length_le
  fault text line start e he := by
    have hsafe : e.fault.isDefect = false := by
      rcases he with he | he
      · exact (h.rooted.scan text line start).isDefect he
      · exact h.rooted.finish.isDefect he
    -- only a defect is reported as a fault of the scanner itself
    refine ⟨fun hlost => ?_, fun hbounds => ?_, fun message hcause => ?_⟩
    · rw [hlost] at hsafe
      cases hsafe
    · rw [hbounds] at hsafe
      cases hsafe
    · unfold ScanError.diagnostic at hcause
      rw [hsafe] at hcause
      cases hcause
  resume text line start made resume hmade := by
    obtain ⟨t, hscan⟩ := answer_eq_ok hmade
    have hresume := scanChars_resume hscan
    rw [List.length_drop, String.length_toList] at hresume
    omega
  statement text line start made resume hmade := by
    obtain ⟨t, hscan⟩ := answer_eq_ok hmade
    have hmade : made.IsScanned := ⟨s, t, text, line, start, resume, h, hscan⟩
    obtain ⟨vs, p, hvs, hall⟩ := hmade.argumentsScanned
    exact ⟨hmade.orderly, vs, p, hvs, fun v hv => nesting_le_of_isScanned (hall v hv)⟩
  idle hidle calls := by
    have hnone : s.started = none := by
      unfold inStatement at hidle
      simpa using hidle
    rw [h.idle.eq_empty hnone]
  finish := by
    rw [last_finish h.idle]
    exact ⟨rfl, fun _ => rfl⟩

/-- **Under any calls a scanner is sound**, continued after faults or not. -/
theorem sound_after_calls (calls : List Call) : Sound (after calls {}) :=
  Reachable.empty.after.sound

end Scanner

end CommandScript
