import CommandScript.Proofs.Statement.Reachable

/-!
# The root of a statement

What a statement has outside its arrays is kept in the root, the last of the
frames. A step that needs a frame where there is none meets a defect, of the
scanner and not of the text. But no step takes the root away, be it one that
fails, so that none meets a defect either (`Safe`). A scanner has its root from
the outset, and with it there is no text that brings a defect to light
(`Rooted.scan`).
-/

namespace CommandScript

namespace Scanner

variable {α : Type} {s t : Scanner} {v : Value} {p : Position} {line : Nat}

/-- **The root is there**: the last frame is the one that no parenthesis has
opened. -/
def Rooted (s : Scanner) : Prop :=
  ∃ root, s.frames.getLast? = some root ∧ root.tag = {}

/-- **A step that keeps the root** and meets no defect, whether or not it
fails. -/
abbrev Safe (out : EStateM.Result ScanError Scanner α) : Prop :=
  Ends out (fun _ t => Rooted t) fun e t => e.fault.isDefect = false ∧ Rooted t

theorem rooted_empty : Rooted {} := ⟨{}, rfl, rfl⟩

theorem Rooted.exists_cons (h : Rooted s) : ∃ f rest, s.frames = f :: rest := by
  obtain ⟨root, hroot, -⟩ := h
  exact List.exists_cons_of_ne_nil fun hnil => by simp [hnil] at hroot

/-- Where an array is open, the root is among the frames below it. -/
theorem rooted_cons_iff {f g : Frame} {rest : List Frame} {word label : Option Lexeme}
    {started : Option Position} :
    Rooted ⟨f :: g :: rest, word, label, started⟩ ↔ Rooted ⟨g :: rest, word, label, started⟩ := by
  unfold Rooted
  rw [List.getLast?_cons_cons]

/-- Without arrays the root is the only frame. -/
theorem Rooted.tag_eq {f : Frame} (h : Rooted s) (hf : s.frames = [f]) : f.tag = {} := by
  obtain ⟨root, hroot, htag⟩ := h
  rw [hf, List.getLast?_singleton] at hroot
  cases hroot
  exact htag

/-! ## Steps -/

theorem Rooted.push (h : Rooted s) (v : Value) : Rooted (s.push v) := by
  obtain ⟨frames, word, label, started⟩ := s
  -- only without open arrays does the value go into the root itself
  match frames, h with
  | [f], h =>
    have htag : f.tag = {} := h.tag_eq rfl
    exact ⟨f.push v, rfl, htag⟩
  | f :: g :: rest, h => exact rooted_cons_iff.2 (rooted_cons_iff.1 h)

theorem Rooted.attach (h : Rooted s) (v : Value) : Safe (attach v s) := by
  obtain ⟨f, rest, hf⟩ := h.exists_cons
  rw [attach_eq]
  split
  · exact h.push v
  · rw [refusal_of_cons hf]
    exact ⟨rfl, h⟩

theorem Rooted.attachScalar (h : Rooted s) (v : Value) : Safe (attachScalar v s) := by
  rw [attachScalar_eq]
  exact Rooted.attach (s := { s with label := none }) h _

theorem Rooted.completeWord (h : Rooted s) : Safe (completeWord s) := by
  cases hw : s.word with
  | none =>
    rw [completeWord_of_none hw]
    exact h
  | some w =>
    rw [completeWord_of_some hw]
    exact Rooted.attachScalar (s := { s with word := none }) h _

theorem Rooted.extendWord (h : Rooted s) (c : Char) (p : Position) : Safe (extendWord c p s) := by
  cases hw : s.word with
  | none =>
    rw [extendWord_of_none hw]
    exact h
  | some w =>
    rw [extendWord_of_some hw]
    exact h

theorem Rooted.openArray (h : Rooted s) (p : Position) : Safe (openArray p s) := by
  obtain ⟨f, rest, hf⟩ := h.exists_cons
  rw [openArray_eq]
  split
  · exact ⟨rfl, h⟩
  · obtain ⟨frames, word, label, started⟩ := s
    obtain rfl : frames = f :: rest := hf
    exact rooted_cons_iff.2 h

theorem Rooted.closeArray (h : Rooted s) (p : Position) : Safe (closeArray p s) := by
  obtain ⟨-, hout⟩ | ⟨f, g, rest, hf, ⟨l, -, hout⟩ | ⟨-, hout⟩⟩ := closeArray_cases p s
  · rw [hout]
    exact ⟨rfl, h⟩
  · rw [hout]
    exact ⟨rfl, h⟩
  · obtain ⟨frames, word, label, started⟩ := s
    obtain rfl : frames = f :: g :: rest := hf
    rw [hout]
    exact (rooted_cons_iff.1 h).attach _

theorem Rooted.takeLabel (h : Rooted s) (p : Position) : Safe (takeLabel p s) := by
  cases hl : s.label with
  | some l =>
    rw [takeLabel_of_label hl]
    exact ⟨rfl, h⟩
  | none =>
    cases hw : s.word with
    | none =>
      rw [takeLabel_of_none hl hw]
      exact ⟨rfl, h⟩
    | some w =>
      rw [takeLabel_of_some hl hw]
      exact h

/-- A value that is no command word is a fault of the text. -/
theorem isDefect_of_toStatement {command : Value} {arguments : List Value} {e : ScanError}
    (h : toStatement p command arguments = .error e) : e.fault.isDefect = false := by
  unfold toStatement at h
  split at h <;> cases h
  rfl

/-- A semicolon finds the root, and leaves it without values. -/
theorem Rooted.completeStatement (h : Rooted s) (p : Position) : Safe (completeStatement p s) := by
  obtain ⟨a, -, hout⟩ | ⟨l, -, hout⟩ | ⟨hnil, -⟩ | ⟨f, hf, hl⟩ := completeStatement_cases p s
  · rw [hout]
    exact ⟨rfl, h⟩
  · rw [hout]
    exact ⟨rfl, h⟩
  · -- the defect is not met, for there is a frame
    obtain ⟨f, rest, hf⟩ := h.exists_cons
    rw [hnil] at hf
    cases hf
  · have htag : f.tag = {} := h.tag_eq hf
    have hclear : Rooted { s with started := none, frames := [f.clear] } := ⟨f.clear, rfl, htag⟩
    rw [completeStatement_eq hf hl]
    cases f.items.reverse with
    | nil => exact hclear
    | cons command arguments =>
      dsimp only
      cases hmade : toStatement p command arguments with
      | ok made => exact hclear
      | error e => exact ⟨isDefect_of_toStatement hmade, hclear⟩

/-- **A character outside quotes is safe.** -/
theorem Rooted.step (h : Rooted s) (c : Char) (p : Position) : Safe (step c p s) := by
  unfold Scanner.step
  cases CharClass.of c with
  | quote => exact h.completeWord.bind fun _ t ht => ht
  | comment | separator => exact h.completeWord.bind fun _ t ht => ht
  | terminator => exact h.completeWord.bind fun _ t ht => ht.completeStatement p
  | openParen => exact h.completeWord.bind fun _ t ht => (ht.openArray p).bind fun _ u hu => hu
  | closeParen => exact h.completeWord.bind fun _ t ht => (ht.closeArray p).bind fun _ u hu => hu
  | colon => exact (h.takeLabel p).bind fun _ u hu => hu
  | word => exact (h.extendWord c p).bind fun _ u hu => hu
  | other => exact ⟨rfl, h⟩

/-! ## Scans -/

/-- Characters carry the root along. -/
theorem carries_rooted : Carries line (fun _ _ _ s => Rooted s) (fun _ t => Rooted t)
    fun e t => e.fault.isDefect = false ∧ Rooted t where
  unterminated h := ⟨rfl, h⟩
  lineEnd h := h.completeWord
  quoted _ h := h
  closeQuote h := (h.attachScalar _).bind fun _ _ ht => ht
  step h := (h.step _ _).mono (fun _ _ ht => behind_of_forall (fun _ => ht) fun _ _ _ => ht)
    fun _ _ he => he

/-- **A scan is safe**: it keeps the root and meets no defect. -/
theorem Rooted.scan (h : Rooted s) (text : String) (line start : Nat) :
    Safe (scan text line start s) :=
  carries_rooted.scanChars h

theorem Rooted.finish (h : Rooted s) : Safe (finish s) := by
  rw [finish_eq]
  cases s.started with
  | none => exact h
  | some p => exact ⟨rfl, rooted_empty⟩

/-- The state behind a safe step has its root. -/
theorem Safe.rooted {out : EStateM.Result ScanError Scanner α} (h : Safe out) :
    Rooted (last out) := by
  cases out with
  | ok a t => exact h
  | error e t => exact h.2

/-- **Every state of a scanner has its root.** -/
theorem Reachable.rooted (h : Reachable s) : Rooted s := by
  induction h with
  | empty => exact rooted_empty
  | scan text line start _ ih => exact (ih.scan text line start).rooted
  | finish _ ih => exact ih.finish.rooted

end Scanner

end CommandScript
