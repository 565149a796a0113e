import CommandScript.Proofs.Result
import CommandScript.Statement.Scanner

/-!
# What the scanner's steps do

Each step of the scanner is a function of its state, and this file says
which. Everything later reads the steps off these equations and unfolds
none of them. A step that succeeds keeps the word being read out of the
way: after `completeWord` there is none, and only `extendWord` starts one.
What a step does where a frame is missing is said too, though no scanner comes
to that.
-/

namespace CommandScript

namespace Frame

variable {f : Frame} {v : Value}

/-- **The flag of a frame is right**: it says whether one of the values has a
name. -/
def Flagged (f : Frame) : Prop :=
  f.named = f.items.any fun v => v.name.isSome

theorem Flagged.push (h : f.Flagged) (v : Value) : (f.push v).Flagged := by
  unfold Flagged Frame.push at *
  rw [List.any_cons, h]

/-- Without values all roots are the same. -/
theorem clear_eq (h : f.tag = {}) : f.clear = {} := by
  unfold clear
  rw [h]

end Frame

namespace Scanner

variable {s t : Scanner} {p : Position} {v : Value} {f g : Frame} {rest : List Frame}

/-! ## Values -/

theorem markStarted_eq (p : Position) (s : Scanner) :
    markStarted p s = .ok () { s with started := s.started.or (some p) } := rfl

/-- **The rule for names.** There has to be a frame, and if a value of the
innermost one has a name, then so has the next. -/
def mayTake (s : Scanner) (v : Value) : Bool :=
  s.frames.head?.any fun f => v.name.isSome || !f.named

/-- Why a value is not taken. -/
def refusal (s : Scanner) : ScanFault :=
  match s.frames with
  | [] => .lostRoot
  | _ :: _ => .positionalAfterNamed

/-- One more value in the innermost frame. -/
def push (s : Scanner) (v : Value) : Scanner :=
  match s.frames with
  | [] => s
  | f :: rest => { s with frames := f.push v :: rest }

theorem mayTake_of_cons (h : s.frames = f :: rest) :
    s.mayTake v = (v.name.isSome || !f.named) := by
  unfold mayTake
  rw [h]
  rfl

theorem refusal_of_cons (h : s.frames = f :: rest) : s.refusal = .positionalAfterNamed := by
  unfold refusal
  rw [h]

theorem push_of_cons (h : s.frames = f :: rest) (v : Value) :
    s.push v = { s with frames := f.push v :: rest } := by
  unfold push
  rw [h]

/-- What takes a value has a frame. -/
theorem exists_of_mayTake (h : s.mayTake v = true) :
    ∃ f rest, s.frames = f :: rest ∧ (v.name.isSome || !f.named) = true := by
  cases hf : s.frames with
  | nil =>
    unfold mayTake at h
    rw [hf] at h
    cases h
  | cons f rest =>
    rw [mayTake_of_cons hf] at h
    exact ⟨f, rest, rfl, h⟩

theorem attach_eq (v : Value) (s : Scanner) :
    attach v s =
      if s.mayTake v then .ok () (s.push v) else .error ⟨s.refusal, v.position⟩ s := by
  unfold attach
  rw [get_bind_eq]
  cases hf : s.frames with
  | nil =>
    unfold mayTake refusal
    rw [hf]
    rfl
  | cons f rest =>
    have hrule : (v.name.isNone && f.named) = !(v.name.isSome || !f.named) := by
      cases v.name <;> simp
    rw [mayTake_of_cons hf, refusal_of_cons hf, push_of_cons hf]
    simp only [hrule]
    cases v.name.isSome || !f.named <;> rfl

theorem attach_eq_ok_iff : attach v s = .ok () t ↔ s.mayTake v = true ∧ t = s.push v := by
  rw [attach_eq]
  split
  · rename_i h
    constructor
    · intro ht
      cases ht
      exact ⟨h, rfl⟩
    · rintro ⟨-, rfl⟩
      rfl
  · rename_i h
    constructor
    · intro ht
      cases ht
    · rintro ⟨h', -⟩
      exact absurd h' h

theorem attachScalar_eq (v : Value) (s : Scanner) :
    attachScalar v s = attach (v.rename (s.label.map Lexeme.text)) { s with label := none } := rfl

/-- A value that is taken is taken under the name that waits for it. -/
theorem attachScalar_eq_ok_iff :
    attachScalar v s = .ok () t ↔
      { s with label := none }.mayTake (v.rename (s.label.map Lexeme.text)) = true ∧
        t = { s with label := none }.push (v.rename (s.label.map Lexeme.text)) := by
  rw [attachScalar_eq, attach_eq_ok_iff]

/-! ## Words -/

theorem completeWord_of_none (h : s.word = none) : completeWord s = .ok () s := by
  unfold completeWord
  rw [get_bind_eq]
  simp only [h]
  rfl

theorem completeWord_of_some {w : Lexeme} (h : s.word = some w) :
    completeWord s = attachScalar (Value.word w.text w.start) { s with word := none } := by
  unfold completeWord
  rw [get_bind_eq]
  simp only [h]
  rfl

@[simp] theorem word_push (s : Scanner) (v : Value) : (s.push v).word = s.word := by
  unfold push
  cases s.frames <;> rfl

@[simp] theorem label_push (s : Scanner) (v : Value) : (s.push v).label = s.label := by
  unfold push
  cases s.frames <;> rfl

@[simp] theorem started_push (s : Scanner) (v : Value) : (s.push v).started = s.started := by
  unfold push
  cases s.frames <;> rfl

/-- Once the word being read has ended, there is none. -/
theorem word_of_completeWord (h : completeWord s = .ok () t) : t.word = none := by
  cases hw : s.word with
  | none =>
    rw [completeWord_of_none hw] at h
    cases h
    exact hw
  | some w =>
    rw [completeWord_of_some hw, attachScalar_eq_ok_iff] at h
    rw [h.2, word_push]

theorem extendWord_of_none {c : Char} (h : s.word = none) :
    extendWord c p s =
      .ok () { s with word := some ⟨c.toString, p⟩, started := s.started.or (some p) } := by
  unfold extendWord
  rw [get_bind_eq]
  simp only [h]
  rfl

theorem extendWord_of_some {c : Char} {w : Lexeme} (h : s.word = some w) :
    extendWord c p s = .ok () { s with word := some { w with text := w.text.push c } } := by
  unfold extendWord
  rw [get_bind_eq]
  simp only [h]
  rfl

/-! ## Arrays -/

theorem openArray_eq (p : Position) (s : Scanner) :
    openArray p s =
      if maxNesting < s.frames.length then .error ⟨.nestedTooDeep, p⟩ s
      else .ok () { s with
        frames := { tag := ⟨s.label.map Lexeme.text, p⟩ } :: s.frames
        label := none
        started := s.started.or (some p) } := by
  unfold openArray
  rw [bind_eq]
  change (if maxNesting < s.frames.length then _ else _ : ScanM Unit) s = _
  split <;> rfl

theorem openArray_eq_ok_iff :
    openArray p s = .ok () t ↔
      s.frames.length ≤ maxNesting ∧
        t = { s with
          frames := { tag := ⟨s.label.map Lexeme.text, p⟩ } :: s.frames
          label := none
          started := s.started.or (some p) } := by
  rw [openArray_eq]
  split
  · rename_i h
    constructor
    · intro ht
      cases ht
    · rintro ⟨h', -⟩
      omega
  · rename_i h
    constructor
    · intro ht
      cases ht
      exact ⟨by omega, rfl⟩
    · rintro ⟨-, rfl⟩
      rfl

theorem closeArray_of_label {l : Lexeme} (h : s.frames = f :: g :: rest)
    (hl : s.label = some l) :
    closeArray p s = .error ⟨.nameWithoutValue l.text, l.start⟩ { s with label := none } := by
  unfold closeArray
  rw [get_bind_eq]
  simp only [h, hl]
  rfl

theorem closeArray_of_cons (h : s.frames = f :: g :: rest) (hl : s.label = none) :
    closeArray p s =
      attach (Value.array f.tag f.items.reverse) { s with frames := g :: rest } := by
  unfold closeArray
  rw [get_bind_eq]
  simp only [h, hl]
  rfl

/-- **What a closing parenthesis does.** Without an open array it is at fault,
and so is a name that waits behind the innermost one. Otherwise that array is
closed, and taken as any value is. -/
theorem closeArray_cases (p : Position) (s : Scanner) :
    (s.frames.length ≤ 1 ∧ closeArray p s = .error ⟨.unbalancedClose, p⟩ s) ∨
      ∃ f g rest, s.frames = f :: g :: rest ∧
        ((∃ l, s.label = some l ∧ closeArray p s =
            .error ⟨.nameWithoutValue l.text, l.start⟩ { s with label := none }) ∨
          s.label = none ∧ closeArray p s =
            attach (Value.array f.tag f.items.reverse) { s with frames := g :: rest }) := by
  match hf : s.frames with
  | [] | [_] =>
    refine .inl ⟨by simp, ?_⟩
    unfold closeArray
    rw [get_bind_eq]
    simp only [hf]
    rfl
  | f :: g :: rest =>
    rw [← hf]
    refine .inr ⟨f, g, rest, hf, ?_⟩
    rcases Option.eq_none_or_eq_some s.label with hl | ⟨l, hl⟩
    · exact .inr ⟨hl, closeArray_of_cons hf hl⟩
    · exact .inl ⟨l, hl, closeArray_of_label hf hl⟩

theorem closeArray_eq_ok_iff :
    closeArray p s = .ok () t ↔
      ∃ f g rest, s.frames = f :: g :: rest ∧ s.label = none ∧
        { s with frames := g :: rest }.mayTake (Value.array f.tag f.items.reverse) = true ∧
        t = { s with frames := g :: rest }.push (Value.array f.tag f.items.reverse) := by
  constructor
  · intro h
    obtain ⟨-, hclose⟩ | ⟨f, g, rest, hf, ⟨l, -, hclose⟩ | ⟨hl, hclose⟩⟩ := closeArray_cases p s
    · rw [hclose] at h
      cases h
    · rw [hclose] at h
      cases h
    · rw [hclose, attach_eq_ok_iff] at h
      exact ⟨f, g, rest, hf, hl, h⟩
  · rintro ⟨f, g, rest, hf, hl, h⟩
    rw [closeArray_of_cons hf hl, attach_eq_ok_iff]
    exact h

/-! ## Names -/

theorem takeLabel_of_label {l : Lexeme} (hl : s.label = some l) :
    takeLabel p s = .error ⟨.alreadyNamed l.text, p⟩ s := by
  unfold takeLabel
  rw [get_bind_eq]
  simp only [hl]
  rfl

theorem takeLabel_of_none (hl : s.label = none) (hw : s.word = none) :
    takeLabel p s = .error ⟨.colonWithoutName, p⟩ s := by
  unfold takeLabel
  rw [get_bind_eq]
  simp only [hl, hw]
  rfl

theorem takeLabel_of_some {w : Lexeme} (hl : s.label = none) (hw : s.word = some w) :
    takeLabel p s = .ok () { s with word := none, label := some w } := by
  unfold takeLabel
  rw [get_bind_eq]
  simp only [hl, hw]
  rfl

/-- A colon makes a name of the word before it, unless a name waits
already. -/
theorem takeLabel_eq_ok_iff :
    takeLabel p s = .ok () t ↔
      s.label = none ∧ ∃ w, s.word = some w ∧ t = { s with word := none, label := some w } := by
  cases hl : s.label with
  | some l =>
    rw [takeLabel_of_label hl]
    simp
  | none =>
    cases hw : s.word with
    | none =>
      rw [takeLabel_of_none hl hw]
      simp
    | some w =>
      rw [takeLabel_of_some hl hw]
      constructor
      · intro h
        cases h
        exact ⟨rfl, w, rfl, rfl⟩
      · rintro ⟨-, _, h, rfl⟩
        cases h
        rfl

/-! ## Semicolons -/

/-- **What a semicolon makes of a closed statement**: nothing of no values,
and otherwise a statement, if the first value is a command word. -/
theorem completeStatement_eq (h : s.frames = [f]) (hl : s.label = none) :
    completeStatement p s =
      match f.items.reverse with
      | [] => .ok none { s with started := none, frames := [f.clear] }
      | command :: arguments =>
        match toStatement p command arguments with
        | .ok statement => .ok (some statement) { s with started := none, frames := [f.clear] }
        | .error e => .error e { s with started := none, frames := [f.clear] } := by
  unfold completeStatement
  rw [get_bind_eq]
  simp only [h, hl, List.dropLast_singleton, List.getLast?_nil]
  cases f.items.reverse with
  | nil => rfl
  | cons command arguments =>
    dsimp only
    cases toStatement p command arguments with
    | ok statement => rfl
    | error e => rfl

/-- **What a semicolon does.** Behind an array that is open it is at fault, and
so is a name that waits; where there is no frame it fails; and else the
statement is closed. -/
theorem completeStatement_cases (p : Position) (s : Scanner) :
    (∃ a ∈ s.frames.dropLast,
        completeStatement p s = .error ⟨.arrayLeftOpen, a.tag.position⟩ s) ∨
      (∃ l, s.label = some l ∧
        completeStatement p s = .error ⟨.nameWithoutValue l.text, l.start⟩ s) ∨
      (s.frames = [] ∧
        completeStatement p s = .error ⟨.rootOutOfBounds, p⟩ { s with started := none }) ∨
      ∃ f, s.frames = [f] ∧ s.label = none := by
  cases ha : s.frames.dropLast.getLast? with
  | some a =>
    refine .inl ⟨a, List.mem_of_getLast? ha, ?_⟩
    unfold completeStatement
    rw [get_bind_eq]
    simp only [ha]
    rfl
  | none =>
    cases hl : s.label with
    | some l =>
      refine .inr (.inl ⟨l, rfl, ?_⟩)
      unfold completeStatement
      rw [get_bind_eq]
      simp only [ha, hl]
      rfl
    | none =>
      refine .inr (.inr ?_)
      match hf : s.frames with
      | [] =>
        refine .inl ⟨rfl, ?_⟩
        unfold completeStatement
        rw [get_bind_eq]
        simp only [hl, hf, List.dropLast_nil, List.getLast?_nil]
        rfl
      | [f] => exact .inr ⟨f, rfl, rfl⟩
      | f :: g :: rest =>
        rw [hf, List.getLast?_eq_none_iff] at ha
        cases ha

/-- **The state behind a semicolon**, failed or not: as it was, apart from the
mark where there is no frame, or that of a closed statement without its
values. -/
theorem last_completeStatement (p : Position) (s : Scanner) :
    last (completeStatement p s) = s ∨
      (s.frames = [] ∧ last (completeStatement p s) = { s with started := none }) ∨
      ∃ f, s.frames = [f] ∧ s.label = none ∧
        last (completeStatement p s) = { s with started := none, frames := [f.clear] } := by
  obtain ⟨a, -, hout⟩ | ⟨l, -, hout⟩ | ⟨hf, hout⟩ | ⟨f, hf, hl⟩ := completeStatement_cases p s
  · rw [hout]
    exact .inl rfl
  · rw [hout]
    exact .inl rfl
  · rw [hout]
    exact .inr (.inl ⟨hf, rfl⟩)
  · refine .inr (.inr ⟨f, hf, hl, ?_⟩)
    rw [completeStatement_eq hf hl]
    cases f.items.reverse with
    | nil => rfl
    | cons command arguments =>
      dsimp only
      cases toStatement p command arguments with
      | error e => rfl
      | ok made => rfl

/-- The arguments of a statement are the values behind the first. -/
theorem arguments_of_toStatement {command : Value} {arguments : List Value} {made : Statement}
    (h : toStatement p command arguments = .ok made) :
    ∃ q, made.arguments = Value.list arguments q := by
  unfold toStatement at h
  split at h
  · cases h
    exact ⟨_, rfl⟩
  · cases h

/-- A semicolon that succeeds finds the root only, and no name waiting. -/
theorem exists_of_completeStatement {made : Option Statement}
    (h : completeStatement p s = .ok made t) : ∃ f, s.frames = [f] ∧ s.label = none := by
  obtain ⟨a, -, hout⟩ | ⟨l, -, hout⟩ | ⟨-, hout⟩ | hclosed := completeStatement_cases p s
  · rw [hout] at h
    cases h
  · rw [hout] at h
    cases h
  · rw [hout] at h
    cases h
  · exact hclosed

/-- **A statement is made of the values outside arrays**: the first is the
command, and the others are the arguments. -/
theorem exists_arguments_of_completeStatement {made : Statement}
    (h : completeStatement p s = .ok (some made) t) :
    ∃ f command arguments q, s.frames = [f] ∧ f.items.reverse = command :: arguments ∧
      made.arguments = Value.list arguments q := by
  obtain ⟨f, hf, hl⟩ := exists_of_completeStatement h
  rw [completeStatement_eq hf hl] at h
  split at h
  · cases h
  · rename_i command arguments hitems
    split at h
    · rename_i hst
      cases h
      obtain ⟨q, hq⟩ := arguments_of_toStatement hst
      exact ⟨f, command, arguments, q, hf, hitems, hq⟩
    · cases h

/-- A semicolon that succeeds leaves nothing of the statement behind. -/
theorem completeStatement_eq_ok {made : Option Statement} (hw : s.word = none)
    (h : completeStatement p s = .ok made t) :
    ∃ f, s.frames = [f] ∧ s.label = none ∧ t = { frames := [f.clear] } := by
  obtain ⟨f, hf, hl⟩ := exists_of_completeStatement h
  refine ⟨f, hf, hl, ?_⟩
  rw [completeStatement_eq hf hl] at h
  obtain ⟨frames, word, label, started⟩ := s
  simp only at hf hl hw
  subst hf hl hw
  split at h
  · cases h
    rfl
  · split at h <;> cases h
    rfl

/-! ## The end of the script -/

theorem finish_eq (s : Scanner) :
    finish s =
      match s.started with
      | none => .ok () s
      | some p => .error ⟨.unterminatedStatement, p⟩ {} := by
  unfold finish
  rw [get_bind_eq]
  cases s.started with
  | none => rfl
  | some p => rfl

end Scanner

end CommandScript
