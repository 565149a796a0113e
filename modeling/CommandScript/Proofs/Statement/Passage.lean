import CommandScript.Proofs.Statement.Steps
import CommandScript.Statement.Source

/-!
# The scanner's passage over a text

`readAll` keeps the statements of a text that has no fault and forgets them
otherwise, and it reads a line in as many scans as statements end on it. A
passage keeps both: the statements that ended and how the scanner stopped.
It goes through the characters once, so that what holds of one character
carries over to texts by induction on the characters (`passChars`) and on
the lines (`passLines`). `readAll_eq` is the equation that ties it to
`readAll`, and `passChars_eq` the one that ties it to a single scan. What is
said of single scans has an induction of its own, which is made once, for
whatever the characters carry along (`Carries.scanChars`).
-/

namespace CommandScript

/-- What scanning yields. -/
structure Passage where
  /-- The statements that ended, in order. -/
  statements : List Statement
  /-- How the scanner stopped, and in which state. -/
  outcome : EStateM.Result ScanError Scanner Unit

namespace Passage

/-- The passage of one step, which may end a statement. -/
def ofStep : EStateM.Result ScanError Scanner (Option Statement) → Passage
  | .ok made t => ⟨made.toList, .ok () t⟩
  | .error e t => ⟨[], .error e t⟩

/-- A passage and what follows it, unless it stops at a fault. -/
def followedBy (a : Passage) (next : Scanner → Passage) : Passage :=
  match a.outcome with
  | .ok () t => ⟨a.statements ++ (next t).statements, (next t).outcome⟩
  | .error e t => ⟨a.statements, .error e t⟩

/-- The statements of a passage without a fault. -/
def result (a : Passage) : EStateM.Result ScanError Scanner (List Statement) :=
  match a.outcome with
  | .ok () t => .ok a.statements t
  | .error e t => .error e t

theorem followedBy_ok {ss : List Statement} {u : Unit} {t : Scanner} (next : Scanner → Passage) :
    followedBy ⟨ss, .ok u t⟩ next = ⟨ss ++ (next t).statements, (next t).outcome⟩ := rfl

/-- A passage that stops at no fault is one of parts that stop at none. -/
theorem followedBy_outcome_ok {a : Passage} {next : Scanner → Passage} {t : Scanner}
    (h : (a.followedBy next).outcome = .ok () t) :
    ∃ u, a.outcome = .ok () u ∧ (next u).outcome = .ok () t ∧
      (a.followedBy next).statements = a.statements ++ (next u).statements := by
  obtain ⟨ss, out⟩ := a
  cases out with
  | ok _ u => exact ⟨u, rfl, h, rfl⟩
  | error e u => cases h

/-- The first part of a passage comes first. -/
theorem statements_prefix_followedBy (a : Passage) (next : Scanner → Passage) :
    a.statements <+: (a.followedBy next).statements := by
  obtain ⟨ss, out⟩ := a
  cases out with
  | ok _ u => exact List.prefix_append _ _
  | error e u => exact List.prefix_rfl

/-- What follows alike makes the same passage. -/
theorem followedBy_congr {a : Passage} {f g : Scanner → Passage}
    (h : ∀ t, a.outcome = .ok () t → f t = g t) : a.followedBy f = a.followedBy g := by
  obtain ⟨ss, out⟩ := a
  cases out with
  | error e t => rfl
  | ok _ t => rw [followedBy_ok, followedBy_ok, h t rfl]

theorem followedBy_assoc (a : Passage) (f g : Scanner → Passage) :
    (a.followedBy f).followedBy g = a.followedBy fun t => (f t).followedBy g := by
  obtain ⟨ss, out⟩ := a
  cases out with
  | error e t => rfl
  | ok _ t =>
    simp only [followedBy_ok]
    unfold Passage.followedBy
    cases (f t).outcome <;> simp

end Passage

namespace Scanner

variable {s t : Scanner} {p : Position}

/-- A step whose passage stops at no fault succeeds. -/
theorem exists_of_ofStep {r : EStateM.Result ScanError Scanner (Option Statement)}
    (h : (Passage.ofStep r).outcome = .ok () t) : ∃ made, r = .ok made t := by
  cases r with
  | ok made u =>
    cases h
    exact ⟨made, rfl⟩
  | error e u => cases h

/-! ## One character -/

/-- **What a character does outside quotes**: it ends the word being read,
unless it goes on with it or makes a name of it, and then does its own. -/
def step (c : Char) (p : Position) : ScanM (Option Statement) :=
  match CharClass.of c with
  | .quote => do
    completeWord
    markStarted p
    pure none
  | .comment => do
    completeWord
    pure none
  | .terminator => do
    completeWord
    completeStatement p
  | .openParen => do
    completeWord
    openArray p
    pure none
  | .closeParen => do
    completeWord
    closeArray p
    pure none
  | .colon => do
    takeLabel p
    pure none
  | .separator => do
    completeWord
    pure none
  | .word => do
    extendWord c p
    pure none
  | .other => throw ⟨.unexpectedCharacter c p.column, p⟩

/-- The closing quote of a text: its characters make a scalar. -/
def closeQuote (q : Lexeme) : ScanM (Option Statement) := do
  attachScalar (Value.quoted q.text q.start)
  pure none

/-- A closing quote ends no statement. -/
theorem made_of_closeQuote {q : Lexeme} {made : Option Statement}
    (h : closeQuote q s = .ok made t) : made = none :=
  (bind_pure_eq_ok_iff.1 h).2.symm

/-- Only a semicolon ends a statement. -/
theorem terminator_of_step {c : Char} {made : Statement}
    (h : step c p s = .ok (some made) t) : CharClass.of c = .terminator := by
  unfold step at h
  cases hc : CharClass.of c with
  | terminator => rfl
  | other =>
    rw [hc] at h
    cases h
  | colon | word =>
    rw [hc] at h
    cases (bind_pure_eq_ok_iff.1 h).2
  | quote | openParen | closeParen =>
    rw [hc] at h
    obtain ⟨_, u, -, h⟩ := bind_eq_ok_iff.1 h
    cases (bind_pure_eq_ok_iff.1 h).2
  | comment | separator =>
    rw [hc] at h
    cases (bind_pure_eq_ok_iff.1 h).2

/-- A statement ends behind the word before its semicolon. -/
theorem completeStatement_of_step {c : Char} {made : Statement}
    (h : step c p s = .ok (some made) t) :
    ∃ u, completeWord s = .ok () u ∧ completeStatement p u = .ok (some made) t := by
  have hc := terminator_of_step h
  unfold step at h
  rw [hc] at h
  obtain ⟨_, u, hu, h⟩ := bind_eq_ok_iff.1 h
  exact ⟨u, hu, h⟩

/-! ## The characters of a line -/

/-- **The passage over characters of a line.** It goes on behind every
statement that ends. -/
def passChars (line : Nat) : List Char → Nat → Option Lexeme → Scanner → Passage
  | [], _, some q, s => ⟨[], .error ⟨.unterminatedText, q.start⟩ s⟩
  | [], _, none, s => ⟨[], completeWord s⟩
  | c :: rest, i, some q, s =>
    if c = '"' then
      (Passage.ofStep (closeQuote q s)).followedBy fun t => passChars line rest (i + 1) none t
    else passChars line rest (i + 1) (some { q with text := q.text.push c }) s
  | c :: rest, i, none, s =>
    let p : Position := ⟨line, Position.ordinal i⟩
    (Passage.ofStep (step c p s)).followedBy fun t =>
      match CharClass.of c with
      | .comment => ⟨[], .ok () t⟩
      | .quote => passChars line rest (i + 1) (some ⟨"", p⟩) t
      | _ => passChars line rest (i + 1) none t

/-- The passage over a line, from a character index on. -/
def passLine (text : String) (line start : Nat) (s : Scanner) : Passage :=
  passChars line (text.toList.drop start) start none s

/-- **The passage over lines**, the first of which has the index given, and
over the end of the script. -/
def passLines : List String → Nat → Scanner → Passage
  | [], _, s => ⟨[], finish s⟩
  | text :: rest, index, s =>
    (passLine text (Position.ordinal index) 0 s).followedBy (passLines rest (index + 1))

/-! ## A single scan -/

/-- What a scan goes on with behind a character that succeeded. -/
theorem scanChars_none (line : Nat) (c : Char) (rest : List Char) (i : Nat) (s : Scanner) :
    scanChars line (c :: rest) i none s =
      match step c ⟨line, Position.ordinal i⟩ s with
      | .error e t => .error e t
      | .ok (some statement) t => .ok (.statement statement (i + 1)) t
      | .ok none t =>
        match CharClass.of c with
        | .comment => .ok .endOfLine t
        | .quote => scanChars line rest (i + 1) (some ⟨"", ⟨line, Position.ordinal i⟩⟩) t
        | _ => scanChars line rest (i + 1) none t := by
  rw [scanChars, step]
  cases hc : CharClass.of c with
  | terminator =>
    simp only [bind_eq]
    cases completeWord s with
    | error e t => rfl
    | ok _ t =>
      cases ht : completeStatement ⟨line, Position.ordinal i⟩ t with
      | error e u => simp only [ht]
      | ok made u =>
        simp only [ht]
        cases made with
        | none => rfl
        | some made => rfl
  | quote =>
    simp only [bind_eq]
    cases completeWord s with
    | error e t => rfl
    | ok _ t => rfl
  | comment =>
    simp only [bind_eq]
    cases completeWord s with
    | error e t => rfl
    | ok _ t => rfl
  | separator =>
    simp only [bind_eq]
    cases completeWord s with
    | error e t => rfl
    | ok _ t => rfl
  | openParen =>
    simp only [bind_eq]
    cases completeWord s with
    | error e t => rfl
    | ok _ t =>
      cases ht : openArray ⟨line, Position.ordinal i⟩ t with
      | error e u => simp only [ht]
      | ok _ u =>
        simp only [ht]
        rfl
  | closeParen =>
    simp only [bind_eq]
    cases completeWord s with
    | error e t => rfl
    | ok _ t =>
      cases ht : closeArray ⟨line, Position.ordinal i⟩ t with
      | error e u => simp only [ht]
      | ok _ u =>
        simp only [ht]
        rfl
  | colon =>
    simp only [bind_eq]
    cases takeLabel ⟨line, Position.ordinal i⟩ s <;> rfl
  | word =>
    simp only [bind_eq]
    cases extendWord c ⟨line, Position.ordinal i⟩ s <;> rfl
  | other => rfl

/-- What a scan goes on with inside quotes. -/
theorem scanChars_some (line : Nat) (c : Char) (rest : List Char) (i : Nat) (q : Lexeme)
    (s : Scanner) :
    scanChars line (c :: rest) i (some q) s =
      if c = '"' then
        match closeQuote q s with
        | .error e t => .error e t
        | .ok _ t => scanChars line rest (i + 1) none t
      else scanChars line rest (i + 1) (some { q with text := q.text.push c }) s := by
  rw [scanChars, closeQuote]
  split
  · simp only [bind_eq]
    cases attachScalar (Value.quoted q.text q.start) s <;> rfl
  · rfl

/-- What is to hold behind a character outside quotes: of the scan, where the
character ends it, and else of the characters that are left. -/
def Behind (I : List Char → Nat → Option Lexeme → Scanner → Prop) (Q : Scan → Scanner → Prop)
    (c : Char) (rest : List Char) (i : Nat) (p : Position) : Option Statement → Scanner → Prop
  | some made, t => Q (.statement made (i + 1)) t
  | none, t =>
    match CharClass.of c with
    | .comment => Q .endOfLine t
    | .quote => I rest (i + 1) (some ⟨"", p⟩) t
    | _ => I rest (i + 1) none t

/-- **What characters carry along**: what holds between them, in quotes or not,
is kept by each, until the scan has an answer or a fault. -/
structure Carries (line : Nat) (I : List Char → Nat → Option Lexeme → Scanner → Prop)
    (Q : Scan → Scanner → Prop) (E : ScanError → Scanner → Prop) : Prop where
  /-- The line ends inside quotes. -/
  unterminated {i : Nat} {q : Lexeme} {s : Scanner} :
    I [] i (some q) s → E ⟨.unterminatedText, q.start⟩ s
  /-- The line ends. -/
  lineEnd {i : Nat} {s : Scanner} :
    I [] i none s → Ends (completeWord s) (fun _ t => Q .endOfLine t) E
  /-- A quoted text goes on. -/
  quoted {c : Char} {rest : List Char} {i : Nat} {q : Lexeme} {s : Scanner} :
    c ≠ '"' → I (c :: rest) i (some q) s → I rest (i + 1) (some { q with text := q.text.push c }) s
  /-- A quoted text ends. -/
  closeQuote {rest : List Char} {i : Nat} {q : Lexeme} {s : Scanner} :
    I ('"' :: rest) i (some q) s →
      Ends (Scanner.closeQuote q s) (fun _ t => I rest (i + 1) none t) E
  /-- A character outside quotes. -/
  step {c : Char} {rest : List Char} {i : Nat} {s : Scanner} :
    I (c :: rest) i none s →
      Ends (Scanner.step c ⟨line, Position.ordinal i⟩ s)
        (Behind I Q c rest i ⟨line, Position.ordinal i⟩) E

section

variable {line i : Nat} {c : Char} {rest : List Char}
  {I : List Char → Nat → Option Lexeme → Scanner → Prop} {Q : Scan → Scanner → Prop}
  {E : ScanError → Scanner → Prop}

/-- **What each character carries along, a scan does**, by induction on the
characters. -/
theorem Carries.scanChars (h : Carries line I Q E) :
    ∀ {cs : List Char} {i : Nat} {q : Option Lexeme} {s : Scanner},
      I cs i q s → Ends (scanChars line cs i q s) Q E := by
  intro cs
  induction cs with
  | nil =>
    intro i q s hs
    cases q with
    | some q => exact h.unterminated hs
    | none =>
      rw [Scanner.scanChars]
      exact (h.lineEnd hs).bind fun _ t ht => ht
  | cons c rest ih =>
    intro i q s hs
    cases q with
    | some q =>
      rw [scanChars_some]
      split
      · rename_i hc
        rw [hc] at hs
        have hquote := h.closeQuote hs
        cases hout : Scanner.closeQuote q s with
        | error e t =>
          rw [hout] at hquote
          exact hquote
        | ok made t =>
          rw [hout] at hquote
          exact ih hquote
      · rename_i hc
        exact ih (h.quoted hc hs)
    | none =>
      have hstep := h.step hs
      rw [scanChars_none]
      cases hout : Scanner.step c ⟨line, Position.ordinal i⟩ s with
      | error e t =>
        rw [hout] at hstep
        exact hstep
      | ok made t =>
        rw [hout] at hstep
        cases made with
        | some made => exact hstep
        | none =>
          -- a comment ends the scan, and any other character leads to the next one
          change Behind I Q c rest i _ none t at hstep
          unfold Behind at hstep
          cases hc : CharClass.of c with
          | comment =>
            rw [hc] at hstep
            exact hstep
          | _ =>
            rw [hc] at hstep
            exact ih hstep

/-- Behind a character that ends no statement, what is to hold does so if it
holds with the next one. -/
theorem behind_none (hcomment : Q .endOfLine t) (hrest : ∀ q, I rest (i + 1) q t) :
    Behind I Q c rest i p none t := by
  unfold Behind
  cases CharClass.of c with
  | comment => exact hcomment
  | _ => exact hrest _

/-- What holds anyway holds behind a character. -/
theorem behind_of_forall {made : Option Statement} (hQ : ∀ out, Q out t)
    (hI : ∀ rest i q, I rest i q t) : Behind I Q c rest i p made t := by
  cases made with
  | some made => exact hQ _
  | none => exact behind_none (hQ _) (hI _ _)

end

/-- **A scan that ends a statement stops behind a character it has read.** -/
theorem scanChars_resume {line : Nat} {made : Statement} {resume : Nat} {cs : List Char} {i : Nat}
    {q : Option Lexeme} (h : scanChars line cs i q s = .ok (.statement made resume) t) :
    i < resume ∧ resume ≤ i + cs.length := by
  have hcarries : Carries line
      (fun rest k _ _ => i ≤ k ∧ k + rest.length = i + cs.length)
      (fun out _ => ∀ made resume, out = .statement made resume →
        i < resume ∧ resume ≤ i + cs.length)
      fun _ _ => True := by
    refine ⟨fun _ => trivial, fun _ => .of_ok fun _ _ _ _ _ hout => ?_, fun _ hk => ?_,
      fun hk => .of_ok fun _ _ _ => ?_, fun hk => .of_ok fun out u _ => ?_⟩
    · cases hout
    · rw [List.length_cons] at hk
      omega
    · rw [List.length_cons] at hk
      omega
    · rw [List.length_cons] at hk
      cases out with
      | none => exact behind_none (fun _ _ hout => by cases hout) fun _ => by omega
      | some made =>
        rintro _ _ ⟨⟩
        omega
  exact (hcarries.scanChars ⟨Nat.le_refl i, rfl⟩).ok h made resume rfl

/-- The passage that a scan begins, over the characters from its start. -/
def passAfter (line : Nat) (cs : List Char) (i : Nat) :
    EStateM.Result ScanError Scanner Scan → Passage
  | .error e t => ⟨[], .error e t⟩
  | .ok .endOfLine t => ⟨[], .ok () t⟩
  | .ok (.statement made resume) t =>
    Passage.followedBy ⟨[made], .ok () t⟩ (passChars line (cs.drop (resume - i)) resume none)

/-- **A passage goes scan by scan**: it is a scan and, where that ends a
statement, the passage from there. -/
theorem passChars_eq (line : Nat) : ∀ (cs : List Char) (i : Nat) (q : Option Lexeme) (s : Scanner),
    passChars line cs i q s = passAfter line cs i (scanChars line cs i q s) := by
  intro cs
  induction cs with
  | nil =>
    intro i q s
    cases q with
    | some q => rfl
    | none =>
      rw [passChars, scanChars, bind_eq]
      cases completeWord s <;> rfl
  | cons c rest ih =>
    intro i q s
    -- the rest of the line starts one character later, so what a scan of it leaves is the same
    have hrest : ∀ q' u, passChars line rest (i + 1) q' u =
        passAfter line (c :: rest) i (scanChars line rest (i + 1) q' u) := by
      intro q' u
      rw [ih (i + 1) q' u]
      cases hs : scanChars line rest (i + 1) q' u with
      | error e t => rfl
      | ok scan t =>
        cases scan with
        | endOfLine => rfl
        | statement made resume =>
          have hr := scanChars_resume hs
          have hd : resume - i = (resume - (i + 1)) + 1 := by omega
          simp only [passAfter, hd, List.drop_succ_cons]
    cases q with
    | some q =>
      rw [passChars, scanChars_some]
      split
      · cases hq : closeQuote q s with
        | error e t => rfl
        | ok made t =>
          obtain rfl := made_of_closeQuote hq
          simp only [Passage.ofStep, Passage.followedBy_ok]
          exact hrest none t
      · exact hrest _ _
    | none =>
      rw [passChars, scanChars_none]
      cases hc : step c ⟨line, Position.ordinal i⟩ s with
      | error e t => rfl
      | ok made t =>
        cases made with
        | some made =>
          simp only [Passage.ofStep, terminator_of_step hc, passAfter]
          rw [show i + 1 - i = 1 by omega, List.drop_one, List.tail_cons]
          rfl
        | none =>
          simp only [Passage.ofStep, Passage.followedBy_ok]
          split
          · rfl
          · exact hrest _ _
          · exact hrest _ _

/-- The passage over a line is a scan of it and the passage from where that
resumes. -/
theorem passLine_of_scan {text : String} {line start : Nat} {made : Statement} {resume : Nat}
    (h : scan text line start s = .ok (.statement made resume) t) :
    passLine text line start s =
      Passage.followedBy ⟨[made], .ok () t⟩ (passLine text line resume) := by
  have hr := scanChars_resume h
  have hd : start + (resume - start) = resume := by omega
  unfold scan at h
  unfold passLine
  rw [passChars_eq, h]
  simp only [passAfter, List.drop_drop, hd]

theorem passLine_of_endOfLine {text : String} {line start : Nat}
    (h : scan text line start s = .ok .endOfLine t) :
    passLine text line start s = ⟨[], .ok () t⟩ := by
  unfold scan at h
  rw [passLine, passChars_eq, h]
  rfl

theorem passLine_of_error {text : String} {line start : Nat} {e : ScanError}
    (h : scan text line start s = .error e t) :
    passLine text line start s = ⟨[], .error e t⟩ := by
  unfold scan at h
  rw [passLine, passChars_eq, h]
  rfl

/-- A scan within a line resumes within it, further on. -/
theorem resume_of_scan {text : String} {line start : Nat} {made : Statement} {resume : Nat}
    (hs : start ≤ text.length) (h : scan text line start s = .ok (.statement made resume) t) :
    start < resume ∧ resume ≤ text.length := by
  have hr := scanChars_resume h
  rw [List.length_drop, String.length_toList] at hr
  omega

/-! ## The statements of a text -/

/-- The rounds allowed for a line are enough for the scans of it. -/
theorem statementsFrom_eq (text : String) (line : Nat) :
    ∀ (rounds start : Nat) (s : Scanner), start ≤ text.length → text.length < rounds + start →
      statementsFrom text line rounds start s = (passLine text line start s).result := by
  intro rounds
  induction rounds with
  | zero =>
    intro start s hs hr
    omega
  | succ rounds ih =>
    intro start s hs hr
    rw [statementsFrom, bind_eq]
    cases h : scan text line start s with
    | error e t => rw [passLine_of_error h]; rfl
    | ok scanned t =>
      cases scanned with
      | endOfLine => rw [passLine_of_endOfLine h]; rfl
      | statement made resume =>
        -- the scan resumes further on, so one round fewer is enough
        have hb := resume_of_scan hs h
        rw [passLine_of_scan h]
        simp only [bind_eq]
        rw [ih resume t hb.2 (by omega)]
        unfold Passage.followedBy Passage.result
        cases (passLine text line resume t).outcome <;> rfl

theorem statementsOf_eq (text : String) (line : Nat) (s : Scanner) :
    statementsOf text line s = (passLine text line 0 s).result :=
  statementsFrom_eq text line (text.length + 1) 0 s (by omega) (by omega)

theorem statementsOfLines_eq :
    ∀ (lines : List String) (index : Nat) (s : Scanner),
      statementsOfLines lines index s = (passLines lines index s).result := by
  intro lines
  induction lines with
  | nil =>
    intro index s
    rw [statementsOfLines, bind_eq, passLines]
    cases finish s <;> rfl
  | cons text rest ih =>
    intro index s
    rw [statementsOfLines, bind_eq, statementsOf_eq, passLines]
    unfold Passage.followedBy
    cases h : (passLine text (Position.ordinal index) 0 s).outcome with
    | error e t => simp only [Passage.result, h]
    | ok _ t =>
      simp only [Passage.result, h, bind_eq]
      rw [ih]
      unfold Passage.result
      cases (passLines rest (index + 1) t).outcome <;> rfl

end Scanner

/-- The passage over a script. -/
def Statement.passage (source : String) : Passage :=
  Scanner.passLines (Text.lines source) 0 {}

/-- **`readAll`, read off the passage**: the statements if there is no fault,
and else the fault. -/
theorem Statement.readAll_eq (source : String) :
    readAll source =
      match (passage source).outcome with
      | .ok () _ => .ok (passage source).statements
      | .error e _ => .error e := by
  unfold readAll EStateM.run passage
  rw [Scanner.statementsOfLines_eq, Passage.result]
  cases (Scanner.passLines (Text.lines source) 0 {}).outcome <;> rfl

end CommandScript
