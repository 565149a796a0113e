import CommandScript.Proofs.Interpreter.Points
import CommandScript.Proofs.Statement.Sites

/-!
# The places of a run

The scanner of a run is where it says it is, whatever commands do to the
lines: they see it empty, and the line that it goes on with is the one it
would read next, or none of a statement has been read (`inPlace_linesEvents`).
So each statement that runs has its command word where it says, and the fault
that the scanner stops at is where it says (`inPlace_events`).
-/

namespace CommandScript

/-- The next line is the one behind those taken. -/
theorem Cursor.getElem?_of_next {c cursor : Cursor} {text : String}
    (h : c.next = (some text, cursor)) : c.lines[c.taken]? = some text := by
  unfold next at h
  split at h
  · cases h
  · rename_i line hline
    cases h
    exact hline

namespace Interpreter

open Scanner (Within Between between_empty within_empty)

variable {σ : Host} {load : Loader σ} {script : Script} {r t : Reading σ} {ls : List String}

/-- **Lines that can be counted**, and their columns too. -/
structure Countable (ls : List String) : Prop where
  /-- There are not too many lines. -/
  lines : ls.length < Position.last
  /-- No line is too long. -/
  columns : ∀ l ∈ ls, l.length < Position.last

/-- A line of countable ones. -/
theorem Countable.isLine {index : Nat} {text : String} (h : Countable ls)
    (hget : ls[index]? = some text) : IsLine ls index text := by
  have hlt := (List.getElem?_eq_some_iff.1 hget).1
  have hlines := h.lines
  exact ⟨hget, by omega, h.columns text (List.mem_of_getElem? hget)⟩

/-- What happens in a run is where it says: the faults of the scanner and the
command words of the statements. -/
structure InPlace (ls : List String) (es : List (Event σ)) (xs : List (Point σ)) : Prop where
  faults : ∀ e, .fault e ∈ es → e.fault.At ls e.position
  statements : ∀ x ∈ xs, WrittenAt ls x.statement.position x.statement.name

variable {es fs : List (Event σ)} {xs ys : List (Point σ)}

theorem inPlace_nil : InPlace ls ([] : List (Event σ)) [] :=
  ⟨by simp, by simp⟩

theorem InPlace.append (h : InPlace ls es xs) (h' : InPlace ls fs ys) :
    InPlace ls (es ++ fs) (xs ++ ys) := by
  refine ⟨fun e he => ?_, fun x hx => ?_⟩
  · rcases List.mem_append.1 he with he | he
    · exact h.faults e he
    · exact h'.faults e he
  · rcases List.mem_append.1 hx with hx | hx
    · exact h.statements x hx
    · exact h'.statements x hx

/-- A statement whose command word is where it says, and what comes behind
it. -/
theorem InPlace.statement {s : Statement} {resume : Nat} {rs : List (Request σ)}
    (hs : WrittenAt ls s.position s.name) (h : InPlace ls es xs) :
    InPlace ls (.statement s resume rs :: es) (⟨s, r⟩ :: xs) := by
  refine ⟨fun e he => ?_, List.forall_mem_cons.2 ⟨hs, h.statements⟩⟩
  rcases List.mem_cons.1 he with he | he
  · cases he
  · exact h.faults e he

/-- The loop takes a line. -/
theorem InPlace.line {text : String} (h : InPlace ls es xs) :
    InPlace ls (.line text :: es) xs := by
  refine ⟨fun e he => ?_, h.statements⟩
  rcases List.mem_cons.1 he with he | he
  · cases he
  · exact h.faults e he

variable (load script) in
/-- **On a line all is where it says.** Behind it the scanner goes on with the
next line, unless it is empty. -/
theorem inPlace_lineEvents {index : Nat} {text : String} (hline : IsLine ls index text) :
    ∀ (rounds start : Nat) (r : Reading σ), start ≤ text.length → text.length < rounds + start →
      r.cursor.taken ≤ r.cursor.lines.length → Within ls index text start none r.scanner →
      InPlace ls (lineEvents load script text (Position.ordinal index) rounds start r)
          (linePoints load script text (Position.ordinal index) rounds start r) ∧
        ∀ t, runLine load script text (Position.ordinal index) rounds start r = .ok () t →
          t.scanner = {} ∨
            t.cursor.taken = r.cursor.taken ∧ Between ls (index + 1) t.scanner := by
  intro rounds
  induction rounds with
  | zero =>
    intro start r hs hrounds _ _
    omega
  | succ rounds ih =>
    intro start r hs hrounds hr hwithin
    have hscanned := hwithin.scan hline
    rw [lineEvents, linePoints, runLine_eq]
    cases hscan : Scanner.scan text (Position.ordinal index) start r.scanner with
    | error e scanner =>
      rw [hscan] at hscanned
      refine ⟨⟨fun e' he => ?_, by simp⟩, fun t ht => by cases ht⟩
      cases List.mem_singleton.1 he
      exact hscanned
    | ok scan scanner =>
      rw [hscan] at hscanned
      cases scan with
      | endOfLine =>
        refine ⟨inPlace_nil, fun t ht => ?_⟩
        cases ht
        exact .inr ⟨rfl, hscanned⟩
      | statement s resume =>
        obtain rfl := Scanner.eq_empty_of_scan hwithin.sited.rooted hscan
        have hbounds := Scanner.resume_of_scan hs hscan
        have htakes := takes_dispatch load script s (r := { r with scanner := {} }) hr
        dsimp only
        cases hd : dispatch load script s { r with scanner := {} } with
        | error d t => exact ⟨inPlace_nil.statement hscanned, fun t ht => by cases ht⟩
        | ok _ t =>
          rw [hd] at htakes
          have hempty : t.scanner = {} := htakes.scanner
          dsimp only
          split
          · rename_i htaken
            obtain ⟨hrest, hend⟩ := ih resume t hbounds.2 (by omega) (htakes.cursor.inBounds hr)
              (by rw [hempty]; exact within_empty ls index text resume)
            refine ⟨hrest.statement hscanned, fun u hu => ?_⟩
            rw [← htaken]
            exact hend u hu
          · refine ⟨inPlace_nil.statement hscanned, fun u hu => ?_⟩
            cases hu
            exact .inl hempty

variable (load script) in
/-- **On the lines that are left all is where it says.** -/
theorem inPlace_linesEvents (hls : Countable ls) : ∀ (left : Nat) (r : Reading σ),
    r.cursor.lines = ls → r.cursor.taken ≤ r.cursor.lines.length →
      Between ls r.cursor.taken r.scanner →
      InPlace ls (linesEvents load script left r) (linesPoints load script left r) ∧
        ∀ t, runLines load script left r = .ok () t →
          t.cursor.lines = ls ∧ Between ls t.cursor.taken t.scanner := by
  intro left
  induction left with
  | zero =>
    intro r hlines _ hbetween
    refine ⟨inPlace_nil, fun t ht => ?_⟩
    cases ht
    exact ⟨hlines, hbetween⟩
  | succ left ih =>
    intro r hlines hr hbetween
    have hadvances := r.cursor.advances_next
    rw [linesEvents, linesPoints, runLines_eq]
    cases hnext : r.cursor.next with
    | mk text? cursor =>
      rw [hnext] at hadvances
      cases text? with
      | none =>
        refine ⟨inPlace_nil, fun t ht => ?_⟩
        cases ht
        have htaken : cursor.taken = r.cursor.taken := hadvances.taken
        refine ⟨hadvances.lines.trans hlines, ?_⟩
        change Between ls cursor.taken r.scanner
        rw [htaken]
        exact hbetween
      | some text =>
        have hget := Cursor.getElem?_of_next hnext
        rw [hlines] at hget
        dsimp only
        rw [number_of_next hnext]
        obtain ⟨hfirst, hend⟩ := inPlace_lineEvents load script (hls.isLine hget) (text.length + 1)
          0 { r with cursor } (by omega) (by omega) (hadvances.inBounds hr) (hbetween.within hget)
        have hfollows := follows_line load script text (Position.ordinal r.cursor.taken)
          (text.length + 1) 0 { r with cursor } (by omega) (by omega) (hadvances.inBounds hr)
          hbetween.sited.rooted
        cases hrun : runLine load script text (Position.ordinal r.cursor.taken) (text.length + 1)
          0 { r with cursor } with
        | error d t =>
          rw [List.append_nil, List.append_nil]
          exact ⟨hfirst.line, fun t ht => by cases ht⟩
        | ok _ t =>
          rw [hrun] at hfollows
          have hcursor := hadvances.trans hfollows.cursor
          have hagain : Between ls t.cursor.taken t.scanner := by
            rcases hend t hrun with hempty | ⟨htaken, hnext⟩
            · rw [hempty]
              exact between_empty ls t.cursor.taken
            · have htakes : cursor.taken = r.cursor.taken + 1 := hadvances.taken
              rw [htaken]
              change Between ls cursor.taken t.scanner
              rw [htakes]
              exact hnext
          obtain ⟨hrest, hlast⟩ := ih t (hcursor.lines.trans hlines) (hcursor.inBounds hr) hagain
          exact ⟨(hfirst.append hrest).line, hlast⟩

/-- **In a run of a script all is where it says**, the end included. -/
theorem inPlace_events (hls : Countable r.cursor.lines) (htaken : r.cursor.taken = 0)
    (hscanner : r.scanner = {}) :
    InPlace r.cursor.lines (events load script r) (points load script r) := by
  have hr : r.cursor.taken ≤ r.cursor.lines.length := by omega
  have hrest : r.cursor.rest = r.cursor.lines := by
    unfold Cursor.rest
    rw [htaken, List.drop_zero]
  obtain ⟨hlines, hend⟩ := inPlace_linesEvents load script hls r.cursor.lines.length r rfl hr
    (by rw [hscanner]; exact between_empty _ _)
  rw [events, points]
  cases hrun : runLines load script r.cursor.lines.length r with
  | error d t =>
    rw [List.append_nil]
    exact hlines
  | ok _ t =>
    obtain ⟨hsame, hbetween⟩ := hend t hrun
    have hnone : t.cursor.rest = [] :=
      rest_of_runLines r.cursor.lines.length r (by rw [hscanner]; exact Scanner.rooted_empty) hr
        (Nat.le_of_eq (congrArg List.length hrest)) hrun
    unfold Cursor.rest at hnone
    rw [hsame] at hnone
    have hfinish := hbetween.finish hnone
    refine ⟨fun e he => ?_, hlines.statements⟩
    rcases List.mem_append.1 he with he | he
    · exact hlines.faults e he
    · change .fault e ∈ finishEvents t.scanner at he
      unfold finishEvents at he
      cases hout : Scanner.finish t.scanner with
      | ok _ scanner =>
        rw [hout] at he
        cases he
      | error e' scanner =>
        rw [hout] at he hfinish
        cases List.mem_singleton.1 he
        exact hfinish

end Interpreter

end CommandScript
