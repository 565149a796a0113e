import CommandScript.Proofs.Interpreter.ReadAhead
import CommandScript.Routine

/-!
# Running is reading

What a run of a script does with its lines is what reading the edited lines
does (`runAll_refines_readAll`). A line that a command takes is empty among
the edited lines and comes after the line of the command's statement, where
no word is being read: it changes nothing (`passThrough_edit`). So the lines
are followed one by one, and behind the last of them the script ends as the
edited lines do.
-/

namespace CommandScript

namespace Interpreter

variable {σ : Host} {load : Loader σ} {script : Script} {r t : Reading σ}
  {out : EStateM.Result Diagnostic (Reading σ) Unit} {es fs : List (Event σ)} {p : Passage}

/-! ## Edited lines -/

/-- Each line taken has its edited line. -/
theorem length_edit (es : List (Event σ)) : (edit es).length = (fetched es).length := by
  induction es with
  | nil => rfl
  | cons e es ih =>
    cases e with
    | line text =>
      change (edit es).length + 1 = ([text] ++ fetched es).length
      rw [List.length_append, List.length_singleton, ih]
      omega
    | statement s resume rs =>
      change ((linesTaken rs).map (fun _ => "") ++ edit es).length =
        (linesTaken rs ++ fetched es).length
      rw [List.length_append, List.length_append, List.length_map, ih]
    | fault e => exact ih

/-- What does not begin with a statement leaves the line before it as it is. -/
theorem seen_append {text : String} (hfs : ∀ s resume rs gs, fs ≠ .statement s resume rs :: gs) :
    ∀ es : List (Event σ), seen text (es ++ fs) = seen text es := by
  intro es
  induction es with
  | nil =>
    cases fs with
    | nil => rfl
    | cons e gs =>
      cases e with
      | statement s resume rs => exact absurd rfl (hfs s resume rs gs)
      | line l => rfl
      | fault e => rfl
  | cons e es ih =>
    cases e with
    | line l => rfl
    | fault e => rfl
    | statement s resume rs =>
      rw [List.cons_append, seen, seen, ih]

/-- Lines are edited apart from those before, unless a statement comes first. -/
theorem edit_append (hfs : ∀ s resume rs gs, fs ≠ .statement s resume rs :: gs) :
    ∀ es : List (Event σ), edit (es ++ fs) = edit es ++ edit fs := by
  intro es
  induction es with
  | nil => rfl
  | cons e es ih =>
    rw [List.cons_append]
    cases e with
    | line text =>
      rw [edit, edit, seen_append hfs, ih]
      rfl
    | statement s resume rs => rw [edit, edit, ih, List.append_assoc]
    | fault e => exact ih

variable (load script) in
/-- The lines taken within a line are empty. -/
theorem edit_lineEvents (text : String) (line : Nat) : ∀ (rounds start : Nat) (r : Reading σ),
    edit (lineEvents load script text line rounds start r) =
      List.replicate (fetched (lineEvents load script text line rounds start r)).length "" := by
  intro rounds
  induction rounds with
  | zero => exact fun _ _ => rfl
  | succ rounds ih =>
    intro start r
    rw [lineEvents]
    cases Scanner.scan text line start r.scanner with
    | error e scanner => rfl
    | ok scan scanner =>
      cases scan with
      | endOfLine => rfl
      | statement s resume =>
        -- the events behind the statement are none, or those of the next round
        have hrest : ∀ fs : List (Event σ), edit fs = List.replicate (fetched fs).length "" →
            edit (.statement s resume (requests load script s { r with scanner }) :: fs) =
              List.replicate (fetched (.statement s resume
                (requests load script s { r with scanner }) :: fs)).length "" := by
          intro fs hfs
          change _ = List.replicate (linesTaken _ ++ fetched fs).length ""
          rw [edit, hfs, List.map_const', List.length_append, List.replicate_append_replicate]
        dsimp only
        refine hrest _ ?_
        cases dispatch load script s { r with scanner } with
        | error d t => rfl
        | ok _ t =>
          dsimp only
          split
          · exact ih resume t
          · rfl

/-! ## Scripts -/

/-- **What the next line comes to.** -/
theorem runLines_eq (left : Nat) (r : Reading σ) :
    runLines load script (left + 1) r =
      match r.cursor.next with
      | (none, cursor) => .ok () { r with cursor }
      | (some text, cursor) =>
        match runLine load script text cursor.number (text.length + 1) 0 { r with cursor } with
        | .error d t => .error d t
        | .ok () t => runLines load script left t := by
  rw [runLines, bind_eq]
  cases hnext : r.cursor.next with
  | mk text? cursor =>
    have htake : takeLine r = .ok text? { r with cursor } := by
      change EStateM.Result.ok r.cursor.next.1 { r with cursor := r.cursor.next.2 } = _
      rw [hnext]
    rw [htake]
    cases text? with
    | none => rfl
    | some text =>
      dsimp only
      rw [get_bind_eq, bind_eq]
      dsimp only
      cases runLine load script text cursor.number (text.length + 1) 0 { r with cursor } with
      | error d t => rfl
      | ok _ t => rfl

/-- No statement runs before a line is taken. -/
theorem linesEvents_ne (left : Nat) (r : Reading σ) (s : Statement) (resume : Nat)
    (rs : List (Request σ)) (gs : List (Event σ)) :
    linesEvents load script left r ≠ .statement s resume rs :: gs := by
  intro h
  cases left with
  | zero => cases h
  | succ left =>
    rw [linesEvents] at h
    split at h
    · cases h
    · cases h

/-- The loop takes a line. -/
theorem Follows.line {text : String} {cursor : Cursor} (hcursor : r.cursor.Advances [text] cursor)
    (h : Follows script { r with cursor } es p out) :
    Follows script r (.line text :: es) p out where
  cursor := hcursor.trans h.cursor
  ok t ht := by
    obtain ⟨hp, hword, hno⟩ := h.ok t ht
    refine ⟨hp, hword, fun e he => ?_⟩
    rcases List.mem_cons.1 he with he | he
    · cases he
    · exact hno e he
  fault e he := by
    rcases List.mem_cons.1 he with he | he
    · cases he
    · exact h.fault e he
  stopped d t ht := by
    rcases h.stopped d t ht with ⟨e, he⟩ | ⟨s, resume, rs, hlast⟩
    · exact .inl ⟨e, List.mem_cons_of_mem _ he⟩
    · refine .inr ⟨s, resume, rs, ?_⟩
      rw [List.getLast?_cons, hlast]
      rfl
  ahead := h.ahead

/-- The number of a line taken next is its place among the lines. -/
theorem number_of_next {c : Cursor} {text : String} {cursor : Cursor}
    (h : c.next = (some text, cursor)) : cursor.number = Position.ordinal c.taken := by
  have hnext := c.advances_next
  rw [h] at hnext
  unfold Cursor.number Position.ordinal
  rw [hnext.taken]
  rfl

/-- **A line and the lines taken on it** are read as the line alone: the
lines are empty, and behind a line no word is being read. -/
theorem passThrough_edit {text : String} {les : List (Event σ)} {index : Nat} {s : Scanner}
    (hles : edit les = List.replicate (fetched les).length "")
    (hfs : ∀ s resume rs gs, fs ≠ .statement s resume rs :: gs) :
    Scanner.passThrough (edit (.line text :: (les ++ fs))) index s =
      (Scanner.passLine (seen text les) (Position.ordinal index) 0 s).followedBy
        (Scanner.passThrough (edit fs) (index + 1 + (fetched les).length)) := by
  rw [edit, seen_append hfs, edit_append hfs, Scanner.passThrough, hles]
  refine Passage.followedBy_congr fun u hu => ?_
  have hword : u.word = none := Scanner.word_of_passLine hu
  rw [Scanner.passThrough_append, Scanner.passThrough_replicate hword, Passage.followedBy_ok,
    List.nil_append, List.length_replicate]

variable (load script) in
/-- **Lines are run as they are read**, once they are edited. -/
theorem follows_lines : ∀ (left : Nat) (r : Reading σ), r.scanner.AtLineEnd →
    r.cursor.taken ≤ r.cursor.lines.length →
      Follows script r (linesEvents load script left r)
        (Scanner.passThrough (edit (linesEvents load script left r)) r.cursor.taken r.scanner)
        (runLines load script left r) := by
  intro left
  induction left with
  | zero => exact fun r hend _ => follows_nil hend
  | succ left ih =>
    intro r hend hr
    have hadvances := r.cursor.advances_next
    rw [runLines_eq, linesEvents]
    cases hnext : r.cursor.next with
    | mk text? cursor =>
      rw [hnext] at hadvances
      cases text? with
      | none =>
        dsimp only
        refine ⟨hadvances, fun t ht => ?_, by simp, fun d t ht => ?_, List.nil_prefix⟩
        · cases ht
          exact ⟨rfl, hend, by simp⟩
        · cases ht
      | some text =>
        dsimp only
        rw [number_of_next hnext]
        have hline := follows_line load script text
          (Position.ordinal r.cursor.taken) (text.length + 1) 0 { r with cursor }
          (by omega) (by omega) (hadvances.inBounds hr) hend.rooted
        have hedit := edit_lineEvents load script text
          (Position.ordinal r.cursor.taken) (text.length + 1) 0 { r with cursor }
        revert hline hedit
        generalize lineEvents load script text (Position.ordinal r.cursor.taken)
          (text.length + 1) 0 { r with cursor } = les
        intro hline hedit
        cases hrun : runLine load script text (Position.ordinal r.cursor.taken) (text.length + 1)
          0 { r with cursor } with
        | error d t =>
          dsimp only
          rw [hrun] at hline
          rw [List.append_nil, edit, Scanner.passThrough]
          exact (Follows.line hadvances hline).of_error
        | ok _ t =>
          dsimp only
          rw [hrun] at hline
          have hfirst := Follows.line hadvances hline
          have hbounds : t.cursor.taken ≤ t.cursor.lines.length := hfirst.cursor.inBounds hr
          have htaken : t.cursor.taken = r.cursor.taken + 1 + (fetched les).length := by
            have h := hfirst.cursor.taken
            change t.cursor.taken = r.cursor.taken + ([text] ++ fetched les).length at h
            rw [List.length_append, List.length_singleton] at h
            omega
          rw [passThrough_edit hedit (linesEvents_ne left t), ← htaken]
          refine hfirst.followedBy ?_
          exact ih t (hfirst.ok t rfl).2.1 hbounds

/-- **Lines that run without a diagnostic are all taken.** -/
theorem rest_of_runLines : ∀ (left : Nat) (r : Reading σ), r.scanner.Rooted →
    r.cursor.taken ≤ r.cursor.lines.length → r.cursor.rest.length ≤ left →
      runLines load script left r = .ok () t → t.cursor.rest = [] := by
  intro left
  induction left with
  | zero =>
    intro r _ _ hleft h
    cases h
    exact List.length_eq_zero_iff.1 (by omega)
  | succ left ih =>
    intro r hroot hr hleft h
    have hadvances := r.cursor.advances_next
    rw [runLines_eq] at h
    cases hnext : r.cursor.next with
    | mk text? cursor =>
      rw [hnext] at h hadvances
      cases text? with
      | none =>
        cases h
        have hrest : r.cursor.rest = [] := Cursor.rest_of_next_eq_none (by rw [hnext])
        have hsplit : r.cursor.rest = cursor.rest := hadvances.rest
        rw [← hsplit]
        exact hrest
      | some text =>
        dsimp only at h
        have hline := follows_line load script text cursor.number
          (text.length + 1) 0 { r with cursor } (by omega) (by omega) (hadvances.inBounds hr) hroot
        cases hrun : runLine load script text cursor.number (text.length + 1) 0
          { r with cursor } with
        | error d u =>
          rw [hrun] at h
          cases h
        | ok _ u =>
          rw [hrun] at h hline
          -- the line itself has been taken, so fewer are left for the others
          have htaken := hadvances.trans hline.cursor
          have hsplit := congrArg List.length htaken.rest
          rw [List.length_append, List.length_append] at hsplit
          change _ = 1 + _ + u.cursor.rest.length at hsplit
          exact ih u (hline.ok u rfl).2.1.rooted (htaken.inBounds hr) (by omega) h

theorem runAll_eq (r : Reading σ) :
    runAll load script r =
      match runLines load script r.cursor.lines.length r with
      | .error d t => .error d t
      | .ok () t => located script ⟨t.cursor.number, 1⟩ (scanning Scanner.finish) t := by
  rw [runAll, get_bind_eq, bind_eq]
  cases runLines load script r.cursor.lines.length r with
  | error d t => rfl
  | ok _ t => rfl

/-- A step of the scanner takes no lines. -/
theorem cursor_of_scanning {α : Type} {a : α} {position : Position} {step : ScanM α}
    (h : located script position (scanning step) r = .ok a t) : t.cursor = r.cursor := by
  rw [located_eq, scanning_eq] at h
  cases hstep : step r.scanner with
  | error e scanner =>
    rw [hstep] at h
    cases h
  | ok b scanner =>
    rw [hstep] at h
    cases h
    rfl

/-- **A script that runs without a diagnostic is taken to its end.** -/
theorem rest_of_runAll (hroot : r.scanner.Rooted) (htaken : r.cursor.taken = 0)
    (h : runAll load script r = .ok () t) : t.cursor.rest = [] := by
  have hlen : r.cursor.rest.length = r.cursor.lines.length - r.cursor.taken := List.length_drop
  rw [runAll_eq] at h
  cases hrun : runLines load script r.cursor.lines.length r with
  | error d u =>
    rw [hrun] at h
    cases h
  | ok _ u =>
    rw [hrun] at h
    rw [cursor_of_scanning h]
    exact rest_of_runLines r.cursor.lines.length r hroot (by omega) (by omega) hrun

/-- The end of a script is no statement. -/
theorem finishEvents_ne (scanner : Scanner) (s : Statement) (resume : Nat) (rs : List (Request σ))
    (gs : List (Event σ)) : finishEvents scanner ≠ .statement s resume rs :: gs := by
  intro h
  unfold finishEvents at h
  split at h
  · cases h
  · cases h

/-- No line is taken at the end of a script. -/
theorem fetched_finishEvents (scanner : Scanner) :
    fetched (finishEvents scanner : List (Event σ)) = [] := by
  unfold finishEvents
  split <;> rfl

/-- A script that ends where it may leaves the scanner as it was. -/
theorem eq_of_finish {s t : Scanner} (h : Scanner.finish s = .ok () t) : t = s := by
  unfold Scanner.finish at h
  rw [get_bind_eq] at h
  cases hstarted : s.started with
  | some p =>
    rw [hstarted] at h
    cases h
  | none =>
    rw [hstarted] at h
    cases h
    rfl

/-- **The end of a script** is that of the edited lines. -/
theorem follows_finish {position : Position} (hr : r.scanner.AtLineEnd) :
    Follows script r (finishEvents r.scanner) ⟨[], Scanner.finish r.scanner⟩
      (located script position (scanning Scanner.finish) r) := by
  rw [located_eq, scanning_eq, finishEvents]
  cases hfinish : Scanner.finish r.scanner with
  | error e scanner => exact follows_fault
  | ok _ scanner =>
    obtain rfl := eq_of_finish hfinish
    exact follows_nil hr

/-- **A script is run as its edited lines are read.** -/
theorem follows_all {r : Reading σ} (htaken : r.cursor.taken = 0) (hscanner : r.scanner = {}) :
    Follows script r (events load script r)
      (Scanner.passLines (editedLines r.cursor.lines (events load script r)) 0 {})
      (runAll load script r) := by
  have hr : r.cursor.taken ≤ r.cursor.lines.length := by omega
  have hstart : r.scanner.AtLineEnd := by
    rw [hscanner]
    exact Scanner.atLineEnd_empty
  have hlines := follows_lines load script r.cursor.lines.length r hstart hr
  have hrest : r.cursor.rest = r.cursor.lines := by
    unfold Cursor.rest
    rw [htaken, List.drop_zero]
  have hlen : r.cursor.rest.length = r.cursor.lines.length := congrArg List.length hrest
  rw [htaken, hscanner] at hlines
  rw [runAll_eq, events, editedLines]
  cases hrun : runLines load script r.cursor.lines.length r with
  | error d t =>
    rw [hrun] at hlines
    dsimp only
    rw [List.append_nil, Scanner.passLines_append]
    exact hlines.of_error
  | ok _ t =>
    rw [hrun] at hlines
    dsimp only
    obtain ⟨-, hrest', -⟩ := hlines.ok t rfl
    have hend : t.cursor.rest = [] :=
      rest_of_runLines r.cursor.lines.length r hstart.rooted hr (by omega) hrun
    have hfetched : fetched (linesEvents load script r.cursor.lines.length r) =
        r.cursor.lines := by
      have h := hlines.cursor.rest
      change r.cursor.rest = _ ++ t.cursor.rest at h
      rw [hend, List.append_nil, hrest] at h
      exact h.symm
    have hnone : edit (finishEvents t.scanner : List (Event σ)) = [] := by
      refine List.length_eq_zero_iff.1 ?_
      rw [length_edit, fetched_finishEvents, List.length_nil]
    -- nothing is left of the script, and its end has no line
    have hlast : edit (linesEvents load script r.cursor.lines.length r ++ finishEvents t.scanner) ++
        r.cursor.lines.drop (fetched (linesEvents load script r.cursor.lines.length r ++
          finishEvents t.scanner)).length =
            edit (linesEvents load script r.cursor.lines.length r) ++ [] := by
      rw [edit_append (finishEvents_ne t.scanner), hnone, fetched_append, fetched_finishEvents,
        hfetched, List.append_nil, List.append_nil, List.drop_length, List.append_nil]
    rw [hlast, Scanner.passLines_append]
    refine hlines.followedBy ?_
    exact follows_finish hrest'

/-! ## Texts -/

/-- A line as far as it counts has no line feed if the line has none. -/
theorem seen_no_feed {text : String} (h : '\n' ∉ text.toList) :
    ∀ es : List (Event σ), '\n' ∉ (seen text es).toList := by
  intro es
  induction es with
  | nil => exact h
  | cons e es ih =>
    cases e with
    | line l => exact h
    | fault e => exact h
    | statement s resume rs =>
      rw [seen]
      split
      · exact ih
      · intro hmem
        unfold Scanner.cut at hmem
        rw [String.toList_ofList] at hmem
        exact h (List.take_subset _ _ hmem)

/-- Edited lines are lines. -/
theorem edit_no_feed : ∀ {es : List (Event σ)}, (∀ l ∈ fetched es, '\n' ∉ l.toList) →
    ∀ l ∈ edit es, '\n' ∉ l.toList := by
  intro es
  induction es with
  | nil => exact fun _ l hl => absurd hl List.not_mem_nil
  | cons e es ih =>
    intro h l hl
    have hrest : ∀ l ∈ fetched es, '\n' ∉ l.toList :=
      fun l hl => h l (List.mem_append_right _ hl)
    cases e with
    | line text =>
      rcases List.mem_cons.1 hl with rfl | hl
      · exact seen_no_feed (h text (List.mem_append_left _ List.mem_cons_self)) es
      · exact ih hrest l hl
    | statement s resume rs =>
      rcases List.mem_append.1 hl with hl | hl
      · obtain ⟨_, -, rfl⟩ := List.mem_map.1 hl
        exact List.not_mem_nil
      · exact ih hrest l hl
    | fault e => exact ih hrest l hl

/-- **Running a script is reading its edited lines.** In every run of a
text, whatever its commands do, the lines taken by the loop and by commands
are the lines of the text in order, as far as the run comes. Without a
diagnostic all lines are taken, and the statements that ran are those of the
edited lines. A fault of the scanner is the fault of the edited lines, and
the statements before it ran. Any other diagnostic is that of the statement
that ran last, and the statements that ran are the first of the edited lines. -/
theorem runAll_refines_readAll (load : Loader σ) (script : Script) (text : String)
    (i : Interpreter σ) :
    let r : Reading σ := { interpreter := i, cursor := Cursor.ofText text }
    let es := events load script r
    let edited := Text.joinLines (editedLines (Text.lines text) es)
    r.cursor.Advances (fetched es) (last (runAll load script r)).cursor ∧
      (∀ t, runAll load script r = .ok () t →
        fetched es = Text.lines text ∧ Statement.readAll edited = .ok (dispatched es)) ∧
      (∀ e, Event.fault e ∈ es →
        Statement.readAll edited = .error e ∧
          dispatched es = (Statement.passage edited).statements ∧
          ∃ q t, runAll load script r =
            .error (locate t.interpreter.settings t.cursor script q e.diagnostic) t) ∧
      (∀ d t, runAll load script r = .error d t →
        (∃ e, Event.fault e ∈ es) ∨ ∃ s resume rs, es.getLast? = some (.statement s resume rs)) ∧
      dispatched es <+: (Statement.passage edited).statements := by
  intro r es edited
  have hfollows : Follows script r es (Scanner.passLines (editedLines (Text.lines text) es) 0 {})
      (runAll load script r) := follows_all rfl rfl
  have hfetched : Text.lines text = fetched es ++ (last (runAll load script r)).cursor.rest :=
    hfollows.cursor.rest
  have hpassage : Statement.passage edited =
      Scanner.passLines (editedLines (Text.lines text) es) 0 {} := by
    refine Scanner.passage_joinLines fun l hl => ?_
    rcases List.mem_append.1 hl with hl | hl
    · refine edit_no_feed (fun m hm => ?_) l hl
      exact Text.lines_no_feed (hfetched ▸ List.mem_append_left _ hm)
    · exact Text.lines_no_feed (List.mem_of_mem_drop hl)
  rw [← hpassage] at hfollows
  refine ⟨hfollows.cursor, fun t ht => ⟨?_, ?_⟩, fun e he => ?_, hfollows.stopped, hfollows.ahead⟩
  · have hend := rest_of_runAll (r := r) Scanner.rooted_empty rfl ht
    rw [ht] at hfetched
    change _ = _ ++ t.cursor.rest at hfetched
    rw [hend, List.append_nil] at hfetched
    exact hfetched.symm
  · rw [Statement.readAll_eq, (hfollows.ok t ht).1]
  · obtain ⟨q, t, hout, hfault⟩ := hfollows.fault e he
    refine ⟨?_, ?_, q, t, hout⟩
    · rw [Statement.readAll_eq, hfault]
    · rw [hfault]

/-- An interpreter with a command that takes a line and one that does not. -/
def taker : Interpreter Routine.Journal where
  settings := {}
  files := { workingDirectory := [] }
  commands := ⟨[⟨"take", [], [{}], fun _ => .nextLine fun _ => .done⟩,
    ⟨"go", [], [{}], fun _ => .done⟩]⟩
  store := { mark := "" }
  mode := 0
  host := {}

/-- The line behind `take` is no part of a statement, nor is the rest of its
own line. -/
theorem runAll_refines_readAll_taker :
    let load : Loader Routine.Journal := fun _ _ => pure ()
    let script : Script := ⟨"main", none⟩
    let text := "take; (\nraw \"\ngo;"
    let r : Reading Routine.Journal := { interpreter := taker, cursor := Cursor.ofText text }
    (∃ t, runAll load script r = .ok () t) ∧
      fetched (events load script r) = Text.lines text ∧
      Statement.readAll "take;\n\ngo;" = .ok (dispatched (events load script r)) ∧
      (dispatched (events load script r)).map Statement.name = ["take", "go"] := by
  intro load script text r
  have hruns : (match runAll load script r with
      | .ok () _ => true
      | .error _ _ => false) = true := by decide +kernel
  have hedited : Text.joinLines (editedLines (Text.lines text) (events load script r)) =
      "take;\n\ngo;" := by decide +kernel
  have hnames : (dispatched (events load script r)).map Statement.name = ["take", "go"] := by
    decide +kernel
  cases hrun : runAll load script r with
  | error d t =>
    rw [hrun] at hruns
    cases hruns
  | ok _ t =>
    obtain ⟨hlines, hread⟩ := (runAll_refines_readAll load script text taker).2.1 t hrun
    rw [hedited] at hread
    exact ⟨⟨t, rfl⟩, hlines, hread, hnames⟩

end Interpreter

end CommandScript
