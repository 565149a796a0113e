import CommandScript.Proofs.Interpreter.Events
import CommandScript.Proofs.Statement.Joined

/-!
# Commands that take lines

A command sees an empty scanner, so the lines it takes are missing from no
statement (`eq_empty_of_scan`), and the rest of its own line, which is
skipped, is cut off from the line that is read. `Follows` says how the events
of a part of the run go with a passage of the scanner, and it goes on from
one part to the next (`Follows.followedBy`). Here a line is followed from
scan to scan.
-/

namespace CommandScript

namespace Interpreter

variable {σ : Host} {load : Loader σ} {script : Script} {r t : Reading σ}
  {out : EStateM.Result Diagnostic (Reading σ) Unit}

/-! ## Statements -/

/-- **A step that takes lines** and leaves the scanner alone. -/
structure Takes (r : Reading σ) (ls : List String) (t : Reading σ) : Prop where
  /-- The lines are the next ones. -/
  cursor : r.cursor.Advances ls t.cursor
  /-- What has been read of a statement stays. -/
  scanner : t.scanner = r.scanner

theorem linesTaken_append (rs qs : List (Request σ)) :
    linesTaken (rs ++ qs) = linesTaken rs ++ linesTaken qs :=
  List.filterMap_append

theorem linesTaken_map_taken (ls : List String) :
    linesTaken (ls.map Request.taken : List (Request σ)) = ls := by
  unfold linesTaken
  rw [List.filterMap_map]
  exact List.filterMap_some

theorem runProgram_load (call : Invocation) (path : String) (share : Bool)
    (next : Except Diagnostic Unit → Program σ) (r : Reading σ) :
    runProgram load call (.load path share next) r =
      match load path share r.interpreter with
      | .ok () i => runProgram load call (next (.ok ())) { r with interpreter := i }
      | .error d i => runProgram load call (next (.error d)) { r with interpreter := i } := by
  cases hload : load path share r.interpreter with
  | ok _ i => simp only [runProgram, hload]
  | error d i => simp only [runProgram, hload]

variable (load) in
/-- **A program takes the lines it asks for**, the next of the script in
order. -/
theorem takes_runProgram (call : Invocation) (p : Program σ) : ∀ {r : Reading σ},
    r.cursor.taken ≤ r.cursor.lines.length →
      Takes r (linesTaken (programRequests load call p r)) (last (runProgram load call p r)) := by
  induction p with
  | finish outcome =>
    intro r _
    cases outcome with
    | error d => exact ⟨.refl _, rfl⟩
    | ok _ => exact ⟨.refl _, rfl⟩
  | getMode next ih => exact fun hr => ih _ hr
  | setMode mode next ih =>
    intro r hr
    have h := ih (r := { r with interpreter := { r.interpreter with mode } }) hr
    exact ⟨h.cursor, h.scanner⟩
  | getStore next ih => exact fun hr => ih _ hr
  | setStore store next ih =>
    intro r hr
    have h := ih (r := { r with interpreter := { r.interpreter with store } }) hr
    exact ⟨h.cursor, h.scanner⟩
  | getHost next ih => exact fun hr => ih _ hr
  | setHost host next ih =>
    intro r hr
    have h := ih (r := { r with interpreter := { r.interpreter with host } }) hr
    exact ⟨h.cursor, h.scanner⟩
  | nextLine next ih =>
    intro r hr
    have hnext := r.cursor.advances_next
    have h := ih r.cursor.next.1 (r := { r with cursor := r.cursor.next.2 }) (hnext.inBounds hr)
    rw [programRequests, linesTaken_append, linesTaken_map_taken]
    exact ⟨hnext.trans h.cursor, h.scanner⟩
  | takeBlock next ih =>
    intro r hr
    let terminator := r.interpreter.settings.blockTerminator
    have hblock := Cursor.advances_takeBlock terminator hr
    have hrest (answer : Except Diagnostic (List String)) :=
      ih answer (r := { r with cursor := (r.cursor.takeBlock terminator).2 }) (hblock.inBounds hr)
    rw [programRequests]
    simp only [linesTaken_append, linesTaken_map_taken]
    exact ⟨hblock.trans (hrest _).cursor, (hrest _).scanner⟩
  | load path share next ih =>
    intro r hr
    rw [programRequests, runProgram_load]
    cases load path share r.interpreter with
    | ok _ i =>
      have h := ih (.ok ()) (r := { r with interpreter := i }) hr
      exact ⟨h.cursor, h.scanner⟩
    | error d i =>
      have h := ih (.error d) (r := { r with interpreter := i }) hr
      exact ⟨h.cursor, h.scanner⟩

/-- What running a statement comes to. -/
theorem dispatch_eq (s : Statement) (r : Reading σ) :
    dispatch load script s r =
      match (announced script s r).interpreter.commands.resolve s.name s.arguments
        (announced script s r).interpreter.mode with
      | .error d => .error d (announced script s r)
      | .ok call =>
        let i := (announced script s r).interpreter
        runProgram load (invocation script s i call) (call.handler (invocation script s i call))
          { r with interpreter := i.noted (.matched s.name call.index call.signature) } := by
  have hnoted : lift (note (.statement script.path s)) r = .ok () (announced script s r) := rfl
  unfold dispatch
  rw [bind_eq, hnoted]
  dsimp only
  rw [get_bind_eq]
  cases (announced script s r).interpreter.commands.resolve s.name s.arguments
    (announced script s r).interpreter.mode with
  | error d => rfl
  | ok call => rfl

variable (load script) in
/-- **A statement takes the lines its command asks for.** -/
theorem takes_dispatch (s : Statement) (hr : r.cursor.taken ≤ r.cursor.lines.length) :
    Takes r (linesTaken (requests load script s r)) (last (dispatch load script s r)) := by
  rw [dispatch_eq, requests]
  cases (announced script s r).interpreter.commands.resolve s.name s.arguments
    (announced script s r).interpreter.mode with
  | error d => exact ⟨.refl _, rfl⟩
  | ok call =>
    let i := (announced script s r).interpreter
    have h := takes_runProgram load (invocation script s i call)
      (call.handler (invocation script s i call))
      (r := { r with interpreter := i.noted (.matched s.name call.index call.signature) }) hr
    exact ⟨h.cursor, h.scanner⟩

/-! ## Events and passages -/

theorem fetched_append (es fs : List (Event σ)) : fetched (es ++ fs) = fetched es ++ fetched fs :=
  List.flatMap_append

theorem dispatched_append (es fs : List (Event σ)) :
    dispatched (es ++ fs) = dispatched es ++ dispatched fs :=
  List.filterMap_append

theorem fetched_statement (s : Statement) (resume : Nat) (rs : List (Request σ)) :
    fetched [.statement s resume rs] = linesTaken rs :=
  List.append_nil _

/-- **How a part of a run goes with a passage of the scanner.** -/
structure Follows (script : Script) (r : Reading σ) (es : List (Event σ)) (p : Passage)
    (out : EStateM.Result Diagnostic (Reading σ) Unit) : Prop where
  /-- The lines taken are the next ones, in order. -/
  cursor : r.cursor.Advances (fetched es) (last out).cursor
  /-- Without a diagnostic, the statements that ran are those of the passage,
  and the scanner is where the passage ends. -/
  ok (t : Reading σ) : out = .ok () t →
    p = ⟨dispatched es, .ok () t.scanner⟩ ∧ t.scanner.AtLineEnd ∧ ∀ e, Event.fault e ∉ es
  /-- A fault of the scanner is that of the passage, and ends the run. -/
  fault (e : ScanError) : Event.fault e ∈ es → ∃ q t,
    out = .error (locate t.interpreter.settings t.cursor script q e.diagnostic) t ∧
      p = ⟨dispatched es, .error e t.scanner⟩
  /-- Any other diagnostic is that of the statement that ran last. -/
  stopped (d : Diagnostic) (t : Reading σ) : out = .error d t →
    (∃ e, Event.fault e ∈ es) ∨ ∃ s resume rs, es.getLast? = some (.statement s resume rs)
  /-- In any case the statements that ran come first in the passage. -/
  ahead : dispatched es <+: p.statements

variable {es fs : List (Event σ)} {p : Passage} {next : Scanner → Passage} {d : Diagnostic}

/-- **One part of a run and the next.** -/
theorem Follows.followedBy (h : Follows script r es p (.ok () t))
    (h' : Follows script t fs (next t.scanner) out) :
    Follows script r (es ++ fs) (p.followedBy next) out := by
  obtain ⟨hp, -, hno⟩ := h.ok t rfl
  have hpassage : p.followedBy next =
      ⟨dispatched es ++ (next t.scanner).statements, (next t.scanner).outcome⟩ := by
    rw [hp, Passage.followedBy_ok]
  rw [hpassage]
  refine ⟨?_, fun u hu => ?_, fun e he => ?_, fun d u hu => ?_, ?_⟩
  · rw [fetched_append]
    exact h.cursor.trans h'.cursor
  · obtain ⟨hnext, hend, hno'⟩ := h'.ok u hu
    rw [hnext, dispatched_append]
    refine ⟨rfl, hend, fun e he => ?_⟩
    rcases List.mem_append.1 he with he | he
    · exact hno e he
    · exact hno' e he
  · rcases List.mem_append.1 he with he | he
    · exact absurd he (hno e)
    · obtain ⟨q, u, hout, hnext⟩ := h'.fault e he
      rw [hnext, dispatched_append]
      exact ⟨q, u, hout, rfl⟩
  · rcases h'.stopped d u hu with ⟨e, he⟩ | ⟨s, resume, rs, hlast⟩
    · exact .inl ⟨e, List.mem_append_right _ he⟩
    · refine .inr ⟨s, resume, rs, ?_⟩
      rw [List.getLast?_append, hlast]
      rfl
  · rw [dispatched_append]
    exact List.prefix_append_right_inj _ |>.2 h'.ahead

/-- A part of a run that ends with a diagnostic is the last. -/
theorem Follows.of_error (h : Follows script r es p (.error d t)) :
    Follows script r es (p.followedBy next) (.error d t) := by
  refine ⟨h.cursor, fun u hu => ?_, fun e he => ?_, h.stopped,
    h.ahead.trans (Passage.statements_prefix_followedBy _ _)⟩
  · cases hu
  · obtain ⟨q, u, hout, hp⟩ := h.fault e he
    rw [hp]
    exact ⟨q, u, hout, rfl⟩

/-- The scanner reads on, and no statement ends. -/
theorem follows_nil {scanner : Scanner} (hend : scanner.AtLineEnd) :
    Follows script r [] ⟨[], .ok () scanner⟩ (.ok () { r with scanner }) := by
  refine ⟨.refl _, fun t ht => ?_, by simp, fun d t ht => ?_, List.nil_prefix⟩
  · cases ht
    exact ⟨rfl, hend, by simp⟩
  · cases ht

/-- The scanner stops at a fault. -/
theorem follows_fault {e : ScanError} {scanner : Scanner} {position : Position} :
    Follows script r [.fault e] ⟨[], .error e scanner⟩
      (.error (locate r.interpreter.settings r.cursor script position e.diagnostic)
        { r with scanner }) := by
  refine ⟨.refl _, fun t ht => ?_, fun e' he => ?_, fun _ _ _ => ?_, List.prefix_rfl⟩
  · cases ht
  · cases List.mem_singleton.1 he
    exact ⟨position, { r with scanner }, rfl, rfl⟩
  · exact .inl ⟨e, List.mem_cons_self⟩

/-! ## Lines -/

theorem located_eq {α : Type} (position : Position) (step : ReadM σ α) (r : Reading σ) :
    located script position step r =
      match step r with
      | .ok a t => .ok a t
      | .error d t => .error (locate t.interpreter.settings t.cursor script position d) t := rfl

theorem scanning_eq {α : Type} (step : ScanM α) (r : Reading σ) :
    scanning step r =
      match step r.scanner with
      | .ok a scanner => .ok a { r with scanner }
      | .error e scanner => .error e.diagnostic { r with scanner } := rfl

/-- **What a scan of a line comes to.** -/
theorem runLine_eq (text : String) (line rounds start : Nat) (r : Reading σ) :
    runLine load script text line (rounds + 1) start r =
      match Scanner.scan text line start r.scanner with
      | .error e scanner =>
        .error (locate r.interpreter.settings r.cursor script ⟨line, 1⟩ e.diagnostic)
          { r with scanner }
      | .ok .endOfLine scanner => .ok () { r with scanner }
      | .ok (.statement s resume) scanner =>
        match dispatch load script s { r with scanner } with
        | .error d t =>
          .error (locate t.interpreter.settings t.cursor script s.position d) t
        | .ok () t =>
          if t.cursor.taken = r.cursor.taken then runLine load script text line rounds resume t
          else .ok () t := by
  rw [runLine, bind_eq, located_eq, scanning_eq]
  cases Scanner.scan text line start r.scanner with
  | error e scanner => rfl
  | ok scan scanner =>
    cases scan with
    | endOfLine => rfl
    | statement s resume =>
      dsimp only
      rw [get_bind_eq, bind_eq, located_eq]
      cases dispatch load script s { r with scanner } with
      | error d t => rfl
      | ok _ t =>
        dsimp only
        rw [get_bind_eq]
        split <;> rfl

variable (load script) in
/-- A line counts as it stands, or up to a character further on. -/
theorem seen_lineEvents (text : String) (line : Nat) : ∀ (rounds start : Nat) (r : Reading σ),
    seen text (lineEvents load script text line rounds start r) = text ∨
      ∃ n, start < n ∧
        seen text (lineEvents load script text line rounds start r) = Scanner.cut text n := by
  intro rounds
  induction rounds with
  | zero => exact fun _ _ => .inl rfl
  | succ rounds ih =>
    intro start r
    rw [lineEvents]
    cases hscan : Scanner.scan text line start r.scanner with
    | error e scanner => exact .inl rfl
    | ok scan scanner =>
      cases scan with
      | endOfLine => exact .inl rfl
      | statement s resume =>
        have hresume := (Scanner.scanChars_resume hscan).1
        dsimp only
        rw [seen]
        split
        · cases dispatch load script s { r with scanner } with
          | error d t => exact .inl rfl
          | ok _ t =>
            dsimp only
            split
            · rcases ih resume t with h | ⟨n, hn, h⟩
              · exact .inl h
              · exact .inr ⟨n, by omega, h⟩
            · exact .inl rfl
        · exact .inr ⟨resume, hresume, rfl⟩

/-- A statement is read on the line as far as it counts. -/
theorem scan_seen {text : String} {line start resume rounds : Nat} {s : Statement}
    {scanner scanner' : Scanner}
    (h : Scanner.scan text line start scanner = .ok (.statement s resume) scanner') :
    Scanner.scan (seen text (lineEvents load script text line rounds resume r)) line start scanner =
      .ok (.statement s resume) scanner' := by
  rcases seen_lineEvents load script text line rounds resume r with
    hseen | ⟨n, hn, hseen⟩
  · rw [hseen]
    exact h
  · rw [hseen]
    exact Scanner.scan_cut h (by omega)

/-- A statement that ends without a diagnostic. -/
theorem follows_statement {s : Statement} (resume : Nat)
    (hr : r.cursor.taken ≤ r.cursor.lines.length)
    (h : dispatch load script s { r with scanner := {} } = .ok () t) :
    Follows script r [.statement s resume (requests load script s { r with scanner := {} })]
      ⟨[s], .ok () {}⟩ (.ok () t) := by
  have htakes := takes_dispatch load script s (r := { r with scanner := {} }) hr
  rw [h] at htakes
  have hscanner : t.scanner = {} := htakes.scanner
  refine ⟨?_, fun u hu => ?_, by simp, fun d u hu => ?_, List.prefix_rfl⟩
  · rw [fetched_statement]
    exact htakes.cursor
  · cases hu
    rw [hscanner]
    exact ⟨rfl, Scanner.atLineEnd_empty, by simp⟩
  · cases hu

/-- A statement that ends with a diagnostic. -/
theorem follows_failed {s : Statement} (resume : Nat) {position : Position}
    (hr : r.cursor.taken ≤ r.cursor.lines.length)
    (h : dispatch load script s { r with scanner := {} } = .error d t)
    (hp : [s] <+: p.statements) :
    Follows script r [.statement s resume (requests load script s { r with scanner := {} })] p
      (.error (locate t.interpreter.settings t.cursor script position d) t) := by
  have htakes := takes_dispatch load script s (r := { r with scanner := {} }) hr
  rw [h] at htakes
  refine ⟨?_, fun u hu => ?_, fun e he => ?_, fun _ _ _ => .inr ⟨s, resume, _, rfl⟩, hp⟩
  · rw [fetched_statement]
    exact htakes.cursor
  · cases hu
  · cases List.mem_singleton.1 he

variable (load script) in
/-- **A line is run as it is read**, as far as it counts. -/
theorem follows_line (text : String) (line : Nat) : ∀ (rounds start : Nat) (r : Reading σ),
    start ≤ text.length → text.length < rounds + start →
    r.cursor.taken ≤ r.cursor.lines.length → r.scanner.Rooted →
      Follows script r (lineEvents load script text line rounds start r)
        (Scanner.passLine (seen text (lineEvents load script text line rounds start r)) line start
          r.scanner)
        (runLine load script text line rounds start r) := by
  intro rounds
  induction rounds with
  | zero =>
    intro start r hs hrounds _ _
    omega
  | succ rounds ih =>
    intro start r hs hrounds hr hroot
    rw [runLine_eq, lineEvents]
    cases hscan : Scanner.scan text line start r.scanner with
    | error e scanner =>
      have hpass : Scanner.passLine text line start r.scanner = ⟨[], .error e scanner⟩ :=
        Scanner.passLine_of_error hscan
      change Follows script r [.fault e] (Scanner.passLine text line start r.scanner) _
      rw [hpass]
      exact follows_fault
    | ok scan scanner =>
      cases scan with
      | endOfLine =>
        have hpass : Scanner.passLine text line start r.scanner = ⟨[], .ok () scanner⟩ :=
          Scanner.passLine_of_endOfLine hscan
        change Follows script r [] (Scanner.passLine text line start r.scanner) _
        rw [hpass]
        exact follows_nil (Scanner.atLineEnd_of_scan hroot hscan)
      | statement s resume =>
        -- the handler finds the scanner empty
        obtain rfl := Scanner.eq_empty_of_scan hroot hscan
        have hbounds := Scanner.resume_of_scan hs hscan
        have htakes := takes_dispatch load script s (r := { r with scanner := {} }) hr
        cases hd : dispatch load script s { r with scanner := {} } with
        | error d t =>
          dsimp only
          rw [hd]
          dsimp only
          refine follows_failed resume hr hd ?_
          -- whether or not the line is cut, its first statement is this one
          rw [seen]
          split
          · change [s] <+: (Scanner.passLine text line start r.scanner).statements
            rw [Scanner.passLine_of_scan hscan, Passage.followedBy_ok]
            exact ⟨_, rfl⟩
          · have hcut := congrArg Passage.statements (Scanner.passLine_cut hroot hscan)
            exact hcut ▸ List.prefix_rfl
        | ok _ t =>
          rw [hd] at htakes
          have hfirst := follows_statement resume hr hd
          have hempty : t.scanner = {} := htakes.scanner
          dsimp only
          rw [hd]
          dsimp only
          -- counting the lines taken is enough to tell whether the command took any
          by_cases htaken : t.cursor.taken = r.cursor.taken
          · have hnone : linesTaken (requests load script s { r with scanner := {} }) = [] :=
              htakes.cursor.taken_eq_iff.1 htaken
            rw [if_pos htaken, if_pos htaken, seen, if_pos hnone,
              Scanner.passLine_of_scan (scan_seen hscan)]
            refine hfirst.followedBy ?_
            exact ih resume t hbounds.2 (by omega) (htakes.cursor.inBounds hr)
              (by rw [hempty]; exact Scanner.rooted_empty)
          · have hsome : linesTaken (requests load script s { r with scanner := {} }) ≠ [] :=
              fun hnone => htaken (htakes.cursor.taken_eq_iff.2 hnone)
            rw [if_neg htaken, if_neg htaken, seen, if_neg hsome, Scanner.passLine_cut hroot hscan]
            exact hfirst

end Interpreter

end CommandScript
