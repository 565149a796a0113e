import CommandScript.Proofs.Interpreter.Transaction

/-!
# The statements of a run

The points of a run are the statements that run in it, each with the state
it runs in. They are what the run depends on: between two points the scanner
reads on and the host is not asked, so a loader matters only where a
statement includes a script (`runAll_congr`), and a statement that ends with
a diagnostic ends the run with it (`runAll_of_failed`). Up to each point, and
up to each inclusion, what has happened is balanced.
-/

namespace CommandScript

namespace Interpreter

variable {σ : Host} {load load' : Loader σ} {script : Script} {r t u : Reading σ}

/-- A statement that runs, and the state in which it does. -/
structure Point (σ : Host) where
  /-- The statement. -/
  statement : Statement
  /-- The state of reading the script. -/
  reading : Reading σ

/-- The points on a line, from a character index on. -/
def linePoints (load : Loader σ) (script : Script) (text : String) (line : Nat) :
    Nat → Nat → Reading σ → List (Point σ)
  | 0, _, _ => []
  | rounds + 1, start, r =>
    match Scanner.scan text line start r.scanner with
    | .error _ _ => []
    | .ok .endOfLine _ => []
    | .ok (.statement s resume) scanner =>
      ⟨s, { r with scanner }⟩ ::
        match dispatch load script s { r with scanner } with
        | .error _ _ => []
        | .ok () t =>
          if t.cursor.taken = r.cursor.taken then linePoints load script text line rounds resume t
          else []

/-- The points of the lines that are left, of which there are at most so
many. -/
def linesPoints (load : Loader σ) (script : Script) : Nat → Reading σ → List (Point σ)
  | 0, _ => []
  | left + 1, r =>
    match r.cursor.next with
    | (none, _) => []
    | (some text, cursor) =>
      linePoints load script text cursor.number (text.length + 1) 0 { r with cursor } ++
        match runLine load script text cursor.number (text.length + 1) 0 { r with cursor } with
        | .error _ _ => []
        | .ok () t => linesPoints load script left t

/-- **The points of a run**, from the first line of a script to its end. -/
def points (load : Loader σ) (script : Script) (r : Reading σ) : List (Point σ) :=
  linesPoints load script r.cursor.lines.length r

/-- **The points on a line** are the first statement and those behind it. -/
theorem mem_linePoints {text : String} {line rounds start : Nat} {x : Point σ} :
    x ∈ linePoints load script text line (rounds + 1) start r ↔
      ∃ s resume scanner, Scanner.scan text line start r.scanner = .ok (.statement s resume) scanner ∧
        (x = ⟨s, { r with scanner }⟩ ∨
          ∃ t, dispatch load script s { r with scanner } = .ok () t ∧
            t.cursor.taken = r.cursor.taken ∧
            x ∈ linePoints load script text line rounds resume t) := by
  rw [linePoints]
  cases Scanner.scan text line start r.scanner with
  | error e scanner => simp
  | ok scan scanner =>
    cases scan with
    | endOfLine => simp
    | statement s resume =>
      dsimp only
      rw [List.mem_cons]
      constructor
      · rintro (rfl | h)
        · exact ⟨s, resume, scanner, rfl, .inl rfl⟩
        · refine ⟨s, resume, scanner, rfl, .inr ?_⟩
          cases hd : dispatch load script s { r with scanner } with
          | error d t =>
            rw [hd] at h
            cases h
          | ok _ t =>
            rw [hd] at h
            dsimp only at h
            split at h
            · rename_i htaken
              exact ⟨t, rfl, htaken, h⟩
            · cases h
      · rintro ⟨s', resume', scanner', heq, h⟩
        cases heq
        rcases h with rfl | ⟨t, hd, htaken, h⟩
        · exact .inl rfl
        · rw [hd]
          dsimp only
          rw [if_pos htaken]
          exact .inr h

/-- **The points of lines** are those of the first line and those behind it. -/
theorem mem_linesPoints {left : Nat} {x : Point σ} :
    x ∈ linesPoints load script (left + 1) r ↔
      ∃ text cursor, r.cursor.next = (some text, cursor) ∧
        (x ∈ linePoints load script text cursor.number (text.length + 1) 0 { r with cursor } ∨
          ∃ t, runLine load script text cursor.number (text.length + 1) 0 { r with cursor } =
              .ok () t ∧
            x ∈ linesPoints load script left t) := by
  rw [linesPoints]
  cases r.cursor.next with
  | mk text? cursor =>
    cases text? with
    | none => simp
    | some text =>
      dsimp only
      rw [List.mem_append]
      constructor
      · rintro (h | h)
        · exact ⟨text, cursor, rfl, .inl h⟩
        · refine ⟨text, cursor, rfl, .inr ?_⟩
          cases hrun : runLine load script text cursor.number (text.length + 1) 0
            { r with cursor } with
          | error d t =>
            rw [hrun] at h
            cases h
          | ok _ t =>
            rw [hrun] at h
            exact ⟨t, rfl, h⟩
      · rintro ⟨text', cursor', heq, h⟩
        cases heq
        rcases h with h | ⟨t, hrun, h⟩
        · exact .inl h
        · rw [hrun]
          exact .inr h

/-! ## Balance -/

section Balance

/-- What is balanced up to a state is so behind balanced steps too. -/
theorem Balanced.exists_trans {i j k : Interpreter σ} {js : List Key} (h : Balanced i js j)
    (hlater : ∃ ks, Balanced j ks k) : ∃ ks, Balanced i ks k := by
  obtain ⟨ks, hks⟩ := hlater
  exact ⟨_, h.trans hks⟩

variable {pushes : String → Bool → Interpreter σ → List Key} {path : String} {share : Bool}
  {before : Interpreter σ} {x : Point σ}
  (hload : ∀ path share i, Balanced i (pushes path share i) (last (load path share i)))

include hload

/-- **A program is balanced up to each script that it includes.** -/
theorem balanced_before (call : Invocation) (p : Program σ) : ∀ {r : Reading σ},
    .load path share before ∈ programRequests load call p r →
      ∃ ks, Balanced r.interpreter ks before := by
  induction p with
  | finish outcome =>
    intro r h
    cases h
  | getMode next ih => exact ih _
  | setMode mode next ih =>
    intro r h
    have hfirst := balanced_quiet r.interpreter mode r.interpreter.store r.interpreter.host
      r.interpreter.log
    exact hfirst.exists_trans (ih h)
  | getStore next ih => exact ih _
  | setStore store next ih =>
    intro r h
    have hfirst := balanced_quiet r.interpreter r.interpreter.mode store r.interpreter.host
      r.interpreter.log
    exact hfirst.exists_trans (ih h)
  | getHost next ih => exact ih _
  | setHost host next ih =>
    intro r h
    have hfirst := balanced_quiet r.interpreter r.interpreter.mode r.interpreter.store host
      r.interpreter.log
    exact hfirst.exists_trans (ih h)
  | nextLine next ih =>
    intro r h
    rcases List.mem_append.1 h with h | h
    · obtain ⟨l, -, hl⟩ := List.mem_map.1 h
      cases hl
    · exact ih r.cursor.next.1 (r := { r with cursor := r.cursor.next.2 }) h
  | takeBlock next ih =>
    intro r h
    let terminator := r.interpreter.settings.blockTerminator
    rcases List.mem_append.1 h with h | h
    · obtain ⟨l, -, hl⟩ := List.mem_map.1 h
      cases hl
    · exact ih _ (r := { r with cursor := (r.cursor.takeBlock terminator).2 }) h
  | load path' share' next ih =>
    intro r h
    have hfirst := hload path' share' r.interpreter
    rw [programRequests] at h
    rcases List.mem_cons.1 h with h | h
    · cases h
      exact ⟨_, .refl _⟩
    · cases hl : load path' share' r.interpreter with
      | ok _ i =>
        rw [hl] at hfirst h
        exact hfirst.exists_trans (ih (.ok ()) (r := { r with interpreter := i }) h)
      | error d i =>
        rw [hl] at hfirst h
        exact hfirst.exists_trans (ih (.error d) (r := { r with interpreter := i }) h)

/-- A statement is balanced up to each script that it includes. -/
theorem balanced_of_mem_requests {s : Statement}
    (h : .load path share before ∈ requests load script s r) :
    ∃ ks, Balanced r.interpreter ks before := by
  have hfirst := balanced_noted r.interpreter (.statement script.path s)
  unfold requests at h
  dsimp only at h
  cases hcall : (announced script s r).interpreter.commands.resolve s.name s.arguments
    (announced script s r).interpreter.mode with
  | error d =>
    rw [hcall] at h
    cases h
  | ok call =>
    rw [hcall] at h
    have hsecond := hfirst.trans (balanced_noted (announced script s r).interpreter
      (.matched s.name call.index call.signature))
    exact hsecond.exists_trans (balanced_before hload _ _ h)

/-- A line is balanced up to each point. -/
theorem balanced_of_mem_linePoints {text : String} {line : Nat} :
    ∀ {rounds start : Nat} {r : Reading σ}, x ∈ linePoints load script text line rounds start r →
      ∃ ks, Balanced r.interpreter ks x.reading.interpreter := by
  intro rounds
  induction rounds with
  | zero =>
    intro start r h
    cases h
  | succ rounds ih =>
    intro start r h
    obtain ⟨s, resume, scanner, -, h⟩ := mem_linePoints.1 h
    rcases h with rfl | ⟨t, hd, -, h⟩
    · exact ⟨_, .refl _⟩
    · have hfirst := balanced_dispatch script hload s { r with scanner }
      rw [hd] at hfirst
      exact hfirst.exists_trans (ih h)

/-- Lines are balanced up to each point. -/
theorem balanced_of_mem_linesPoints : ∀ {left : Nat} {r : Reading σ},
    x ∈ linesPoints load script left r → ∃ ks, Balanced r.interpreter ks x.reading.interpreter := by
  intro left
  induction left with
  | zero =>
    intro r h
    cases h
  | succ left ih =>
    intro r h
    obtain ⟨text, cursor, -, h⟩ := mem_linesPoints.1 h
    rcases h with h | ⟨t, hrun, h⟩
    · exact balanced_of_mem_linePoints hload (r := { r with cursor }) h
    · have hfirst := balanced_runLine script hload text cursor.number (text.length + 1) 0
        { r with cursor }
      rw [hrun] at hfirst
      exact hfirst.exists_trans (ih h)

/-- **A run is balanced up to each script that is included in it.** -/
theorem balanced_of_load (hx : x ∈ points load script r)
    (h : .load path share before ∈ requests load script x.statement x.reading) :
    ∃ ks, Balanced r.interpreter ks before := by
  obtain ⟨ks, hks⟩ := balanced_of_mem_linesPoints hload hx
  exact hks.exists_trans (balanced_of_mem_requests hload h)

end Balance

/-! ## Loaders -/

/-- **A program depends on the loader only where it includes a script.** -/
theorem runProgram_congr (call : Invocation) (p : Program σ) : ∀ {r : Reading σ},
    (∀ path share before, .load path share before ∈ programRequests load call p r →
      load' path share before = load path share before) →
        runProgram load' call p r = runProgram load call p r := by
  induction p with
  | finish outcome =>
    intro r _
    cases outcome with
    | error d => rfl
    | ok _ => rfl
  | getMode next ih => exact fun h => ih _ h
  | setMode mode next ih => exact fun h => ih h
  | getStore next ih => exact fun h => ih _ h
  | setStore store next ih => exact fun h => ih h
  | getHost next ih => exact fun h => ih _ h
  | setHost host next ih => exact fun h => ih h
  | nextLine next ih =>
    intro r h
    exact ih r.cursor.next.1 (r := { r with cursor := r.cursor.next.2 })
      fun path share before hmem => h path share before (List.mem_append_right _ hmem)
  | takeBlock next ih =>
    intro r h
    let terminator := r.interpreter.settings.blockTerminator
    exact ih _ (r := { r with cursor := (r.cursor.takeBlock terminator).2 })
      fun path share before hmem => h path share before (List.mem_append_right _ hmem)
  | load path share next ih =>
    intro r h
    rw [programRequests] at h
    rw [runProgram_load, runProgram_load, h path share r.interpreter List.mem_cons_self]
    cases hl : load path share r.interpreter with
    | ok _ i =>
      rw [hl] at h
      exact ih (.ok ()) (r := { r with interpreter := i })
        fun path share before hmem => h path share before (List.mem_cons_of_mem _ hmem)
    | error d i =>
      rw [hl] at h
      exact ih (.error d) (r := { r with interpreter := i })
        fun path share before hmem => h path share before (List.mem_cons_of_mem _ hmem)

/-- A statement depends on the loader only where it includes a script. -/
theorem dispatch_congr {s : Statement}
    (h : ∀ path share before, .load path share before ∈ requests load script s r →
      load' path share before = load path share before) :
    dispatch load' script s r = dispatch load script s r := by
  unfold requests at h
  dsimp only at h
  rw [dispatch_eq, dispatch_eq]
  cases hcall : (announced script s r).interpreter.commands.resolve s.name s.arguments
    (announced script s r).interpreter.mode with
  | error d => rfl
  | ok call =>
    rw [hcall] at h
    exact runProgram_congr _ _ h

/-- Two loaders that do the same wherever one of the points includes a
script. -/
def Agree (load load' : Loader σ) (script : Script) (xs : List (Point σ)) : Prop :=
  ∀ x ∈ xs, ∀ path share before,
    .load path share before ∈ requests load script x.statement x.reading →
      load' path share before = load path share before

theorem runLine_congr {text : String} {line : Nat} : ∀ {rounds start : Nat} {r : Reading σ},
    Agree load load' script (linePoints load script text line rounds start r) →
      runLine load' script text line rounds start r =
        runLine load script text line rounds start r := by
  intro rounds
  induction rounds with
  | zero => exact fun _ => rfl
  | succ rounds ih =>
    intro start r h
    rw [runLine_eq, runLine_eq]
    cases hscan : Scanner.scan text line start r.scanner with
    | error e scanner => rfl
    | ok scan scanner =>
      cases scan with
      | endOfLine => rfl
      | statement s resume =>
        dsimp only
        have hfirst := dispatch_congr
          (h ⟨s, { r with scanner }⟩ (mem_linePoints.2 ⟨s, resume, scanner, hscan, .inl rfl⟩))
        rw [hfirst]
        cases hd : dispatch load script s { r with scanner } with
        | error d t => rfl
        | ok _ t =>
          dsimp only
          split
          · rename_i htaken
            refine ih fun x hx => h x ?_
            exact mem_linePoints.2 ⟨s, resume, scanner, hscan, .inr ⟨t, hd, htaken, hx⟩⟩
          · rfl

theorem runLines_congr : ∀ {left : Nat} {r : Reading σ},
    Agree load load' script (linesPoints load script left r) →
      runLines load' script left r = runLines load script left r := by
  intro left
  induction left with
  | zero => exact fun _ => rfl
  | succ left ih =>
    intro r h
    rw [runLines_eq, runLines_eq]
    cases hnext : r.cursor.next with
    | mk text? cursor =>
      cases text? with
      | none => rfl
      | some text =>
        dsimp only
        have hfirst : Agree load load' script
            (linePoints load script text cursor.number (text.length + 1) 0 { r with cursor }) :=
          fun x hx => h x (mem_linesPoints.2 ⟨text, cursor, hnext, .inl hx⟩)
        rw [runLine_congr hfirst]
        cases hrun : runLine load script text cursor.number (text.length + 1) 0
          { r with cursor } with
        | error d t => rfl
        | ok _ t =>
          refine ih fun x hx => h x ?_
          exact mem_linesPoints.2 ⟨text, cursor, hnext, .inr ⟨t, hrun, hx⟩⟩

/-- **A run depends on the loader only where it includes a script.** -/
theorem runAll_congr (h : Agree load load' script (points load script r)) :
    runAll load' script r = runAll load script r := by
  rw [runAll_eq, runAll_eq, runLines_congr h]

/-! ## Failing points -/

section Failing

variable {x : Point σ} {d : Diagnostic}
  (hd : dispatch load script x.statement x.reading = .error d t)

include hd

theorem runLine_of_failed {text : String} {line : Nat} : ∀ {rounds start : Nat} {r : Reading σ},
    x ∈ linePoints load script text line rounds start r →
      runLine load script text line rounds start r =
        .error (locate t.interpreter.settings t.cursor script x.statement.position d) t := by
  intro rounds
  induction rounds with
  | zero =>
    intro start r hx
    cases hx
  | succ rounds ih =>
    intro start r hx
    obtain ⟨s, resume, scanner, hscan, hx⟩ := mem_linePoints.1 hx
    rw [runLine_eq, hscan]
    rcases hx with rfl | ⟨u, hu, htaken, hx⟩
    · dsimp only at hd ⊢
      rw [hd]
    · dsimp only
      rw [hu]
      dsimp only
      rw [if_pos htaken]
      exact ih hx

theorem runLines_of_failed : ∀ {left : Nat} {r : Reading σ},
    x ∈ linesPoints load script left r →
      runLines load script left r =
        .error (locate t.interpreter.settings t.cursor script x.statement.position d) t := by
  intro left
  induction left with
  | zero =>
    intro r hx
    cases hx
  | succ left ih =>
    intro r hx
    obtain ⟨text, cursor, hnext, hx⟩ := mem_linesPoints.1 hx
    rw [runLines_eq, hnext]
    dsimp only
    rcases hx with hx | ⟨u, hu, hx⟩
    · rw [runLine_of_failed hd hx]
    · rw [hu]
      exact ih hx

/-- **A statement that ends with a diagnostic ends the run with it**, placed
in the script at the statement unless it has a place. -/
theorem runAll_of_failed (hx : x ∈ points load script r) :
    runAll load script r =
      .error (locate t.interpreter.settings t.cursor script x.statement.position d) t := by
  rw [runAll_eq, runLines_of_failed hd hx]

end Failing

end Interpreter

end CommandScript
