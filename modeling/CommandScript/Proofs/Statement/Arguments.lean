import CommandScript.Proofs.Statement.Reachable
import CommandScript.Proofs.Statement.Token

/-!
# The arguments of a scanned statement

What a scanner builds can be written down again: words and names are runs,
quoted texts hold no quote, and arrays go only so deep (`Value.IsScanned`).
An open array counts towards the depth of all inside it, so a state keeps how
many more may open (`Scanner.OpenScanned`), and each closed one gives a level
back. Every state that scans lead to keeps to this, also behind a fault
(`Scanner.invariant_spelled`).
-/

namespace CommandScript

/-- A name, if there is one, is a run. -/
def Tag.NamedByRun (t : Tag) : Prop :=
  ∀ w ∈ t.name, Text.IsRun w.toList

/-- **A value that a scanner can build**, with arrays as deep as the number
says. -/
inductive Value.IsScanned : Nat → Value → Prop
  /-- A bare word has the kind that its text allows. -/
  | word {n : Nat} {t : Tag} {w : String} :
      t.NamedByRun → Text.IsRun w.toList → IsScanned n (scalar t (ScalarKind.ofText w) w)
  /-- A quoted text is a string. -/
  | quoted {n : Nat} {t : Tag} {q : String} :
      t.NamedByRun → '"' ∉ q.toList → IsScanned n (scalar t .string q)
  /-- An array is one level above its items. -/
  | array {n : Nat} {t : Tag} {vs : List Value} :
      t.NamedByRun → (∀ v ∈ vs, IsScanned n v) → IsScanned (n + 1) (array t vs)

variable {n : Nat} {v : Value}

theorem Value.IsScanned.namedByRun (h : v.IsScanned n) : v.tag.NamedByRun := by
  cases h with
  | word hname _ => exact hname
  | quoted hname _ => exact hname
  | array hname _ => exact hname

/-- A value may go under any name that is a run. -/
theorem Value.IsScanned.rename {name : Option String} (h : v.IsScanned n)
    (hname : ∀ w ∈ name, Text.IsRun w.toList) : (v.rename name).IsScanned n := by
  cases h with
  | word _ hw => exact .word hname hw
  | quoted _ hq => exact .quoted hname hq
  | array _ hvs => exact .array hname hvs

namespace Scanner

variable {s t : Scanner} {p : Position}

/-! ## States -/

/-- **Frames, innermost first**, when so many more arrays may open inside
them. -/
inductive OpenScanned : Nat → List Frame → Prop
  | root {f : Frame} : (∀ v ∈ f.items, v.IsScanned maxNesting) → OpenScanned maxNesting [f]
  | cons {n : Nat} {f : Frame} {rest : List Frame} :
      f.tag.NamedByRun → (∀ v ∈ f.items, v.IsScanned n) → OpenScanned (n + 1) rest →
      OpenScanned n (f :: rest)

theorem OpenScanned.add_length {frames : List Frame} (h : OpenScanned n frames) :
    n + frames.length = maxNesting + 1 := by
  induction h with
  | root => rfl
  | cons _ _ _ ih =>
    rw [List.length_cons]
    omega

/-- **All that a state holds can be written down again**, and so many more
arrays may open. -/
structure Spelled (n : Nat) (s : Scanner) : Prop where
  /-- The values, and the names of open arrays. -/
  frames : OpenScanned n s.frames
  /-- The word being read. -/
  word : ∀ w ∈ s.word, Text.IsRun w.text.toList
  /-- The name that waits for a value. -/
  label : ∀ l ∈ s.label, Text.IsRun l.text.toList

theorem spelled_empty : Spelled maxNesting {} :=
  ⟨.root (by simp), by simp, by simp⟩

/-! ## Steps -/

/-- A value joins the innermost open array, or the statement. -/
theorem Spelled.push (h : Spelled n s) (hv : v.IsScanned n) : Spelled n (s.push v) := by
  obtain ⟨frames, word, label, started⟩ := s
  obtain ⟨hframes, hword, hlabel⟩ := h
  cases hframes with
  | root hitems => exact ⟨.root (List.forall_mem_cons.2 ⟨hv, hitems⟩), hword, hlabel⟩
  | cons hname hitems hrest =>
    exact ⟨.cons hname (List.forall_mem_cons.2 ⟨hv, hitems⟩) hrest, hword, hlabel⟩

theorem Spelled.attach (h : Spelled n s) (hv : v.IsScanned n) :
    Spelled n (last (attach v s)) := by
  rw [attach_eq]
  split
  · exact h.push hv
  · exact h

/-- A scalar takes the name that waits, which is a run. -/
theorem Spelled.attachScalar (h : Spelled n s) (hv : v.IsScanned n) :
    Spelled n (last (attachScalar v s)) := by
  have hunnamed : Spelled n { s with label := none } := ⟨h.frames, h.word, by simp⟩
  rw [attachScalar_eq]
  refine hunnamed.attach (hv.rename fun w hw => ?_)
  obtain ⟨l, hl, rfl⟩ := Option.map_eq_some_iff.1 hw
  exact h.label l hl

theorem Spelled.completeWord (h : Spelled n s) : Spelled n (last (completeWord s)) := by
  cases hw : s.word with
  | none =>
    rw [completeWord_of_none hw]
    exact h
  | some w =>
    have hrest : Spelled n { s with word := none } := ⟨h.frames, by simp, h.label⟩
    rw [completeWord_of_some hw]
    exact hrest.attachScalar (.word (by simp [Tag.NamedByRun]) (h.word w hw))

theorem Spelled.extendWord {c : Char} (hc : Text.isWordChar c = true) (h : Spelled n s) :
    Spelled n (last (extendWord c p s)) := by
  cases hw : s.word with
  | none =>
    rw [extendWord_of_none hw]
    refine ⟨h.frames, fun w hmem => ?_, h.label⟩
    cases hmem
    exact ⟨by simp, by simpa using hc⟩
  | some w =>
    rw [extendWord_of_some hw]
    refine ⟨h.frames, fun w' hmem => ?_, h.label⟩
    cases hmem
    have hrun : Text.IsRun (w.text.toList ++ [c]) :=
      ⟨by simp, List.forall_mem_append.2 ⟨(h.word w hw).2, by simpa using hc⟩⟩
    rwa [← String.toList_push] at hrun

/-- An open array takes a level, of which there is one left. -/
theorem Spelled.openArray (h : Spelled n s) : ∃ m, Spelled m (last (openArray p s)) := by
  rw [openArray_eq]
  split
  · exact ⟨n, h⟩
  · -- the new array is inside all that are open, and fewer are than may be
    have hroom := h.frames.add_length
    obtain ⟨m, rfl⟩ : ∃ m, n = m + 1 := ⟨n - 1, by omega⟩
    refine ⟨m, .cons (fun w hw => ?_) (by simp) h.frames, h.word, fun _ hl => by cases hl⟩
    obtain ⟨l, hl, rfl⟩ := Option.map_eq_some_iff.1 hw
    exact h.label l hl

/-- A closed array gives its level back. -/
theorem Spelled.closeArray (h : Spelled n s) : ∃ m, Spelled m (last (closeArray p s)) := by
  obtain ⟨-, hout⟩ | ⟨f, g, rest, hf, ⟨l, -, hout⟩ | ⟨-, hout⟩⟩ := closeArray_cases p s
  · rw [hout]
    exact ⟨n, h⟩
  · rw [hout]
    exact ⟨n, h.frames, h.word, fun _ hnone => by cases hnone⟩
  · have hframes := h.frames
    rw [hf] at hframes
    cases hframes with
    | cons hname hitems hrest =>
      have houter : Spelled (n + 1) { s with frames := g :: rest } := ⟨hrest, h.word, h.label⟩
      rw [hout]
      refine ⟨n + 1, houter.attach (.array hname fun v hv => ?_)⟩
      exact hitems v (List.mem_reverse.1 hv)

theorem Spelled.takeLabel (h : Spelled n s) : Spelled n (last (takeLabel p s)) := by
  cases hl : s.label with
  | some l =>
    rw [takeLabel_of_label hl]
    exact h
  | none =>
    cases hw : s.word with
    | none =>
      rw [takeLabel_of_none hl hw]
      exact h
    | some w =>
      rw [takeLabel_of_some hl hw]
      refine ⟨h.frames, fun _ hnone => (by cases hnone), fun l hmem => ?_⟩
      cases hmem
      exact h.word w hw

/-- Arguments that a scanner can build. -/
def ArgumentsScanned (made : Statement) : Prop :=
  ∃ vs q, made.arguments = Value.list vs q ∧ ∀ v ∈ vs, v.IsScanned maxNesting

/-- A semicolon drops the values or keeps them. -/
theorem Spelled.completeStatement (h : Spelled n s) :
    ∃ m, Spelled m (last (completeStatement p s)) := by
  obtain hout | ⟨-, hout⟩ | ⟨f, -, -, hout⟩ := last_completeStatement p s
  · rw [hout]
    exact ⟨n, h⟩
  · rw [hout]
    exact ⟨n, h.frames, h.word, h.label⟩
  · rw [hout]
    exact ⟨maxNesting, .root (by simp [Frame.clear]), h.word, h.label⟩

/-- A semicolon makes a statement of the values. -/
theorem Spelled.arguments {made : Statement} (h : Spelled n s)
    (hmade : Scanner.completeStatement p s = .ok (some made) t) : ArgumentsScanned made := by
  obtain ⟨f, command, arguments, q, hf, hitems, hq⟩ := exists_arguments_of_completeStatement hmade
  have hframes := h.frames
  rw [hf] at hframes
  have hall : ∀ v ∈ f.items, v.IsScanned maxNesting := by
    cases hframes with
    | root hall => exact hall
    | cons _ _ hrest => cases hrest
  refine ⟨arguments, q, hq, fun v hv => hall v (List.mem_reverse.1 ?_)⟩
  rw [hitems]
  exact List.mem_cons_of_mem _ hv

/-! ## Runs -/

/-- **What can be written down is steady**, with some number of levels left. -/
theorem steady_spelled : Steady fun s => ∃ n, Spelled n s where
  markStarted _ _ := fun ⟨n, h⟩ => ⟨n, h.frames, h.word, h.label⟩
  extendWord _ _ _ hc := fun ⟨n, h⟩ => ⟨n, h.extendWord (CharClass.of_eq_word_iff.1 hc)⟩
  completeWord _ := fun ⟨n, h⟩ => ⟨n, h.completeWord⟩
  openArray _ _ := fun ⟨_, h⟩ => h.openArray
  closeArray _ _ := fun ⟨_, h⟩ => h.closeArray
  takeLabel _ _ := fun ⟨n, h⟩ => ⟨n, h.takeLabel⟩
  completeStatement _ _ _ := fun ⟨_, h⟩ => h.completeStatement

/-- **Every state of a scanner can be written down**, and so can the
arguments of the statements that it ends. -/
theorem invariant_spelled : Invariant (fun s => ∃ n, Spelled n s) ArgumentsScanned :=
  steady_spelled.invariant ⟨_, spelled_empty⟩
    (fun _ _ hq ⟨n, h⟩ => ⟨n, h.attachScalar (.quoted (by simp [Tag.NamedByRun]) hq)⟩)
    fun _ _ _ _ ⟨_, h⟩ hmade => h.arguments hmade

end Scanner

/-- **The arguments of a scanned statement** can be written down again. -/
theorem Statement.IsScanned.argumentsScanned {made : Statement} (h : made.IsScanned) :
    Scanner.ArgumentsScanned made :=
  h.of_invariant Scanner.invariant_spelled

theorem Statement.IsScanned.isScanned_of_mem {made : Statement} {vs : List Value}
    (h : made.IsScanned) (hvs : made.arguments.items? = some vs) (hv : v ∈ vs) :
    v.IsScanned maxNesting := by
  obtain ⟨ws, q, hlist, hall⟩ := h.argumentsScanned
  rw [hlist] at hvs
  cases hvs
  exact hall v hv

end CommandScript
