import CommandScript.Proofs.Statement.Root
import Mathlib.Logic.Relation

/-!
# The frames of a statement

What has been read of a statement stands in frames: one for each open array
and, below them, the root. A step of the scanner can only put a value in the
innermost frame, open one, close one into the next, drop it where the next may
not take the array, and clear the root when it is the only one (`Edit`). So
whatever is read, and however that fails, there are never more frames than may
be open. Each one's flag says whether a value in it has a name, and no value
without a name stands behind one with a name (`Proper.edits`,
`invariant_edits`).
-/

namespace CommandScript

/-- Behind a value with a name, all have one. -/
def Value.NamesLast (vs : List Value) : Prop :=
  vs.Pairwise fun v w => v.name.isSome = true → w.name.isSome = true

/-- **A value with names in their place**: in none of its arrays does an item
without a name stand behind one with a name. -/
inductive Value.Orderly : Value → Prop
  | scalar {t : Tag} {k : ScalarKind} {s : String} : Orderly (.scalar t k s)
  | array {t : Tag} {vs : List Value} :
      NamesLast vs → (∀ v ∈ vs, Orderly v) → Orderly (.array t vs)

namespace Scanner

variable {s t : Scanner} {v : Value} {p : Position} {f g : Frame}
  {stack stack' : List Frame}

/-! ## Edits -/

/-- **What a step can do to frames.** -/
inductive Edit : List Frame → List Frame → Prop
  /-- A scalar is put in the innermost frame, whose flag allows it. -/
  | put {v : Value} {f : Frame} {outer : List Frame} :
      v.items? = none → (v.name.isSome || !f.named) = true →
      Edit (f :: outer) (f.push v :: outer)
  /-- A frame is opened. -/
  | opened {tag : Tag} {stack : List Frame} :
      stack.length ≤ maxNesting → Edit stack ({ tag } :: stack)
  /-- The innermost frame is closed, and is an array in the next. -/
  | closed {f g : Frame} {outer : List Frame} :
      (f.tag.name.isSome || !g.named) = true →
      Edit (f :: g :: outer) (g.push (.array f.tag f.items.reverse) :: outer)
  /-- The innermost frame is lost, where the next may not take it. -/
  | dropped {f g : Frame} {outer : List Frame} : Edit (f :: g :: outer) (g :: outer)
  /-- The only frame is cleared. -/
  | cleared {f : Frame} : Edit [f] [f.clear]

/-- Edits one after the other. -/
abbrev Edits : List Frame → List Frame → Prop :=
  Relation.ReflTransGen Edit

/-! ## Steps -/

theorem edits_attach (hv : v.items? = none) : Edits s.frames (last (attach v s)).frames := by
  rw [attach_eq]
  split
  · rename_i hmay
    obtain ⟨f, rest, hf, hname⟩ := exists_of_mayTake hmay
    change Edits s.frames (s.push v).frames
    rw [push_of_cons hf, hf]
    exact .single (.put hv hname)
  · exact .refl

theorem edits_attachScalar (hv : v.items? = none) :
    Edits s.frames (last (attachScalar v s)).frames := by
  have hrename : (v.rename (s.label.map Lexeme.text)).items? = none := by
    cases v with
    | scalar _ _ _ => rfl
    | array _ _ => cases hv
  rw [attachScalar_eq]
  exact edits_attach (s := { s with label := none }) hrename

theorem edits_completeWord (s : Scanner) : Edits s.frames (last (completeWord s)).frames := by
  cases hw : s.word with
  | none =>
    rw [completeWord_of_none hw]
    exact .refl
  | some w =>
    rw [completeWord_of_some hw]
    exact edits_attachScalar (s := { s with word := none }) rfl

theorem edits_extendWord (c : Char) : Edits s.frames (last (extendWord c p s)).frames := by
  cases hw : s.word with
  | none =>
    rw [extendWord_of_none hw]
    exact .refl
  | some w =>
    rw [extendWord_of_some hw]
    exact .refl

theorem edits_takeLabel : Edits s.frames (last (takeLabel p s)).frames := by
  cases hl : s.label with
  | some l =>
    rw [takeLabel_of_label hl]
    exact .refl
  | none =>
    cases hw : s.word with
    | none =>
      rw [takeLabel_of_none hl hw]
      exact .refl
    | some w =>
      rw [takeLabel_of_some hl hw]
      exact .refl

theorem edits_openArray : Edits s.frames (last (openArray p s)).frames := by
  rw [openArray_eq]
  split
  · exact .refl
  · exact .single (.opened (by omega))

theorem edits_closeArray : Edits s.frames (last (closeArray p s)).frames := by
  obtain ⟨-, hout⟩ | ⟨f, g, rest, hf, ⟨l, -, hout⟩ | ⟨-, hout⟩⟩ := closeArray_cases p s
  · rw [hout]
    exact .refl
  · rw [hout]
    exact .refl
  · rw [hout, hf, attach_eq]
    split
    · rename_i hmay
      have hname : (f.tag.name.isSome || !g.named) = true := (mayTake_of_cons rfl).symm.trans hmay
      exact .single (.closed hname)
    · exact .single .dropped

theorem edits_completeStatement : Edits s.frames (last (completeStatement p s)).frames := by
  obtain hout | ⟨-, hout⟩ | ⟨f, hf, -, hout⟩ := last_completeStatement p s
  · rw [hout]
  · rw [hout]
  · rw [hout, hf]
    exact .single .cleared

/-- **Characters make edits**, whether or not they fail. -/
theorem steady_edits (stack : List Frame) : Steady fun s => Edits stack s.frames where
  markStarted _ _ h := h
  extendWord c _ _ _ h := h.trans (edits_extendWord c)
  completeWord s h := h.trans (edits_completeWord s)
  openArray _ _ h := h.trans edits_openArray
  closeArray _ _ h := h.trans edits_closeArray
  takeLabel _ _ h := h.trans edits_takeLabel
  completeStatement _ _ _ h := h.trans edits_completeStatement

/-! ## What edits keep -/

/-- A value may be put behind others, if the flag allows it. -/
theorem namesLast_push (hf : f.Flagged) (hnames : Value.NamesLast f.items.reverse)
    (hmay : (v.name.isSome || !f.named) = true) : Value.NamesLast (f.push v).items.reverse := by
  unfold Frame.push
  rw [List.reverse_cons]
  refine List.pairwise_append.2 ⟨hnames, List.pairwise_singleton _ _, fun w hw u hu hname => ?_⟩
  obtain rfl := List.mem_singleton.1 hu
  rcases Bool.or_eq_true_iff.1 hmay with hnamed | hflag
  · exact hnamed
  · -- the flag is down, so none of the others has a name
    have hnone : f.items.any (fun x => x.name.isSome) = false := by
      rw [← hf]
      simpa using hflag
    exact absurd hname (List.any_eq_false.1 hnone w (List.mem_reverse.1 hw))

/-- **Frames as a scanner has them.** -/
structure Proper (stack : List Frame) : Prop where
  /-- Only so many arrays are open above the root. -/
  length_le : stack.length ≤ maxNesting + 1
  /-- The flags are right. -/
  flagged : ∀ f ∈ stack, f.Flagged
  /-- In each frame, values without names come first. -/
  namesLast : ∀ f ∈ stack, Value.NamesLast f.items.reverse
  /-- So they do in the arrays that are closed. -/
  orderly : ∀ f ∈ stack, ∀ v ∈ f.items, v.Orderly

/-- A frame without values, as the only one, is proper. -/
theorem proper_singleton {tag : Tag} : Proper [{ tag }] where
  length_le := by simp
  flagged := List.forall_mem_singleton.2 rfl
  namesLast := List.forall_mem_singleton.2 .nil
  orderly := by simp

/-- Frames without the innermost one. -/
theorem Proper.tail (h : Proper (f :: stack)) : Proper stack where
  length_le := Nat.le_of_succ_le h.length_le
  flagged := (List.forall_mem_cons.1 h.flagged).2
  namesLast := (List.forall_mem_cons.1 h.namesLast).2
  orderly := (List.forall_mem_cons.1 h.orderly).2

/-- One more value in the innermost frame. -/
theorem Proper.push (h : Proper (f :: stack)) (hv : v.Orderly)
    (hmay : (v.name.isSome || !f.named) = true) : Proper (f.push v :: stack) := by
  obtain ⟨hflag, hflags⟩ := List.forall_mem_cons.1 h.flagged
  obtain ⟨hnames, hnamess⟩ := List.forall_mem_cons.1 h.namesLast
  obtain ⟨hinner, houter⟩ := List.forall_mem_cons.1 h.orderly
  exact ⟨h.length_le, List.forall_mem_cons.2 ⟨hflag.push v, hflags⟩,
    List.forall_mem_cons.2 ⟨namesLast_push hflag hnames hmay, hnamess⟩,
    List.forall_mem_cons.2 ⟨List.forall_mem_cons.2 ⟨hv, hinner⟩, houter⟩⟩

theorem Proper.edit (h : Proper stack) (hedit : Edit stack stack') : Proper stack' := by
  cases hedit with
  | @put v f outer hscalar hmay =>
    cases v with
    | scalar _ _ _ => exact h.push .scalar hmay
    | array _ _ => cases hscalar
  | opened hlen =>
    exact ⟨Nat.succ_le_succ hlen, List.forall_mem_cons.2 ⟨rfl, h.flagged⟩,
      List.forall_mem_cons.2 ⟨.nil, h.namesLast⟩, List.forall_mem_cons.2 ⟨by simp, h.orderly⟩⟩
  | @closed f g outer hmay =>
    have harray : (Value.array f.tag f.items.reverse).Orderly :=
      .array (h.namesLast f List.mem_cons_self) fun v hv =>
        h.orderly f List.mem_cons_self v (List.mem_reverse.1 hv)
    exact h.tail.push harray hmay
  | dropped => exact h.tail
  | cleared => exact proper_singleton

theorem Proper.edits (h : Proper stack) (hedits : Edits stack stack') : Proper stack' := by
  induction hedits with
  | refl => exact h
  | tail _ hedit ih => exact ih.edit hedit

/-- The values of the root are in order, and so are the arguments of a
statement. -/
theorem orderly_of_completeStatement {made : Statement} (h : Proper s.frames)
    (hmade : completeStatement p s = .ok (some made) t) : made.arguments.Orderly := by
  obtain ⟨f, command, arguments, q, hf, hitems, hq⟩ := exists_arguments_of_completeStatement hmade
  have hmem : f ∈ s.frames := by simp [hf]
  have hnames := h.namesLast f hmem
  rw [hitems] at hnames
  rw [hq]
  refine .array (List.pairwise_cons.1 hnames).2 fun v hv => h.orderly f hmem v ?_
  rw [← List.mem_reverse, hitems]
  exact List.mem_cons_of_mem _ hv

/-- **The frames of every state come about by edits** from the root of a fresh
scanner, behind whatever faults, and the arguments of statements have names in
their place. -/
theorem invariant_edits :
    Invariant (fun s => Edits [{}] s.frames) fun made => made.arguments.Orderly :=
  (steady_edits [{}]).invariant .refl (fun _ _ _ h => h.trans (edits_attachScalar rfl))
    fun _ _ _ _ h hmade => orderly_of_completeStatement (proper_singleton.edits h) hmade

theorem Reachable.proper (h : Reachable s) : Proper s.frames :=
  proper_singleton.edits (invariant_edits.of_reachable h)

end Scanner

/-- **The arguments of a scanned statement** have names in their place. -/
theorem Statement.IsScanned.orderly {made : Statement} (h : made.IsScanned) :
    made.arguments.Orderly :=
  h.of_invariant Scanner.invariant_edits

end CommandScript
