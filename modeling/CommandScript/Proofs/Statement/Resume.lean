import CommandScript.Proofs.Statement.Root

/-!
# Where a scan stops

A scan that ends a statement has read nothing behind its semicolon: it leaves
the scanner empty (`eq_empty_of_scan`), and it does the same on the line cut
behind the semicolon (`scan_cut`). At the end of a line no word is being
read. So whoever runs a statement may take lines for itself before the rest
of the line is scanned, or leave that rest out.
-/

namespace CommandScript

namespace Scanner

variable {s t : Scanner} {line : Nat}

/-! ## What is left -/

/-- The semicolon of a statement leaves a frame without values. -/
theorem exists_clear_of_step {c : Char} {p : Position} {made : Statement}
    (h : step c p s = .ok (some made) t) : ∃ f : Frame, t = { frames := [f.clear] } := by
  obtain ⟨u, hu, h⟩ := completeStatement_of_step h
  obtain ⟨f, -, -, ht⟩ := completeStatement_eq_ok (word_of_completeWord hu) h
  exact ⟨f, ht⟩

theorem exists_clear_of_scanChars {cs : List Char} {i resume : Nat} {q : Option Lexeme}
    {made : Statement} (h : scanChars line cs i q s = .ok (.statement made resume) t) :
    ∃ f : Frame, t = { frames := [f.clear] } := by
  have hcarries : Carries line (fun _ _ _ _ => True)
      (fun out t => ∀ made resume, out = .statement made resume →
        ∃ f : Frame, t = { frames := [f.clear] }) fun _ _ => True := by
    refine ⟨fun _ => trivial, fun _ => .of_ok fun _ _ _ _ _ hout => ?_, fun _ _ => trivial,
      fun _ => .of_ok fun _ _ _ => trivial, fun _ => .of_ok fun out u hstep => ?_⟩
    · cases hout
    · cases out with
      | none => exact behind_none (fun _ _ hout => by cases hout) fun _ => trivial
      | some made => exact fun _ _ _ => exists_clear_of_step hstep
  exact (hcarries.scanChars trivial).ok h made resume rfl

/-- **A scan that ends a statement leaves the scanner empty.** The frame that is
left is the root. -/
theorem eq_empty_of_scan {text : String} {start resume : Nat} {made : Statement} (hs : Rooted s)
    (h : scan text line start s = .ok (.statement made resume) t) : t = {} := by
  have hroot : Rooted t := (hs.scan text line start).ok h
  obtain ⟨f, rfl⟩ := exists_clear_of_scanChars h
  have htag : f.clear.tag = {} := hroot.tag_eq rfl
  rw [Frame.clear_eq (f := f) htag]

/-- **At the end of a line no word is being read.** -/
theorem word_of_passChars : ∀ {cs : List Char} {i : Nat} {q : Option Lexeme} {s t : Scanner},
    (passChars line cs i q s).outcome = .ok () t → t.word = none := by
  intro cs
  induction cs with
  | nil =>
    intro i q s t h
    cases q with
    | some q => cases h
    | none => exact word_of_completeWord h
  | cons c rest ih =>
    intro i q s t h
    cases q with
    | some q =>
      rw [passChars] at h
      split at h
      · obtain ⟨u, -, h, -⟩ := Passage.followedBy_outcome_ok h
        exact ih h
      · exact ih h
    | none =>
      rw [passChars] at h
      obtain ⟨u, hu, h, -⟩ := Passage.followedBy_outcome_ok h
      split at h
      · rename_i hc
        cases h
        obtain ⟨made, hmade⟩ := exists_of_ofStep hu
        unfold step at hmade
        rw [hc] at hmade
        exact word_of_completeWord (bind_pure_eq_ok_iff.1 hmade).1
      · exact ih h
      · exact ih h

theorem word_of_passLine {text : String} {start : Nat}
    (h : (passLine text line start s).outcome = .ok () t) : t.word = none :=
  word_of_passChars h

theorem word_of_scan {text : String} {start : Nat} (h : scan text line start s = .ok .endOfLine t) :
    t.word = none := by
  have hpass := congrArg Passage.outcome (passLine_of_endOfLine h)
  exact word_of_passLine hpass

/-- **Between lines** no word is being read, and the root is there. -/
structure AtLineEnd (s : Scanner) : Prop where
  word : s.word = none
  rooted : Rooted s

theorem atLineEnd_empty : AtLineEnd {} := ⟨rfl, rooted_empty⟩

theorem atLineEnd_of_scan {text : String} {start : Nat} (hs : Rooted s)
    (h : scan text line start s = .ok .endOfLine t) : AtLineEnd t := by
  have hsafe := hs.scan text line start
  rw [h] at hsafe
  exact ⟨word_of_scan h, hsafe⟩

/-! ## Lines that are cut -/

/-- A scan that ends a statement does so without the characters behind. -/
theorem scanChars_take {made : Statement} {resume : Nat} :
    ∀ {cs : List Char} {i n : Nat} {q : Option Lexeme} {s t : Scanner},
      scanChars line cs i q s = .ok (.statement made resume) t → resume ≤ i + n →
        scanChars line (cs.take n) i q s = .ok (.statement made resume) t := by
  intro cs
  induction cs with
  | nil =>
    intro i n q s t h _
    rw [List.take_nil]
    exact h
  | cons c rest ih =>
    intro i n q s t h hn
    have hr := scanChars_resume h
    -- the scan resumes behind this character, so at least one is kept
    obtain ⟨n, rfl⟩ : ∃ m, n = m + 1 := ⟨n - 1, by omega⟩
    have hrest : ∀ {q' : Option Lexeme} {u : Scanner},
        scanChars line rest (i + 1) q' u = .ok (.statement made resume) t →
          scanChars line (rest.take n) (i + 1) q' u = .ok (.statement made resume) t :=
      fun h => ih h (by omega)
    rw [List.take_succ_cons]
    cases q with
    | some q =>
      rw [scanChars_some] at h ⊢
      split at h
      · rename_i hc
        rw [if_pos hc]
        split at h
        · cases h
        · rename_i u hu
          exact hrest h
      · rename_i hc
        rw [if_neg hc]
        exact hrest h
    | none =>
      rw [scanChars_none] at h ⊢
      split at h
      · cases h
      · exact h
      · split at h
        · cases h
        · exact hrest h
        · exact hrest h

/-- A line up to a character index. -/
def cut (text : String) (n : Nat) : String :=
  String.ofList (text.toList.take n)

/-- **A scan that ends a statement does so on the line cut behind it**, or
further on. -/
theorem scan_cut {text : String} {start resume n : Nat} {made : Statement}
    (h : scan text line start s = .ok (.statement made resume) t) (hn : resume ≤ n) :
    scan (cut text n) line start s = .ok (.statement made resume) t := by
  unfold scan cut at *
  have hr := scanChars_resume h
  rw [String.toList_ofList, List.drop_take]
  exact scanChars_take h (by omega)

/-- Behind the end of a line there is nothing. -/
theorem passLine_of_length_le {text : String} {start : Nat} (h : text.length ≤ start)
    (hs : s.word = none) : passLine text line start s = ⟨[], .ok () s⟩ := by
  unfold passLine
  rw [List.drop_eq_nil_of_le (by rw [String.length_toList]; exact h), passChars,
    completeWord_of_none hs]

/-- **A line cut behind its last statement** has the statements before the
cut, and leaves the scanner empty. -/
theorem passLine_cut {text : String} {start resume : Nat} {made : Statement} (hs : Rooted s)
    (h : scan text line start s = .ok (.statement made resume) t) :
    passLine (cut text resume) line start s = ⟨[made], .ok () {}⟩ := by
  have hempty := eq_empty_of_scan hs h
  have hlen : (cut text resume).length ≤ resume := by
    unfold cut
    rw [String.length_ofList, List.length_take]
    exact Nat.min_le_left _ _
  rw [passLine_of_scan (scan_cut h (Nat.le_refl _)), Passage.followedBy_ok, hempty,
    passLine_of_length_le hlen rfl]
  rfl

end Scanner

end CommandScript
