import CommandScript.Proofs.Statement.Resume

/-!
# Lines that are joined

Lines joined to a text are read as the lines they were (`passage_join`). The
lines of the text need not be the same: a carriage return before a line feed
goes, and so does an empty line at the end. Neither matters to the scanner,
to which the first is a blank and the second is nothing.
-/

namespace CommandScript

namespace Text

/-- A text of lines with line feeds between. -/
def joinLines (lines : List String) : String :=
  "\n".intercalate lines

theorem linesFrom_of_no_feed : ∀ {cs seen : List Char}, '\n' ∉ cs →
    linesFrom seen cs = if seen.reverse ++ cs = [] then [] else [seen.reverse ++ cs] := by
  intro cs
  induction cs with
  | nil =>
    intro seen _
    cases seen with
    | nil => rfl
    | cons c seen =>
      rw [List.append_nil, if_neg (by simp)]
      rfl
  | cons c cs ih =>
    intro seen h
    rw [List.mem_cons, not_or] at h
    rw [linesFrom, if_neg (Ne.symm h.1), ih h.2, List.reverse_cons, List.append_assoc]
    rfl

theorem linesFrom_append_feed {rest : List Char} : ∀ {cs seen : List Char}, '\n' ∉ cs →
    linesFrom seen (cs ++ '\n' :: rest) =
      dropReturn (seen.reverse ++ cs) :: linesFrom [] rest := by
  intro cs
  induction cs with
  | nil =>
    intro seen _
    rw [List.nil_append, linesFrom, if_pos rfl, List.append_nil]
  | cons c cs ih =>
    intro seen h
    rw [List.mem_cons, not_or] at h
    rw [List.cons_append, linesFrom, if_neg (Ne.symm h.1), ih h.2, List.reverse_cons,
      List.append_assoc]
    rfl

/-- A line alone is a line, unless it is empty. -/
theorem lines_of_no_feed {l : String} (h : '\n' ∉ l.toList) :
    lines l = if l = "" then [] else [l] := by
  unfold lines
  rw [linesFrom_of_no_feed h, List.reverse_nil, List.nil_append]
  by_cases hl : l = ""
  · subst hl
    rfl
  · rw [if_neg hl, if_neg fun hnil => hl (String.toList_eq_nil_iff.1 hnil), List.map_singleton,
      String.ofList_toList]

/-- The lines behind the first are those of the text behind it. -/
theorem lines_joinLines_cons {l m : String} {ls : List String} (h : '\n' ∉ l.toList) :
    lines (joinLines (l :: m :: ls)) =
      String.ofList (dropReturn l.toList) :: lines (joinLines (m :: ls)) := by
  have htext : (joinLines (l :: m :: ls)).toList =
      l.toList ++ '\n' :: (joinLines (m :: ls)).toList := by
    unfold joinLines
    rw [String.intercalate_cons_cons, String.toList_append, String.toList_append,
      List.append_assoc]
    rfl
  unfold lines
  rw [htext, linesFrom_append_feed h, List.map_cons]
  rfl

end Text

namespace Scanner

variable {s t : Scanner} {line : Nat}

/-- **A carriage return at the end of a line does not matter**: outside
quotes it ends the word that the line end would, and inside them the quotes
are open in any case. -/
theorem passChars_return : ∀ {cs : List Char} {i : Nat} {q : Option Lexeme} {s : Scanner},
    passChars line (cs ++ ['\r']) i q s = passChars line cs i q s := by
  intro cs
  induction cs with
  | nil =>
    intro i q s
    cases q with
    | some q => rfl
    | none =>
      change (Passage.ofStep ((completeWord >>= fun _ => pure none) s)).followedBy
        (fun t => ⟨[], completeWord t⟩) = ⟨[], completeWord s⟩
      rw [bind_eq]
      cases hw : completeWord s with
      | error e t => rfl
      | ok _ t =>
        change (⟨[] ++ [], completeWord t⟩ : Passage) = _
        rw [completeWord_of_none (word_of_completeWord hw)]
        rfl
  | cons c rest ih =>
    intro i q s
    cases q with
    | some q =>
      rw [List.cons_append, passChars, passChars]
      split
      · exact Passage.followedBy_congr fun t _ => ih
      · exact ih
    | none =>
      rw [List.cons_append, passChars, passChars]
      refine Passage.followedBy_congr fun t _ => ?_
      split
      · rfl
      · exact ih
      · exact ih

theorem passLine_dropReturn (text : String) (s : Scanner) :
    passLine (String.ofList (Text.dropReturn text.toList)) line 0 s = passLine text line 0 s := by
  unfold passLine Text.dropReturn
  rw [String.toList_ofList, List.drop_zero, List.drop_zero]
  split
  · rename_i hlast
    obtain ⟨cs, hcs⟩ := List.getLast?_eq_some_iff.1 hlast
    rw [hcs, List.dropLast_concat, passChars_return]
  · rfl

/-- Nothing comes of an empty line between words. -/
theorem passLine_empty (hs : s.word = none) : passLine "" line 0 s = ⟨[], .ok () s⟩ := by
  change (⟨[], completeWord s⟩ : Passage) = _
  rw [completeWord_of_none hs]

/-- **Joined lines are read as the lines they were.** -/
theorem passLines_lines_joinLines : ∀ {ls : List String} {index : Nat} {s : Scanner},
    (∀ l ∈ ls, '\n' ∉ l.toList) → s.word = none →
      passLines (Text.lines (Text.joinLines ls)) index s = passLines ls index s := by
  intro ls
  induction ls with
  | nil =>
    intro index s _ _
    rfl
  | cons l ls ih =>
    intro index s h hs
    have hl := h l List.mem_cons_self
    cases ls with
    | nil =>
      change passLines (Text.lines l) index s = _
      rw [Text.lines_of_no_feed hl]
      -- an empty line at the end of a text is no line of it
      split
      · rename_i hempty
        subst hempty
        change _ = (passLine "" (Position.ordinal index) 0 s).followedBy (passLines [] (index + 1))
        rw [passLine_empty hs]
        rfl
      · rfl
    | cons m ls =>
      rw [Text.lines_joinLines_cons hl, passLines, passLines, passLine_dropReturn]
      refine Passage.followedBy_congr fun t ht => ?_
      exact ih (fun n hn => h n (List.mem_cons_of_mem _ hn)) (word_of_passLine ht)

/-! ## Lines in a row -/

/-- The passage over lines, apart from the end of the script. -/
def passThrough : List String → Nat → Scanner → Passage
  | [], _, s => ⟨[], .ok () s⟩
  | text :: rest, index, s =>
    (passLine text (Position.ordinal index) 0 s).followedBy (passThrough rest (index + 1))

theorem passThrough_append (ls ms : List String) : ∀ (index : Nat) (s : Scanner),
    passThrough (ls ++ ms) index s =
      (passThrough ls index s).followedBy (passThrough ms (index + ls.length)) := by
  induction ls with
  | nil =>
    intro index s
    rw [List.nil_append, passThrough, Passage.followedBy_ok, List.nil_append]
    rfl
  | cons l ls ih =>
    intro index s
    have hindex : index + 1 + ls.length = index + (l :: ls).length := by
      rw [List.length_cons]
      omega
    rw [List.cons_append, passThrough, passThrough, Passage.followedBy_assoc]
    refine Passage.followedBy_congr fun t _ => ?_
    rw [ih, hindex]

/-- The passage over a script goes through its lines, and then it is over. -/
theorem passLines_eq (ls : List String) : ∀ (index : Nat) (s : Scanner),
    passLines ls index s = (passThrough ls index s).followedBy fun t => ⟨[], finish t⟩ := by
  induction ls with
  | nil => exact fun _ _ => rfl
  | cons l ls ih =>
    intro index s
    rw [passLines, passThrough, Passage.followedBy_assoc]
    exact Passage.followedBy_congr fun t _ => ih (index + 1) t

/-- Lines, and the rest of a script behind them. -/
theorem passLines_append (ls ms : List String) (index : Nat) (s : Scanner) :
    passLines (ls ++ ms) index s =
      (passThrough ls index s).followedBy (passLines ms (index + ls.length)) := by
  rw [passLines_eq, passThrough_append, Passage.followedBy_assoc]
  refine Passage.followedBy_congr fun t _ => ?_
  rw [passLines_eq]

theorem passThrough_replicate (hs : s.word = none) : ∀ (n index : Nat),
    passThrough (List.replicate n "") index s = ⟨[], .ok () s⟩ := by
  intro n
  induction n with
  | zero => exact fun _ => rfl
  | succ n ih =>
    intro index
    rw [List.replicate_succ, passThrough, passLine_empty hs, Passage.followedBy_ok, ih]
    rfl

/-- Lines joined to a script are read as the lines they were. -/
theorem passage_joinLines {ls : List String} (h : ∀ l ∈ ls, '\n' ∉ l.toList) :
    Statement.passage (Text.joinLines ls) = passLines ls 0 {} :=
  passLines_lines_joinLines h rfl

end Scanner

end CommandScript
