/-!
# Lines

A line ends with a line feed, or with a carriage return and a line feed. A
carriage return elsewhere is part of its line, and a text that ends with a
line feed has no empty line after it.
-/

namespace CommandScript

namespace Text

/-- A line without the carriage return that belongs to its line end. -/
def dropReturn (line : List Char) : List Char :=
  if line.getLast? = some '\r' then line.dropLast else line

/-- The lines of a text, given the characters of the current line so far,
latest first. -/
def linesFrom : List Char → List Char → List (List Char)
  | [], [] => []
  | seen@(_ :: _), [] => [seen.reverse]
  | seen, c :: rest =>
    if c = '\n' then dropReturn seen.reverse :: linesFrom [] rest
    else linesFrom (c :: seen) rest

theorem dropReturn_subset {line : List Char} {c : Char} (h : c ∈ dropReturn line) : c ∈ line := by
  unfold dropReturn at h
  split at h
  · exact List.dropLast_subset line h
  · exact h

theorem linesFrom_no_feed {line rest : List Char} : ∀ {seen : List Char}, '\n' ∉ seen →
    line ∈ linesFrom seen rest → '\n' ∉ line := by
  induction rest with
  | nil =>
    intro seen hs hl
    cases seen with
    | nil => simp [linesFrom] at hl
    | cons c cs =>
      simp only [linesFrom, List.mem_singleton] at hl
      subst hl
      rw [List.mem_reverse]
      exact hs
  | cons c rest ih =>
    intro seen hs hl
    simp only [linesFrom] at hl
    by_cases hc : c = '\n'
    · rw [if_pos hc] at hl
      rcases List.mem_cons.1 hl with rfl | hl
      · intro hm
        exact hs (List.mem_reverse.1 (dropReturn_subset hm))
      · exact ih (by simp) hl
    · rw [if_neg hc] at hl
      exact ih (by simp [hs, Ne.symm hc]) hl

/-- The lines of a text, in order, without their line ends. -/
def lines (s : String) : List String :=
  (linesFrom [] s.toList).map String.ofList

/-- No line holds a line feed. -/
theorem lines_no_feed {s line : String} (h : line ∈ lines s) : '\n' ∉ line.toList := by
  obtain ⟨l, hl, rfl⟩ := List.mem_map.1 h
  rw [String.toList_ofList]
  exact linesFrom_no_feed (by simp) hl

end Text

end CommandScript
