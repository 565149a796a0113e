import CommandScript.Script.Cursor

/-!
# Lines are taken in order

Whatever is taken from a cursor is a run of the lines that were left, and
leaves the lines behind it (`Advances`). A line at a time or a block at a
time, and by whomever, no line is lost and none comes twice.
-/

namespace CommandScript

namespace Cursor

/-- **From one cursor to a later one**, with the lines taken between them. -/
structure Advances (c : Cursor) (ls : List String) (d : Cursor) : Prop where
  /-- The lines of the script stay. -/
  lines : d.lines = c.lines
  /-- What was left is what was taken and what is left. -/
  rest : c.rest = ls ++ d.rest
  /-- Lines taken are counted. -/
  taken : d.taken = c.taken + ls.length

variable {c d e : Cursor} {ls ms : List String}

theorem Advances.refl (c : Cursor) : c.Advances [] c where
  lines := rfl
  rest := rfl
  taken := rfl

theorem Advances.trans (h : c.Advances ls d) (h' : d.Advances ms e) : c.Advances (ls ++ ms) e where
  lines := h'.lines.trans h.lines
  rest := by rw [h.rest, h'.rest, List.append_assoc]
  taken := by
    rw [h'.taken, h.taken, List.length_append]
    omega

/-- A cursor within its lines stays within them. -/
theorem Advances.inBounds (h : c.Advances ls d) (hc : c.taken ≤ c.lines.length) :
    d.taken ≤ d.lines.length := by
  have hlen : c.rest.length = ls.length + d.rest.length := by
    rw [h.rest, List.length_append]
  unfold Cursor.rest at hlen
  rw [List.length_drop, List.length_drop] at hlen
  rw [h.lines, h.taken]
  omega

/-- The cursor has moved exactly if lines were taken. -/
theorem Advances.taken_eq_iff (h : c.Advances ls d) : d.taken = c.taken ↔ ls = [] := by
  rw [h.taken, ← List.length_eq_zero_iff]
  omega

/-- The next line is taken, if there is one. -/
theorem advances_next (c : Cursor) : c.Advances c.next.1.toList c.next.2 := by
  cases hl : c.lines[c.taken]? with
  | none =>
    have hnext : c.next = (none, c) := by
      unfold next
      rw [hl]
    rw [hnext]
    exact .refl c
  | some line =>
    have hnext : c.next = (some line, { c with taken := c.taken + 1 }) := by
      unfold next
      rw [hl]
    refine ⟨?_, ?_, ?_⟩
    · rw [hnext]
    · rw [@rest_of_next c line (by rw [hnext])]
      rw [hnext]
      rfl
    · rw [hnext]
      rfl

/-- Where nothing is next, nothing is left. -/
theorem rest_of_next_eq_none (h : c.next.1 = none) : c.rest = [] := by
  unfold next at h
  split at h
  · rename_i hl
    exact List.drop_eq_nil_of_le (List.getElem?_eq_none_iff.1 hl)
  · cases h

/-- The lines that a block takes: up to the terminator and with it, or all. -/
def blockLines (c : Cursor) (terminator : String) : List String :=
  c.rest.take ((c.rest.takeWhile fun line => !isTerminator terminator line).length + 1)

/-- **The lines of a block are taken**, and its terminator. -/
theorem advances_takeBlock (terminator : String) (hc : c.taken ≤ c.lines.length) :
    c.Advances (c.blockLines terminator) (c.takeBlock terminator).2 := by
  have hrest : c.rest.length = c.lines.length - c.taken := List.length_drop
  obtain ⟨n, hn⟩ : ∃ n, n = (c.rest.takeWhile fun line => !isTerminator terminator line).length :=
    ⟨_, rfl⟩
  unfold blockLines
  rw [← hn]
  -- with a terminator the block ends behind it, and without one nothing is left
  by_cases hlt : n < c.rest.length
  · have hblock : (c.takeBlock terminator).2 = { c with taken := c.taken + n + 1 } := by
      unfold takeBlock
      simp only [← hn, if_pos hlt]
    have hdrop : ({ c with taken := c.taken + n + 1 } : Cursor).rest = c.rest.drop (n + 1) := by
      unfold rest
      rw [List.drop_drop]
      rfl
    rw [hblock]
    refine ⟨rfl, ?_, ?_⟩
    · rw [hdrop, List.take_append_drop]
    · rw [List.length_take]
      change c.taken + n + 1 = c.taken + min (n + 1) c.rest.length
      omega
  · have hblock : (c.takeBlock terminator).2 = { c with taken := c.lines.length } := by
      unfold takeBlock
      simp only [← hn, if_neg hlt]
    have hnil : ({ c with taken := c.lines.length } : Cursor).rest = [] := List.drop_length
    rw [hblock]
    refine ⟨rfl, ?_, ?_⟩
    · rw [hnil, List.append_nil, List.take_of_length_le (by omega)]
    · rw [List.length_take]
      change c.lines.length = c.taken + min (n + 1) c.rest.length
      omega

end Cursor

end CommandScript
