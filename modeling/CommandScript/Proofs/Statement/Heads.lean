import CommandScript.Proofs.Statement.Places
import CommandScript.Proofs.Statement.Root

/-!
# What a statement begins with

A statement starts at a place, and what begins there is its first value, though
that may not have been read to its end. It may still be a word or a quoted text
that is being read, or a name that waits for its value, or an array that is
open. Of what stands outside all arrays (`heads`, `pending`) the first begins
where the statement has started, then, and each step keeps it so (`Leads`).
-/

namespace CommandScript

namespace Scanner

variable {ls : List String} {s : Scanner} {v : Value} {p : Position} {q : Option Lexeme}
  {started : Option Position} {xs : List Tag}

/-- What frames have outside arrays, in order: the values of the root and then
the outermost open array, behind which the others come. -/
def heads : List Frame → List Tag
  | [] => []
  | [root] => root.items.reverse.map Value.tag
  | f :: g :: rest => heads (g :: rest) ++ [f.tag]

/-- What is being read, be it in quotes: the name that waits, or the text. -/
def pending (q : Option Lexeme) (s : Scanner) : List Tag :=
  match s.label, s.word.or q with
  | some l, _ => [⟨some l.text, l.start⟩]
  | none, some w => [⟨none, w.start⟩]
  | none, none => []

/-- The first of these begins where the statement has started. -/
def LeadsWith (ls : List String) (started : Option Position) (xs : List Tag) : Prop :=
  ∀ a ∈ started, ∃ x ∈ xs.head?, BeginsAt ls a x

/-- **What has been read begins where the statement has started.** -/
def Leads (ls : List String) (q : Option Lexeme) (s : Scanner) : Prop :=
  LeadsWith ls s.started (heads s.frames ++ pending q s)

theorem pending_eq_nil (hlabel : s.label = none) (hword : s.word.or q = none) :
    pending q s = [] := by
  unfold pending
  rw [hlabel, hword]

theorem leads_empty (q : Option Lexeme) : Leads ls q {} :=
  fun _ ha => by cases ha

/-! ## The first of some -/

/-- What comes behind does not matter. -/
theorem LeadsWith.append (h : LeadsWith ls started xs) (ys : List Tag) :
    LeadsWith ls started (xs ++ ys) := by
  intro a ha
  obtain ⟨x, hx, hbegins⟩ := h a ha
  refine ⟨x, ?_, hbegins⟩
  rw [List.head?_append, Option.mem_def.1 hx]
  rfl

/-- The last may be changed for one that begins where it does. -/
theorem LeadsWith.replace {x y : Tag} (h : LeadsWith ls started (xs ++ [x]))
    (hxy : ∀ a, BeginsAt ls a x → BeginsAt ls a y) : LeadsWith ls started (xs ++ [y]) := by
  intro a ha
  obtain ⟨z, hz, hbegins⟩ := h a ha
  cases xs with
  | nil =>
    cases hz
    exact ⟨y, rfl, hxy a hbegins⟩
  | cons w xs => exact ⟨z, hz, hbegins⟩

/-- A value goes behind what is outside arrays, or it goes into one. -/
theorem head?_heads_push (f : Frame) (rest : List Frame) (v : Value) :
    (heads (f.push v :: rest)).head? = (heads (f :: rest) ++ [v.tag]).head? := by
  cases rest with
  | nil => simp [heads, Frame.push]
  | cons g rest => simp [heads, Frame.push, List.head?_append]

theorem heads_cons {stack : List Frame} (f : Frame) (hne : stack ≠ []) :
    heads (f :: stack) = heads stack ++ [f.tag] := by
  cases stack with
  | nil => exact absurd rfl hne
  | cons g rest => rfl

/-! ## Steps -/

/-- A text that is being read will be a value there, under the name that
waits. -/
theorem leads_iff_of_word {w : Lexeme} (hw : s.word.or q = some w) :
    Leads ls q s ↔
      LeadsWith ls s.started (heads s.frames ++ [⟨s.label.map Lexeme.text, w.start⟩]) := by
  unfold Leads pending
  rw [hw]
  cases s.label with
  | none => exact Iff.rfl
  -- where there is a name, the place of the value itself does not matter
  | some l => exact ⟨fun h => h.replace fun _ => id, fun h => h.replace fun _ => id⟩

/-- What begins at a place begins the statement, or comes behind what does. -/
theorem Leads.begin (h : Leads ls none s) (hword : s.word = none)
    (hidle : s.started = none → s = {}) (p : Position) :
    LeadsWith ls (s.started.or (some p))
      (heads s.frames ++ [⟨s.label.map Lexeme.text, p⟩]) := by
  cases hs : s.started with
  | none =>
    rw [hidle hs]
    intro a ha
    cases ha
    exact ⟨⟨none, p⟩, rfl, rfl⟩
  | some a =>
    unfold Leads at h
    rw [hs] at h
    cases hl : s.label with
    | none =>
      rw [pending_eq_nil hl (by rw [hword]; rfl), List.append_nil] at h
      exact h.append _
    | some l =>
      unfold pending at h
      rw [hl] at h
      exact h.replace fun _ => id

/-- A value is taken. -/
theorem leads_push (hroot : Rooted s) (hword : s.word = none) (hlabel : s.label = none)
    (h : LeadsWith ls s.started (heads s.frames ++ [v.tag])) : Leads ls none (s.push v) := by
  obtain ⟨f, rest, hf⟩ := hroot.exists_cons
  have hnone : pending none (s.push v) = [] :=
    pending_eq_nil (by rw [label_push, hlabel]) (by rw [word_push, hword]; rfl)
  intro a ha
  rw [started_push] at ha
  rw [hnone, List.append_nil, push_of_cons hf, head?_heads_push, ← hf]
  exact h a ha

/-- An array is opened. -/
theorem leads_open (hroot : Rooted s) (hword : s.word = none)
    (h : LeadsWith ls started (heads s.frames ++ [⟨s.label.map Lexeme.text, p⟩])) :
    Leads ls none
      { s with
        frames := { tag := ⟨s.label.map Lexeme.text, p⟩ } :: s.frames
        label := none
        started } := by
  obtain ⟨f, rest, hf⟩ := hroot.exists_cons
  unfold Leads
  rw [heads_cons _ (by simp [hf]), pending_eq_nil rfl (by rw [hword]; rfl), List.append_nil]
  exact h

/-- A word becomes the name of the next value. -/
theorem leads_label {w : Lexeme} (h : Leads ls none s) (hlabel : s.label = none)
    (hword : s.word = some w) (hshows : Shows ls w.start (w.text.toList ++ [':'])) :
    Leads ls none { s with word := none, label := some w } := by
  rw [leads_iff_of_word (w := w) (by rw [hword]; rfl), hlabel] at h
  refine h.replace fun a ha => ?_
  have hstart : w.start = a := ha
  exact hstart ▸ hshows

end Scanner

end CommandScript
