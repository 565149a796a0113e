import CommandScript.Proofs.Interpreter.Places
import CommandScript.Proofs.Statement.Derivation

/-!
# How a script is laid out

The tokens of a script stand where they say, a run of word characters as long
as it can be (`Tokens.stands`), and they come in reading order
(`Tokens.pairwise`). A tree is derived from tokens, takes its places from
them, and gives them back in the same order when it is gone through from the
top (`IsScript.sublist`). So every value of a script stands where it says, and
what is read later stands further on (`readAll_layout`).
-/

namespace CommandScript

open Interpreter (Countable)

/-! ## Reading order -/

/-- **Reading order**: an earlier line, or the same line further left. -/
def Position.Before (p q : Position) : Prop :=
  compare p q = .lt

theorem Position.before_iff {p q : Position} :
    p.Before q ↔ p.line < q.line ∨ p.line = q.line ∧ p.column < q.column := by
  change ((compare p.line q.line).then (compare p.column q.column)) = .lt ↔ _
  rw [Ordering.then_eq_lt, Nat.compare_eq_lt, Nat.compare_eq_lt, Nat.compare_eq_eq]

/-! ## What stands at a place -/

variable {ls : List String} {text : String} {index i : Nat}

/-- A bare word stands at a place: a run of word characters that none stands
next to, so that the run could not be longer. -/
structure RunAt (ls : List String) (p : Position) (text : String) : Prop where
  /-- It is a run. -/
  run : Text.IsRun text.toList
  /-- It is written there. -/
  shows : Shows ls p text.toList
  /-- What stands before it is no word character. -/
  before : ∀ c, Shows ls ⟨p.line, p.column - 1⟩ [c] → Text.isWordChar c = false
  /-- What stands behind it is no word character. -/
  behind : ∀ c, Shows ls ⟨p.line, p.column + text.length⟩ [c] → Text.isWordChar c = false

/-- A quoted text stands at a place: a quote, the text, and the first quote
behind it. -/
structure QuotedAt (ls : List String) (p : Position) (text : String) : Prop where
  /-- The text holds no quote. -/
  closed : '"' ∉ text.toList
  /-- It is written there, in quotes. -/
  shows : Shows ls p ('"' :: (text.toList ++ ['"']))

/-- **A value stands where it says**: a bare word as the run that its kind is
taken from, a string in its quotes, and an array with its parenthesis. -/
def Value.Stands (ls : List String) : Value → Prop
  | .scalar tag kind text =>
    kind = ScalarKind.ofText text ∧ RunAt ls tag.position text ∨
      kind = .string ∧ QuotedAt ls tag.position text
  | .array tag _ => Shows ls tag.position ['(']

mutual

/-- **A value and all that is inside it**, from the top down and in order. -/
def Value.preorder : Value → List Value
  | .scalar tag kind text => [.scalar tag kind text]
  | .array tag items => .array tag items :: Value.preorderAll items

/-- Values in order, each before what is inside it. -/
def Value.preorderAll : List Value → List Value
  | [] => []
  | v :: vs => Value.preorder v ++ Value.preorderAll vs

end

namespace Statement

/-- The argument values of a statement at every depth, in order. -/
def values (s : Statement) : List Value :=
  Value.preorderAll (s.arguments.items?.getD [])

/-- The places of a statement in order: that of the command word and those of
the argument values. -/
def places (s : Statement) : List Position :=
  s.position :: s.values.map Value.position

/-- A token stands where it says. -/
def Placed.Stands (ls : List String) (t : Placed) : Prop :=
  match t.token with
  | .word w => RunAt ls t.position w
  | .name w => RunAt ls t.position w ∧ Shows ls t.position (w.toList ++ [':'])
  | .quoted q => QuotedAt ls t.position q
  | .openParen => Shows ls t.position ['(']
  | .closeParen => Shows ls t.position [')']
  | .semicolon => Shows ls t.position [';']

/-- Of the tokens of a script, the semicolon at a place is the first one
behind the place where a statement starts. -/
def Terminates (ts : List Placed) (start p : Position) : Prop :=
  ∃ head us, ⟨head, start⟩ :: (us ++ [⟨.semicolon, p⟩]) <:+: ts ∧
    ∀ u ∈ us, u.token ≠ .semicolon

/-- **A statement stands where it says**, in lines with these tokens: the
command word and the argument values at every depth, and the arguments as a
whole where the first of them does, or else at the semicolon that ends the
statement. -/
structure Stands (ls : List String) (ts : List Placed) (s : Statement) : Prop where
  /-- The command word, bare or quoted. -/
  command : RunAt ls s.position s.name ∨ QuotedAt ls s.position s.name
  /-- The argument values. -/
  values : ∀ v ∈ s.values, v.Stands ls
  /-- The arguments as a whole. -/
  arguments : ∃ vs p, s.arguments = Value.list vs (argumentsStart p vs) ∧
    Terminates ts s.position p ∧ Shows ls p [';']

/-! ## The tokens of a line -/

variable {line : Nat} {cs : List Char} {ts : List Placed}

/-- Between the characters before an index and those behind it no run goes
on. -/
def Boundary (text : String) (i : Nat) : Prop :=
  ∀ k, k + 1 = i → ∀ c ∈ text.toList[k]?, ∀ d ∈ text.toList[i]?,
    Text.isWordChar d = true → Text.isWordChar c = false

theorem boundary_zero (text : String) : Boundary text 0 :=
  fun k hk => absurd hk (Nat.succ_ne_zero k)

/-- The first of the characters left is the next one. -/
theorem getElem?_of_drop {c : Char} {rest : List Char} (h : text.toList.drop i = c :: rest) :
    text.toList[i]? = some c := by
  rw [← List.head?_drop, h]
  rfl

/-- No run goes on from what is no word character. -/
theorem boundary_succ {c : Char} {rest : List Char} (hdrop : text.toList.drop i = c :: rest)
    (hword : Text.isWordChar c = false) : Boundary text (i + 1) := by
  intro k hk d hd _ _ _
  obtain rfl : k = i := by omega
  rw [getElem?_of_drop hdrop] at hd
  cases hd
  exact hword

/-- No run goes on to what is no word character. -/
theorem boundary_of_head {rest : List Char} (hdrop : text.toList.drop i = rest)
    (hword : ∀ c ∈ rest.head?, Text.isWordChar c = false) : Boundary text i := by
  intro k _ c _ d hd hrun
  rw [← List.head?_drop, hdrop] at hd
  rw [hword d hd] at hrun
  cases hrun

/-- Characters further on, fewer are left. -/
theorem drop_add_of_drop {w rest : List Char} {n : Nat} (h : text.toList.drop i = w ++ rest)
    (hn : w.length = n) : text.toList.drop (i + n) = rest := by
  rw [← List.drop_drop, h, ← hn, List.drop_left]

/-- The character that stands at a place of a line. -/
theorem getElem?_of_shows {c : Char} {column : Nat} (hline : IsLine ls index text)
    (h : Shows ls ⟨Position.ordinal index, column + 1⟩ [c]) : text.toList[column]? = some c := by
  obtain ⟨-, -, text', htext, hprefix⟩ := h
  rw [Position.ordinal_of_lt hline.line, Nat.add_sub_cancel, hline.get] at htext
  cases htext
  obtain ⟨rest, hrest⟩ := hprefix
  rw [← List.head?_drop]
  change (text.toList.drop (column + 1 - 1)).head? = _
  rw [← hrest]
  rfl

/-- **A run between boundaries stands at its place** and could not be
longer. -/
theorem runAt_of_drop {w rest : List Char} (hline : IsLine ls index text)
    (hdrop : text.toList.drop i = w ++ rest) (hrun : Text.IsRun w) (hbefore : Boundary text i)
    (hbehind : ∀ c ∈ rest.head?, Text.isWordChar c = false) :
    RunAt ls (place (Position.ordinal index) i) (String.ofList w) := by
  obtain ⟨d, w', rfl⟩ := List.exists_cons_of_ne_nil hrun.1
  have hi : i < text.length := lt_length_of_drop hdrop
  have hcolumns := hline.columns
  have hplace : place (Position.ordinal index) i = ⟨Position.ordinal index, i + 1⟩ :=
    congrArg (Position.mk _) (Position.ordinal_of_lt (by omega))
  have hd : text.toList[i]? = some d := getElem?_of_drop hdrop
  refine ⟨by rwa [String.toList_ofList], ?_, fun c hc => ?_, fun c hc => ?_⟩
  · rw [String.toList_ofList]
    exact hline.shows hdrop hrun.1
  · rw [hplace] at hc
    -- at the first column there is no place before
    cases i with
    | zero => exact absurd hc.2.1 (Nat.lt_irrefl 0)
    | succ k =>
      exact hbefore k rfl c (getElem?_of_shows hline hc) d hd (hrun.2 d List.mem_cons_self)
  · rw [hplace] at hc
    have hlength : i + 1 + (String.ofList (d :: w')).length = i + (d :: w').length + 1 := by
      rw [← String.length_toList, String.toList_ofList]
      omega
    rw [hlength] at hc
    refine hbehind c ?_
    rw [← drop_add_of_drop hdrop rfl, List.head?_drop]
    exact getElem?_of_shows hline hc

/-- **The tokens of a line stand where they say.** -/
theorem LineTokens.stands (hline : IsLine ls index text)
    (h : LineTokens (Position.ordinal index) i cs ts) :
    text.toList.drop i = cs → Boundary text i → ∀ t ∈ ts, t.Stands ls := by
  induction h with
  | nil | comment => exact fun _ _ _ ht => absurd ht List.not_mem_nil
  | @separator i c rest ts hc _ ih =>
    intro hdrop _
    refine ih (drop_succ_of_drop hdrop) (boundary_succ hdrop ?_)
    rcases hc with hc | rfl
    · exact Text.isWordChar_of_isBlank hc
    · decide
  | @mark i c rest t ts hc _ ih =>
    intro hdrop _
    have hshows := hline.shows_char hdrop
    unfold Token.ofMark at hc
    split at hc <;> cases hc
    all_goals
      have hafter := ih (drop_succ_of_drop hdrop) (boundary_succ hdrop (by decide))
      exact List.forall_mem_cons.2 ⟨hshows, hafter⟩
  | @quoted i q rest ts hq _ ih =>
    intro hdrop _
    have hchars : text.toList.drop i = ('"' :: (q ++ ['"'])) ++ rest := by
      rw [hdrop]
      simp
    have hbehind : text.toList.drop (i + (q.length + 1)) = '"' :: rest :=
      drop_add_of_drop (w := '"' :: q) hdrop rfl
    have hafter : text.toList.drop (i + q.length + 2) = rest :=
      drop_succ_of_drop hbehind
    refine List.forall_mem_cons.2 ⟨⟨?_, ?_⟩, ih hafter (boundary_succ hbehind (by decide))⟩
    · rwa [String.toList_ofList]
    · rw [String.toList_ofList]
      exact hline.shows hchars (List.cons_ne_nil _ _)
  | @name i w rest ts hrun _ ih =>
    intro hdrop hbefore
    have hbehind : text.toList.drop (i + w.length) = ':' :: rest := drop_add_of_drop hdrop rfl
    have hchars : text.toList.drop i = (w ++ [':']) ++ rest := by
      rw [hdrop]
      simp
    have hafter := ih (drop_succ_of_drop hbehind) (boundary_succ hbehind (by decide))
    refine List.forall_mem_cons.2 ⟨⟨?_, ?_⟩, hafter⟩
    · exact runAt_of_drop hline hdrop hrun hbefore (by simp; decide)
    · rw [String.toList_ofList]
      exact hline.shows hchars (by simp)
  | @word i w rest ts hrun hend _ ih =>
    intro hdrop hbefore
    have hbehind : text.toList.drop (i + w.length) = rest := drop_add_of_drop hdrop rfl
    have hnone : ∀ c ∈ rest.head?, Text.isWordChar c = false := fun c hc => (hend c hc).1
    refine List.forall_mem_cons.2 ⟨?_, ih hbehind (boundary_of_head hbehind hnone)⟩
    exact runAt_of_drop hline hdrop hrun hbefore hnone

/-- A place among some of the characters of a line is one among more of them. -/
theorem exists_place_of_le {j m n : Nat} {p : Position} (hij : i ≤ j) (hend : j + m ≤ i + n)
    (h : ∃ k, p = place line k ∧ j ≤ k ∧ k < j + m) :
    ∃ k, p = place line k ∧ i ≤ k ∧ k < i + n := by
  obtain ⟨k, hk, hle, hlt⟩ := h
  exact ⟨k, hk, by omega, by omega⟩

/-- The tokens of characters stand at their indices. -/
theorem LineTokens.exists_place (h : LineTokens line i cs ts) :
    ∀ t ∈ ts, ∃ k, t.position = place line k ∧ i ≤ k ∧ k < i + cs.length := by
  induction h with
  | nil | comment => exact fun _ ht => absurd ht List.not_mem_nil
  | separator _ _ ih =>
    rw [List.length_cons]
    exact fun t ht => exists_place_of_le (by omega) (by omega) (ih t ht)
  | @mark i _ rest _ _ _ _ ih =>
    rw [List.length_cons]
    refine List.forall_mem_cons.2 ⟨⟨i, rfl, by omega, by omega⟩, fun t ht => ?_⟩
    exact exists_place_of_le (by omega) (by omega) (ih t ht)
  | @quoted i q rest _ _ _ ih =>
    rw [List.length_cons, List.length_append, List.length_cons]
    refine List.forall_mem_cons.2 ⟨⟨i, rfl, by omega, by omega⟩, fun t ht => ?_⟩
    exact exists_place_of_le (by omega) (by omega) (ih t ht)
  | @name i w rest _ hrun _ ih =>
    have hpos : 0 < w.length := List.length_pos_iff.2 hrun.1
    rw [List.length_append, List.length_cons]
    refine List.forall_mem_cons.2 ⟨⟨i, rfl, by omega, by omega⟩, fun t ht => ?_⟩
    exact exists_place_of_le (by omega) (by omega) (ih t ht)
  | @word i w rest _ hrun _ _ ih =>
    have hpos : 0 < w.length := List.length_pos_iff.2 hrun.1
    rw [List.length_append]
    refine List.forall_mem_cons.2 ⟨⟨i, rfl, by omega, by omega⟩, fun t ht => ?_⟩
    exact exists_place_of_le (by omega) (by omega) (ih t ht)

/-- A place of a line is before those further right. -/
theorem place_before {k : Nat} (hik : i < k) (hk : k < Position.last) :
    (place line i).Before (place line k) := by
  have hi : i < Position.last := by omega
  refine Position.before_iff.2 (.inr ⟨rfl, ?_⟩)
  change Position.ordinal i < Position.ordinal k
  rw [Position.ordinal_of_lt hi, Position.ordinal_of_lt hk]
  omega

/-- A token is before all that are read behind it on its line. -/
theorem LineTokens.before {j : Nat} (h : LineTokens line j cs ts) (hij : i < j)
    (hend : j + cs.length ≤ Position.last) : ∀ t ∈ ts, (place line i).Before t.position := by
  intro t ht
  obtain ⟨k, hk, hle, hlt⟩ := h.exists_place t ht
  rw [hk]
  exact place_before (by omega) (by omega)

/-- **The tokens of a line are in reading order.** -/
theorem LineTokens.pairwise (h : LineTokens line i cs ts) : i + cs.length ≤ Position.last →
    ts.Pairwise fun t u => t.position.Before u.position := by
  induction h with
  | nil | comment => exact fun _ => .nil
  | separator _ _ ih =>
    intro hend
    rw [List.length_cons] at hend
    exact ih (by omega)
  | mark _ h ih =>
    intro hend
    rw [List.length_cons] at hend
    exact .cons (h.before (by omega) (by omega)) (ih (by omega))
  | quoted _ h ih =>
    intro hend
    rw [List.length_cons, List.length_append, List.length_cons] at hend
    exact .cons (h.before (by omega) (by omega)) (ih (by omega))
  | name _ h ih =>
    intro hend
    rw [List.length_append, List.length_cons] at hend
    exact .cons (h.before (by omega) (by omega)) (ih (by omega))
  | word hrun _ h ih =>
    intro hend
    have hpos := List.length_pos_iff.2 hrun.1
    rw [List.length_append] at hend
    exact .cons (h.before (by omega) (by omega)) (ih (by omega))

/-! ## The tokens of a script -/

variable {lines : List String}

/-- The tokens of lines stand where they say. -/
theorem LinesTokens.stands (hls : Countable ls) (h : LinesTokens index lines ts) :
    ls.drop index = lines → ∀ t ∈ ts, t.Stands ls := by
  induction h with
  | nil => exact fun _ _ ht => absurd ht List.not_mem_nil
  | @cons index text rest ts us hline _ ih =>
    intro hdrop t ht
    have hget : ls[index]? = some text := by
      rw [← List.head?_drop, hdrop]
      rfl
    have hrest : ls.drop (index + 1) = rest := by
      rw [← List.drop_drop, hdrop]
      rfl
    rcases List.mem_append.1 ht with ht | ht
    · exact hline.stands (hls.isLine hget) rfl (boundary_zero text) t ht
    · exact ih hrest t ht

/-- The tokens of lines stand on them. -/
theorem LinesTokens.exists_line (h : LinesTokens index lines ts) :
    ∀ t ∈ ts, ∃ k, t.position.line = Position.ordinal k ∧ index ≤ k ∧ k < index + lines.length := by
  induction h with
  | nil => exact fun _ ht => absurd ht List.not_mem_nil
  | @cons index text rest ts us hline _ ih =>
    intro t ht
    rw [List.length_cons]
    rcases List.mem_append.1 ht with ht | ht
    · obtain ⟨k, hk, -⟩ := hline.exists_place t ht
      exact ⟨index, by rw [hk, place], by omega, by omega⟩
    · obtain ⟨k, hk, hle, hlt⟩ := ih t ht
      exact ⟨k, hk, by omega, by omega⟩

/-- **The tokens of lines are in reading order.** -/
theorem LinesTokens.pairwise (h : LinesTokens index lines ts) :
    index + lines.length ≤ Position.last → (∀ l ∈ lines, l.length < Position.last) →
      ts.Pairwise fun t u => t.position.Before u.position := by
  induction h with
  | nil => exact fun _ _ => .nil
  | @cons index text rest ts us hline hlines ih =>
    intro hend hcolumns
    rw [List.length_cons] at hend
    obtain ⟨htext, hrest⟩ := List.forall_mem_cons.1 hcolumns
    have hlength : 0 + text.toList.length ≤ Position.last := by
      rw [String.length_toList]
      omega
    refine List.pairwise_append.2 ⟨hline.pairwise hlength, ih (by omega) hrest, ?_⟩
    intro t ht u hu
    obtain ⟨i, hi, -⟩ := hline.exists_place t ht
    obtain ⟨k, hk, hle, hlt⟩ := hlines.exists_line u hu
    have hindex : index < Position.last := by omega
    have hklast : k < Position.last := by omega
    refine Position.before_iff.2 (.inl ?_)
    rw [hi, hk]
    change Position.ordinal index < Position.ordinal k
    rw [Position.ordinal_of_lt hindex, Position.ordinal_of_lt hklast]
    omega

variable {source : String} {ss : List Statement}

/-- **The tokens of a script stand where they say.** -/
theorem Tokens.stands (hls : Countable (Text.lines source)) (h : Tokens source ts) :
    ∀ t ∈ ts, t.Stands (Text.lines source) :=
  LinesTokens.stands hls h rfl

/-- **The tokens of a script are in reading order.** -/
theorem Tokens.pairwise (hls : Countable (Text.lines source)) (h : Tokens source ts) :
    (ts.map Placed.position).Pairwise Position.Before := by
  have hlines := hls.lines
  exact List.pairwise_map.2 (LinesTokens.pairwise h (by omega) hls.columns)

/-! ## Trees -/

variable {n : Nat} {v : Value} {vs : List Value}

theorem preorder_eq_cons (v : Value) :
    v.preorder = v :: Value.preorderAll (v.items?.getD []) := by
  cases v <;> rfl

/-- Under another name a value has the same inside it. -/
theorem preorder_rename (v : Value) (name : Option String) :
    (v.rename name).preorder = v.rename name :: Value.preorderAll (v.items?.getD []) := by
  cases v <;> rfl

/-- A value stands where it says under whatever name. -/
theorem stands_rename (v : Value) (name : Option String) :
    (v.rename name).Stands ls ↔ v.Stands ls := by
  cases v <;> rfl

mutual

/-- **A value is gone through in the order of its tokens.** -/
theorem IsValue.sublist : ∀ {n : Nat} {ts : List Placed} {v : Value}, IsValue n ts v →
    (v.preorder.map Value.position).Sublist (ts.map Placed.position)
  | _, _, _, .word => .refl _
  | _, _, _, .quoted => .refl _
  | _, _, _, .array h => by
    refine List.Sublist.cons_cons _ (h.sublist.trans ?_)
    exact (List.sublist_append_left _ _).map _

theorem IsArguments.sublist : ∀ {n : Nat} {ts : List Placed} {vs : List Value},
    IsArguments n ts vs →
      ((Value.preorderAll vs).map Value.position).Sublist (ts.map Placed.position)
  | _, _, _, .positional hv h => by
    rw [Value.preorderAll, List.map_append, List.map_append]
    exact hv.sublist.append h.sublist
  | _, _, _, .named h => h.sublist

theorem IsNamed.sublist : ∀ {n : Nat} {ts : List Placed} {vs : List Value}, IsNamed n ts vs →
    ((Value.preorderAll vs).map Value.position).Sublist (ts.map Placed.position)
  | _, _, _, .nil => .refl _
  | _, _, _, .cons (v := v) hv h => by
    have hfirst := hv.sublist
    rw [preorder_eq_cons, List.map_cons] at hfirst
    rw [Value.preorderAll, preorder_rename, List.map_append, List.map_cons, List.map_cons,
      List.map_append, Value.position_rename]
    exact .cons _ (hfirst.append h.sublist)

end

mutual

/-- **What stands in the tokens of a value stands in the value.** -/
theorem IsValue.stands : ∀ {n : Nat} {ts : List Placed} {v : Value}, IsValue n ts v →
    (∀ t ∈ ts, t.Stands ls) → ∀ x ∈ v.preorder, x.Stands ls
  | _, _, _, .word, hts => by
    have hword := hts _ List.mem_cons_self
    exact List.forall_mem_singleton.2 (.inl ⟨rfl, hword⟩)
  | _, _, _, .quoted, hts => by
    have hquoted := hts _ List.mem_cons_self
    exact List.forall_mem_singleton.2 (.inr ⟨rfl, hquoted⟩)
  | _, _, _, .array h, hts => by
    obtain ⟨hopen, hrest⟩ := List.forall_mem_cons.1 hts
    have hinside := h.stands fun t ht => hrest t (List.mem_append_left _ ht)
    exact List.forall_mem_cons.2 ⟨hopen, hinside⟩

theorem IsArguments.stands : ∀ {n : Nat} {ts : List Placed} {vs : List Value},
    IsArguments n ts vs → (∀ t ∈ ts, t.Stands ls) → ∀ x ∈ Value.preorderAll vs, x.Stands ls
  | _, _, _, .positional hv h, hts => by
    obtain ⟨hfirst, hrest⟩ := List.forall_mem_append.1 hts
    exact List.forall_mem_append.2 ⟨hv.stands hfirst, h.stands hrest⟩
  | _, _, _, .named h, hts => h.stands hts

theorem IsNamed.stands : ∀ {n : Nat} {ts : List Placed} {vs : List Value}, IsNamed n ts vs →
    (∀ t ∈ ts, t.Stands ls) → ∀ x ∈ Value.preorderAll vs, x.Stands ls
  | _, _, _, .nil, _ => fun _ hx => absurd hx List.not_mem_nil
  | _, _, _, .cons (v := v) hv h, hts => by
    obtain ⟨-, hvalues⟩ := List.forall_mem_cons.1 hts
    obtain ⟨hfirst, hrest⟩ := List.forall_mem_append.1 hvalues
    have hinside := hv.stands hfirst
    rw [preorder_eq_cons, List.forall_mem_cons] at hinside
    rw [Value.preorderAll, preorder_rename]
    refine List.forall_mem_append.2 ⟨List.forall_mem_cons.2 ⟨?_, hinside.2⟩, h.stands hrest⟩
    exact (stands_rename v _).2 hinside.1

end

mutual

/-- No semicolon is part of a value. -/
theorem IsValue.ne_semicolon : ∀ {n : Nat} {ts : List Placed} {v : Value}, IsValue n ts v →
    ∀ t ∈ ts, t.token ≠ .semicolon
  | _, _, _, .word => by simp
  | _, _, _, .quoted => by simp
  | _, _, _, .array h => by
    have hinside := h.ne_semicolon
    simpa [or_imp, forall_and] using hinside

theorem IsArguments.ne_semicolon : ∀ {n : Nat} {ts : List Placed} {vs : List Value},
    IsArguments n ts vs → ∀ t ∈ ts, t.token ≠ .semicolon
  | _, _, _, .positional hv h => List.forall_mem_append.2 ⟨hv.ne_semicolon, h.ne_semicolon⟩
  | _, _, _, .named h => h.ne_semicolon

theorem IsNamed.ne_semicolon : ∀ {n : Nat} {ts : List Placed} {vs : List Value}, IsNamed n ts vs →
    ∀ t ∈ ts, t.token ≠ .semicolon
  | _, _, _, .nil => by simp
  | _, _, _, .cons hv h =>
    List.forall_mem_cons.2 ⟨by simp, List.forall_mem_append.2 ⟨hv.ne_semicolon, h.ne_semicolon⟩⟩

end

/-! ## Statements -/

/-- **Statements are gone through in the order of their tokens.** -/
theorem IsScript.sublist (h : IsScript ts ss) :
    (ss.flatMap places).Sublist (ts.map Placed.position) := by
  induction h with
  | nil => exact .refl _
  | empty _ ih => exact .cons _ ih
  | @statement head name p q us ts vs ss _ hargs _ ih =>
    rw [List.flatMap_cons, List.map_cons, List.map_append, List.map_cons]
    exact .cons_cons _ (hargs.sublist.append (.cons _ ih))

theorem Terminates.mono {us : List Placed} {p q : Position} (h : Terminates ts p q)
    (hts : ts <:+: us) : Terminates us p q := by
  obtain ⟨head, inner, hinfix, hinner⟩ := h
  exact ⟨head, inner, hinfix.trans hts, hinner⟩

/-- **What stands in the tokens of a script stands in its statements.** -/
theorem IsScript.stands (h : IsScript ts ss) : (∀ t ∈ ts, t.Stands ls) →
    ∀ us, ts <:+: us → ∀ s ∈ ss, s.Stands ls us := by
  induction h with
  | nil => exact fun _ _ _ _ hs => absurd hs List.not_mem_nil
  | @empty p ts ss _ ih =>
    intro hts us hinfix
    have hrest : ts <:+: us := (List.suffix_cons _ ts).isInfix.trans hinfix
    exact ih (fun t ht => hts t (List.mem_cons_of_mem _ ht)) us hrest
  | @statement head name p q inner ts vs ss hhead hargs _ ih =>
    intro hts us hinfix
    obtain ⟨hcommand, hbehind⟩ := List.forall_mem_cons.1 hts
    obtain ⟨hinner, hend⟩ := List.forall_mem_append.1 hbehind
    obtain ⟨hsemicolon, hrest⟩ := List.forall_mem_cons.1 hend
    have hsplit : ⟨head, p⟩ :: (inner ++ ⟨.semicolon, q⟩ :: ts) =
        (⟨head, p⟩ :: (inner ++ [⟨.semicolon, q⟩])) ++ ts := by simp
    rw [hsplit] at hinfix
    have hfirst : ⟨head, p⟩ :: (inner ++ [⟨.semicolon, q⟩]) <:+: us :=
      (List.prefix_append _ ts).isInfix.trans hinfix
    refine List.forall_mem_cons.2 ⟨⟨?_, hargs.stands hinner, vs, q, rfl, ?_, hsemicolon⟩, ?_⟩
    · cases head with
      | word w =>
        cases hhead
        exact .inl hcommand
      | quoted w =>
        cases hhead
        exact .inr hcommand
      | _ => cases hhead
    · exact ⟨head, inner, hfirst, hargs.ne_semicolon⟩
    · exact ih hrest us ((List.suffix_append _ ts).isInfix.trans hinfix)

/-- **Every place of a script that is read is the place of its token**, where
lines and columns can be counted: command words, argument values at every
depth, and the arguments as a whole stand where they say. From statement to
statement, and in each from the command word through its tree, places come in
reading order, no two the same. -/
theorem readAll_layout (hls : Countable (Text.lines source)) (h : readAll source = .ok ss) :
    ∃ ts, Tokens source ts ∧ (∀ s ∈ ss, s.Stands (Text.lines source) ts) ∧
      (ss.flatMap places).Pairwise Position.Before := by
  obtain ⟨ts, htokens, hscript⟩ := isScript_of_readAll h
  exact ⟨ts, htokens, hscript.stands (htokens.stands hls) ts List.infix_rfl,
    (htokens.pairwise hls).sublist hscript.sublist⟩

/-- A statement over two lines with a comment between them, one without
arguments whose semicolon is on the next line, and an empty one. -/
def twoStatements : String :=
  "say é, at: (7 # seven;\nb: \"#;\");;\n\"stop\" # now;\n ;"

/-- The places of the two statements. -/
def twoPlaces : List Position :=
  [⟨1, 1⟩, ⟨1, 5⟩, ⟨1, 12⟩, ⟨1, 13⟩, ⟨2, 4⟩, ⟨3, 1⟩]

theorem readAll_layout_twoStatements :
    Countable (Text.lines twoStatements) ∧
      ∃ ss, readAll twoStatements = .ok ss ∧ ss.flatMap places = twoPlaces ∧
        ss.getLast?.map (fun s => s.arguments.position) = some ⟨4, 2⟩ ∧
        ∃ ts, Tokens twoStatements ts ∧
          (∀ s ∈ ss, s.Stands (Text.lines twoStatements) ts) ∧
          (ss.flatMap places).Pairwise Position.Before := by
  have hlines : (Text.lines twoStatements).length = 4 ∧
      (Text.lines twoStatements).all (fun l => l.length ≤ 22) = true := by decide +kernel
  have hcountable : Countable (Text.lines twoStatements) := by
    refine ⟨by rw [hlines.1]; decide, fun l hl => ?_⟩
    have hlength := of_decide_eq_true (List.all_eq_true.1 hlines.2 l hl)
    have hlast : 22 < Position.last := by decide
    omega
  have hread : ((readAll twoStatements).toOption.map fun ss =>
      (ss.flatMap places, ss.getLast?.map fun s => s.arguments.position)) =
        some (twoPlaces, some ⟨4, 2⟩) := by decide +kernel
  cases hparse : readAll twoStatements with
  | error e =>
    rw [hparse] at hread
    cases hread
  | ok ss =>
    rw [hparse] at hread
    obtain ⟨hplaces, hend⟩ := Prod.mk.inj (Option.some.inj hread)
    exact ⟨hcountable, ss, rfl, hplaces, hend, readAll_layout hcountable hparse⟩

end Statement

end CommandScript
