import CommandScript.Proofs.Binding.Detach
import CommandScript.Proofs.Statement.Derivation
import CommandScript.Proofs.Statement.Joined
import CommandScript.Proofs.Statement.Written

/-!
# Reading printed statements

What a script can write is printed as a script can write it. The printed form
of a value has the tokens of a value with the same kinds, texts and names, in
front of whatever could not belong to its last word (`prints_literal`), and
arguments with separators before each have the tokens of such arguments
(`startsWith_spaced`). So a printed statement is read as itself, its places
aside (`readAll_printed`).
-/

namespace CommandScript

namespace Statement

variable {line i n : Nat} {cs rest : List Char} {ts us : List Placed} {name : Option String}
  {v w : Value} {vs ws : List Value}

/-! ## Printed forms -/

theorem toList_literal_string (t : Tag) (s : String) :
    (Value.scalar t .string s).literal.toList = '"' :: (s.toList ++ ['"']) := by
  rw [Value.literal]
  simp

theorem literal_of_ne_string {k : ScalarKind} (t : Tag) (s : String) (hk : k ≠ .string) :
    (Value.scalar t k s).literal = s := by
  cases k with
  | string => exact absurd rfl hk
  | _ => rfl

theorem toList_literal_array (t : Tag) (vs : List Value) :
    (Value.array t vs).literal.toList =
      '(' :: ((", ".intercalate (vs.map Value.render)).toList ++ [')']) := by
  rw [Value.literal, Value.literals_eq_map]
  simp

theorem render_of_name_eq_none (h : v.name = none) : v.render = v.literal := by
  rw [Value.render, h]
  exact String.empty_append

theorem toList_render_of_name_eq_some {label : String} (h : v.name = some label) :
    v.render.toList = label.toList ++ ':' :: ' ' :: v.literal.toList := by
  rw [Value.render, h, Value.labelText]
  simp

theorem toList_intercalate (sep : String) : ∀ (x : String) (xs : List String),
    (sep.intercalate (x :: xs)).toList = x.toList ++ xs.flatMap fun y => sep.toList ++ y.toList
  | x, [] => by rw [String.intercalate_singleton, List.flatMap_nil, List.append_nil]
  | x, y :: ys => by
    rw [String.intercalate_cons_cons, String.toList_append, String.toList_append,
      toList_intercalate sep y ys, List.flatMap_cons, List.append_assoc, List.append_assoc]

/-- The characters of printed arguments, with separators before each. -/
def spaced (sep : List Char) (vs : List Value) : List Char :=
  vs.flatMap fun v => sep ++ v.render.toList

theorem spaced_cons (sep : List Char) (v : Value) (vs : List Value) :
    spaced sep (v :: vs) = sep ++ (v.render.toList ++ spaced sep vs) := by
  rw [spaced, List.flatMap_cons, List.append_assoc]
  rfl

/-- The characters of printed values, with separators between. -/
theorem toList_intercalate_render (sep : String) (v : Value) (vs : List Value) :
    (sep.intercalate ((v :: vs).map Value.render)).toList =
      v.render.toList ++ spaced sep.toList vs := by
  rw [List.map_cons, toList_intercalate, List.flatMap_map]
  rfl

/-! ## One argument more -/

/-- The tokens of one argument, under a name or under none. -/
inductive IsArgument (n : Nat) : Option String → List Placed → Value → Prop
  | positional {ts : List Placed} {v : Value} : IsValue n ts v → IsArgument n none ts v
  | named {w : String} {p : Position} {ts : List Placed} {v : Value} :
      IsValue n ts v → IsArgument n (some w) (⟨.name w, p⟩ :: ts) (v.rename (some w))

/-- Arguments that all have names are named arguments. -/
theorem IsArguments.isNamed (h : IsArguments n ts vs) (hvs : ∀ v ∈ vs, v.name.isSome = true) :
    IsNamed n ts vs := by
  cases h with
  | positional hv _ =>
    have hsome := hvs _ List.mem_cons_self
    rw [hv.name_eq_none] at hsome
    cases hsome
  | named h => exact h

/-- One argument more in front, with a name only if all others have one. -/
theorem IsArgument.cons (hv : IsArgument n name ts v) (h : IsArguments n us vs)
    (hbehind : name.isSome = true → ∀ w ∈ vs, w.name.isSome = true) :
    IsArguments n (ts ++ us) (v :: vs) := by
  cases hv with
  | positional hv => exact .positional hv h
  | named hv => exact .named (.cons hv (h.isNamed (hbehind rfl)))

/-! ## Separators -/

/-- What may stand behind a word: nothing that would go on with it or make it
a name. -/
def EndsWord (rest : List Char) : Prop :=
  ∀ c ∈ rest.head?, Text.isWordChar c = false ∧ c ≠ ':'

/-- A blank or a comma. -/
def IsSeparator (c : Char) : Prop :=
  Text.isBlank c = true ∨ c = ','

theorem isSeparator_blank : IsSeparator ' ' :=
  .inl (by decide)

theorem endsWord_of_mark {c : Char} {t : Token} (hc : Token.ofMark c = some t) :
    EndsWord (c :: rest) := by
  intro d hd
  obtain rfl : c = d := Option.some.inj hd
  unfold Token.ofMark at hc
  split at hc
  · decide
  · decide
  · decide
  · cases hc

theorem IsSeparator.endsWord {c : Char} (h : IsSeparator c) : EndsWord (c :: rest) := by
  intro d hd
  obtain rfl : c = d := Option.some.inj hd
  rcases h with hblank | rfl
  · exact ⟨Text.isWordChar_of_isBlank hblank, CharClass.ne_of_isBlank hblank (by decide)⟩
  · decide

theorem lineTokens_separators : ∀ {cs : List Char} {i : Nat}, (∀ c ∈ cs, IsSeparator c) →
    LineTokens line (i + cs.length) rest us → LineTokens line i (cs ++ rest) us := by
  intro cs
  induction cs with
  | nil => exact fun _ h => h
  | cons c cs ih =>
    intro i hcs h
    obtain ⟨hc, hcs⟩ := List.forall_mem_cons.1 hcs
    have hlen : i + (c :: cs).length = i + 1 + cs.length := by
      rw [List.length_cons]
      omega
    rw [hlen] at h
    exact .separator hc (ih hcs h)

/-! ## Printed values -/

/-- **Characters that print a value without its name**: they have the tokens
of that value, its places aside. -/
def Prints (n : Nat) (cs : List Char) (v : Value) : Prop :=
  ∀ ⦃line i : Nat⦄ ⦃rest : List Char⦄ ⦃us : List Placed⦄, EndsWord rest →
    LineTokens line (i + cs.length) rest us →
      ∃ ts w, LineTokens line i (cs ++ rest) (ts ++ us) ∧ IsValue n ts w ∧
        w.detach = (v.rename none).detach

/-- **A printed argument** has the tokens of the argument. -/
theorem exists_of_render (hname : ∀ w, v.name = some w → Text.IsRun w.toList)
    (h : Prints n v.literal.toList v) (hrest : EndsWord rest)
    (hus : LineTokens line (i + v.render.toList.length) rest us) :
    ∃ ts w, LineTokens line i (v.render.toList ++ rest) (ts ++ us) ∧ IsArgument n v.name ts w ∧
      w.detach = v.detach := by
  cases hv : v.name with
  | none =>
    rw [render_of_name_eq_none hv] at hus ⊢
    obtain ⟨ts, w, hts, hw, hdetach⟩ := h hrest hus
    rw [← hv, Value.rename_self] at hdetach
    exact ⟨ts, w, hts, .positional hw, hdetach⟩
  | some label =>
    rw [toList_render_of_name_eq_some hv] at hus ⊢
    have hlen : i + (label.toList ++ ':' :: ' ' :: v.literal.toList).length =
        i + label.toList.length + 1 + 1 + v.literal.toList.length := by
      simp only [List.length_append, List.length_cons]
      omega
    rw [hlen] at hus
    obtain ⟨ts, w, hts, hw, hdetach⟩ := h hrest hus
    have htokens := LineTokens.name (hname label hv) (.separator isSeparator_blank hts)
    rw [String.ofList_toList] at htokens
    refine ⟨⟨.name label, place line i⟩ :: ts, w.rename (some label), ?_, .named hw, ?_⟩
    · rw [List.append_assoc]
      exact htokens
    · rw [Value.detach_rename, hdetach, ← Value.detach_rename, Value.rename_rename, ← hv,
        Value.rename_self]

/-! ## Printed arguments -/

/-- **Characters that start with arguments**: their tokens are those of
arguments that differ from these in places only, and then those given. -/
def StartsWith (n line i : Nat) (cs : List Char) (vs : List Value) (us : List Placed) : Prop :=
  ∃ ts ws, LineTokens line i cs (ts ++ us) ∧ IsArguments n ts ws ∧
    ws.map Value.detach = vs.map Value.detach

theorem startsWith_nil (h : LineTokens line i rest us) : StartsWith n line i rest [] us :=
  ⟨[], [], h, .named .nil, rfl⟩

/-- One printed argument in front of others. -/
theorem StartsWith.cons (hwritten : Value.AreWritten n (v :: vs))
    (hprints : Prints n v.literal.toList v) (hrest : EndsWord rest)
    (h : StartsWith n line (i + v.render.toList.length) rest vs us) :
    StartsWith n line i (v.render.toList ++ rest) (v :: vs) us := by
  obtain ⟨ts, ws, hts, hargs, hdetach⟩ := h
  obtain ⟨hname, -⟩ := List.forall_mem_cons.1 hwritten.names
  obtain ⟨hbehind, -⟩ := List.pairwise_cons.1 hwritten.namesLast
  obtain ⟨first, w, hfirst, hw, hwv⟩ := exists_of_render hname hprints hrest hts
  have hnames : v.name.isSome = true → ∀ u ∈ ws, u.name.isSome = true := by
    intro hsome u hu
    have hmem : u.detach ∈ vs.map Value.detach := by
      rw [← hdetach]
      exact List.mem_map_of_mem hu
    obtain ⟨x, hx, hsame⟩ := List.mem_map.1 hmem
    rw [← Value.name_detach, ← hsame, Value.name_detach]
    exact hbehind x hx hsome
  refine ⟨first ++ ts, w :: ws, ?_, hw.cons hargs hnames, ?_⟩
  · rw [List.append_assoc]
    exact hfirst
  · rw [List.map_cons, List.map_cons, hwv, hdetach]

theorem spaced_endsWord {sep : List Char} (hsep : ∀ c ∈ sep, IsSeparator c) (hne : sep ≠ [])
    (hrest : EndsWord rest) : EndsWord (spaced sep vs ++ rest) := by
  cases vs with
  | nil => exact hrest
  | cons v vs =>
    cases sep with
    | nil => exact absurd rfl hne
    | cons c sep => exact (hsep c List.mem_cons_self).endsWord

/-- **Printed arguments** with separators before each. -/
theorem startsWith_spaced {sep : List Char} (hsep : ∀ c ∈ sep, IsSeparator c) (hne : sep ≠ [])
    (hrest : EndsWord rest) : ∀ {vs : List Value} {i : Nat}, Value.AreWritten n vs →
      (∀ v ∈ vs, Prints n v.literal.toList v) →
      LineTokens line (i + (spaced sep vs).length) rest us →
        StartsWith n line i (spaced sep vs ++ rest) vs us := by
  intro vs
  induction vs with
  | nil => exact fun _ _ hus => startsWith_nil hus
  | cons v vs ih =>
    intro i hwritten hprints hus
    obtain ⟨hfirst, hothers⟩ := List.forall_mem_cons.1 hprints
    have hlen : i + (spaced sep (v :: vs)).length =
        i + sep.length + v.render.toList.length + (spaced sep vs).length := by
      rw [spaced_cons, List.length_append, List.length_append]
      omega
    rw [hlen] at hus
    obtain ⟨ts, ws, hts, hargs⟩ :=
      StartsWith.cons hwritten hfirst (spaced_endsWord hsep hne hrest)
        (ih hwritten.tail hothers hus)
    rw [spaced_cons, List.append_assoc, List.append_assoc]
    exact ⟨ts, ws, lineTokens_separators hsep hts, hargs⟩

/-- **Printed arguments** with separators between. -/
theorem startsWith_intercalate {sep : String} (hsep : ∀ c ∈ sep.toList, IsSeparator c)
    (hne : sep.toList ≠ []) (hrest : EndsWord rest) (hwritten : Value.AreWritten n vs)
    (hprints : ∀ v ∈ vs, Prints n v.literal.toList v)
    (hus : LineTokens line (i + (sep.intercalate (vs.map Value.render)).toList.length) rest us) :
    StartsWith n line i ((sep.intercalate (vs.map Value.render)).toList ++ rest) vs us := by
  cases vs with
  | nil => exact startsWith_nil hus
  | cons v vs =>
    obtain ⟨hfirst, hothers⟩ := List.forall_mem_cons.1 hprints
    rw [toList_intercalate_render] at hus ⊢
    rw [List.length_append, ← Nat.add_assoc] at hus
    rw [List.append_assoc]
    exact .cons hwritten hfirst (spaced_endsWord hsep hne hrest)
      (startsWith_spaced hsep hne hrest hwritten.tail hothers hus)

/-- **What can be written is printed as itself**, its places aside. -/
theorem prints_literal (h : v.IsWritten n) : Prints n v.literal.toList v := by
  induction h with
  | @string n t s hs =>
    intro line i rest us _ hus
    have hlen : i + (Value.scalar t .string s).literal.toList.length = i + s.toList.length + 2 := by
      rw [toList_literal_string]
      simp only [List.length_append, List.length_cons, List.length_nil]
      omega
    rw [hlen] at hus
    have htokens := LineTokens.quoted hs.1 hus
    rw [String.ofList_toList] at htokens
    refine ⟨[⟨.quoted s, place line i⟩], _, ?_, .quoted, rfl⟩
    rw [toList_literal_string, List.cons_append, List.append_assoc]
    exact htokens
  | @word n t k s hk hs hof =>
    intro line i rest us hrest hus
    rw [literal_of_ne_string t s hk] at hus ⊢
    have htokens := LineTokens.word hs hrest hus
    rw [String.ofList_toList] at htokens
    refine ⟨[⟨.word s, place line i⟩], _, htokens, .word, ?_⟩
    rw [← hof]
    rfl
  | @array n t vs hitems hnames hlast ih =>
    intro line i rest us _ hus
    have hlen : i + (Value.array t vs).literal.toList.length =
        i + 1 + (", ".intercalate (vs.map Value.render)).toList.length + 1 := by
      rw [toList_literal_array]
      simp only [List.length_append, List.length_cons, List.length_nil]
      omega
    rw [hlen] at hus
    have hclose : Token.ofMark ')' = some .closeParen := rfl
    obtain ⟨q, htail⟩ : ∃ q, LineTokens line
        (i + 1 + (", ".intercalate (vs.map Value.render)).toList.length) (')' :: rest)
        (⟨.closeParen, q⟩ :: us) := ⟨_, .mark hclose hus⟩
    have hsep : ∀ c ∈ (", " : String).toList, IsSeparator c :=
      List.forall_mem_cons.2 ⟨.inr rfl, List.forall_mem_singleton.2 isSeparator_blank⟩
    obtain ⟨ts, ws, hts, hargs, hdetach⟩ := startsWith_intercalate hsep (List.cons_ne_nil _ _)
      (endsWord_of_mark hclose) ⟨hitems, hnames, hlast⟩ ih htail
    have hopen : Token.ofMark '(' = some .openParen := rfl
    refine ⟨⟨.openParen, place line i⟩ :: (ts ++ [⟨.closeParen, q⟩]), _, ?_, .array hargs, ?_⟩
    · simp only [toList_literal_array, List.cons_append, List.append_assoc, List.nil_append]
      exact .mark hopen hts
    · rw [Value.list, Value.detach, Value.rename, Value.detach, Value.detachAll_eq_map,
        Value.detachAll_eq_map, hdetach]

/-! ## Printed statements -/

/-- **The statement as a script writes it** on one line: the command word in
quotes and the arguments, with blanks between, and a semicolon. -/
def printed (made : Statement) : String :=
  " ".intercalate
    (("\"" ++ made.name ++ "\"") :: (made.arguments.items?.getD []).map Value.render) ++ ";"

theorem toList_printed {made : Statement} {p : Position} (h : made.arguments = Value.list vs p) :
    made.printed.toList = '"' :: (made.name.toList ++ '"' :: (spaced [' '] vs ++ [';'])) := by
  have hitems : made.arguments.items?.getD [] = vs := by
    rw [h]
    rfl
  rw [printed, hitems, String.toList_append, toList_intercalate, List.flatMap_map]
  simp [spaced]

theorem feed_notMem_render (hname : ∀ w, v.name = some w → Text.IsRun w.toList)
    (h : '\n' ∉ v.literal.toList) : '\n' ∉ v.render.toList := by
  cases hv : v.name with
  | none =>
    rw [render_of_name_eq_none hv]
    exact h
  | some label =>
    have hlabel := (Value.quotable_of_isRun (hname label hv)).2
    rw [toList_render_of_name_eq_some hv]
    simp [hlabel, h]

theorem feed_notMem_spaced {sep : List Char} (hsep : '\n' ∉ sep)
    (h : ∀ v ∈ vs, '\n' ∉ v.render.toList) : '\n' ∉ spaced sep vs := by
  intro hmem
  obtain ⟨v, hv, hmem⟩ := List.mem_flatMap.1 hmem
  rcases List.mem_append.1 hmem with hmem | hmem
  · exact hsep hmem
  · exact h v hv hmem

/-- **What can be written is printed on one line.** -/
theorem feed_notMem_literal (h : v.IsWritten n) : '\n' ∉ v.literal.toList := by
  induction h with
  | string hs =>
    rw [toList_literal_string]
    simp [hs.2]
  | word hk hs _ =>
    rw [literal_of_ne_string _ _ hk]
    exact (Value.quotable_of_isRun hs).2
  | @array n t vs _ hnames _ ih =>
    have hrender : ∀ v ∈ vs, '\n' ∉ v.render.toList := fun v hv =>
      feed_notMem_render (hnames v hv) (ih v hv)
    have hjoined : '\n' ∉ (", ".intercalate (vs.map Value.render)).toList := by
      cases vs with
      | nil => simp
      | cons v vs =>
        obtain ⟨hfirst, hothers⟩ := List.forall_mem_cons.1 hrender
        rw [toList_intercalate_render, List.mem_append, not_or]
        exact ⟨hfirst, feed_notMem_spaced (by decide) hothers⟩
    rw [toList_literal_array, List.mem_cons, List.mem_append, not_or, not_or]
    exact ⟨by decide, hjoined, by decide⟩

/-- **A printed statement is read as itself**, its places aside. -/
theorem IsWritten.exists_of_printed {made : Statement} (h : made.IsWritten) :
    ∃ again, readAll made.printed = .ok [again] ∧ again.name = made.name ∧
      again.arguments.detach = made.arguments.detach := by
  obtain ⟨vs, p, hvs, hwritten⟩ := h.arguments
  have hchars := toList_printed hvs
  have hspaced : '\n' ∉ spaced [' '] vs := feed_notMem_spaced (by decide) fun v hv =>
    feed_notMem_render (hwritten.names v hv) (feed_notMem_literal (hwritten.items v hv))
  have hfeed : '\n' ∉ made.printed.toList := by
    rw [hchars]
    simp [h.name.2, hspaced]
  have hlines : Text.lines made.printed = [made.printed] := by
    rw [Text.lines_of_no_feed hfeed, if_neg]
    intro hempty
    rw [hempty] at hchars
    cases hchars
  -- the tokens are those of the command word, the arguments and the semicolon
  have hend : Token.ofMark ';' = some .semicolon := rfl
  obtain ⟨q, htail⟩ : ∃ q, LineTokens (Position.ordinal 0)
      (0 + made.name.toList.length + 2 + (spaced [' '] vs).length) [';'] [⟨.semicolon, q⟩] :=
    ⟨_, .mark hend .nil⟩
  have hsep : ∀ c ∈ [' '], IsSeparator c := List.forall_mem_singleton.2 isSeparator_blank
  have hprints : ∀ v ∈ vs, Prints maxNesting v.literal.toList v := fun v hv =>
    prints_literal (hwritten.items v hv)
  obtain ⟨us, ws, hus, hargs, hdetach⟩ := startsWith_spaced hsep (List.cons_ne_nil _ _)
    (endsWord_of_mark hend) hwritten hprints htail
  have htokens := LineTokens.quoted h.name.1 hus
  rw [String.ofList_toList, ← hchars] at htokens
  have hsource : Tokens made.printed (⟨.quoted made.name, place (Position.ordinal 0) 0⟩ ::
      (us ++ [⟨.semicolon, q⟩]) ++ []) := by
    unfold Tokens
    rw [hlines]
    exact .cons htokens .nil
  rw [List.append_nil] at hsource
  have hhead : (Token.quoted made.name).head? = some made.name := rfl
  refine ⟨_, readAll_of_isScript hsource (.statement hhead hargs .nil), rfl, ?_⟩
  rw [hvs, Value.list, Value.list, Value.detach, Value.detach, Value.detachAll_eq_map,
    Value.detachAll_eq_map, hdetach]

/-- **Reading what is printed of what was read** gives the same statement: the
same name and the same arguments, their kinds, texts, names, order and nesting
included. -/
theorem readAll_printed {source : String} {statements : List Statement}
    (h : readAll source = .ok statements) : ∀ made ∈ statements,
      ∃ again, readAll made.printed = .ok [again] ∧ again.name = made.name ∧
        again.arguments.detach = made.arguments.detach := by
  obtain ⟨ts, hts, hscript⟩ := isScript_of_readAll h
  have hwritten := isWritten_of_isScript hscript (wellFormed_of_tokens hts)
  exact fun made hmade => (hwritten made hmade).exists_of_printed

/-- A statement with named arrays inside one another, an empty text, special
characters in quotes, a word in another alphabet and a number in quotes. -/
def nested : Statement :=
  ⟨"say", ⟨1, 1⟩, .list
    [.scalar ⟨none, ⟨1, 5⟩⟩ .string "", .scalar ⟨none, ⟨1, 8⟩⟩ .string "é",
      .array ⟨some "at", ⟨1, 15⟩⟩
        [.scalar ⟨none, ⟨1, 16⟩⟩ .int "7",
          .array ⟨some "b", ⟨2, 4⟩⟩ [.scalar ⟨some "c", ⟨2, 8⟩⟩ .string "7 #;(,"]]]
    ⟨1, 5⟩⟩

theorem readAll_printed_nested :
    readAll "say \"\" é, at: (7\nb: (c: \"7 #;(,\"));" = .ok [nested] ∧
      nested.printed = "\"say\" \"\" \"é\" at: (7, b: (c: \"7 #;(,\"));" ∧
      ∃ again, readAll nested.printed = .ok [again] ∧ again.name = nested.name ∧
        again.arguments.detach = nested.arguments.detach := by
  have hread : readAll "say \"\" é, at: (7\nb: (c: \"7 #;(,\"));" = .ok [nested] :=
    eq_ok_of_toOption (by decide +kernel)
  have hprinted : nested.printed = "\"say\" \"\" \"é\" at: (7, b: (c: \"7 #;(,\"));" := by
    decide +kernel
  exact ⟨hread, hprinted, readAll_printed hread nested List.mem_cons_self⟩

end Statement

end CommandScript
