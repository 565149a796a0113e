import CommandScript.Interpreter
import CommandScript.Proofs.Signature.Lookups
import CommandScript.Proofs.Vocabulary.Acceptance

/-!
# Registering types, in whatever order

A table of types is what attempts to register them make of it, and an attempt
at fault leaves no trace. Whatever the attempts, the table lists the names of
those that succeeded, and knows overloads for each (`Built.coherent`). One
type more changes nothing that was there before, nor what any text stands for
that does not name it (`Built.extendedBy`). An interpreter that registers a
type or a command is as it was when that fails.
-/

namespace CommandScript

/-- Words that are the same name spell the same kind. -/
theorem Kind.ofWord_of_sameName {v w : String} (h : Text.sameName v w = true) :
    ofWord v = ofWord w := by
  have hkey := Text.sameName_iff.1 h
  unfold ofWord Text.sameName
  rw [hkey]

namespace TypeTable

open Signature (HasTokens Token NonemptyTypes)

variable {t u : TypeTable} {name : String} {formats : List String} {count : Nat} {source : String}
  {d : Diagnostic}

/-! ## Attempts -/

/-- An attempt to register a type. -/
structure Registration where
  /-- The name of the type. -/
  name : String
  /-- The texts that its overloads are read from. -/
  formats : List String

/-- The table after an attempt. A type at fault leaves it as it was. -/
def attempt (t : TypeTable) (r : Registration) : TypeTable :=
  match t.register r.name r.formats with
  | .ok (u, _) => u
  | .error _ => t

/-- The table after attempts, one after the other. -/
def after (t : TypeTable) (rs : List Registration) : TypeTable :=
  rs.foldl attempt t

/-- The names of the attempts that succeed, in their order. -/
def registered (t : TypeTable) : List Registration → List String
  | [] => []
  | r :: rs =>
    match t.register r.name r.formats with
    | .ok (u, _) => r.name :: u.registered rs
    | .error _ => t.registered rs

/-- **A table that agrees with the names registered.** -/
structure Coherent (t : TypeTable) (listed : List String) : Prop where
  /-- The names are listed in order. -/
  names : t.names = listed
  /-- There are as many types as names. -/
  size : t.size = listed.length
  /-- No name is registered twice. -/
  nodup : listed.Nodup
  /-- The types known are those registered. -/
  contains (n : String) : t.contains n = true ↔ n ∈ listed
  /-- None spells a primitive kind, in whatever case. -/
  primitive : ∀ n ∈ listed, ∀ w, Text.sameName w n = true → Kind.ofWord w = none
  /-- Each has an overload at least. -/
  overloads : ∀ n ∈ listed, ∃ overloads, t.get? n = some overloads ∧ overloads ≠ []
  /-- A text that is read stands for a signature at least. -/
  parse (source : String) (signatures : List Signature) :
    t.parse source = .ok signatures → signatures ≠ []

/-- **A table with one type more**, and otherwise the same. -/
structure ExtendedBy (t : TypeTable) (name : String) (u : TypeTable) : Prop where
  /-- The new name comes last. -/
  names : u.names = t.names ++ [name]
  /-- Overloads stay as they were registered. -/
  overloads (n : String) (overloads : List Signature) :
    t.get? n = some overloads → u.get? n = some overloads
  /-- A text without the new name as a word stands for the same, or is at the
  same fault. -/
  parse (source : String) :
    (∀ ts, HasTokens source.toList ts → Token.word name ∉ ts) → u.parse source = t.parse source

/-! ## What a table holds -/

/-- Attempts add their names. -/
theorem names_after (rs : List Registration) :
    ∀ t : TypeTable, (t.after rs).names = t.names ++ t.registered rs := by
  induction rs with
  | nil => exact fun t => (List.append_nil _).symm
  | cons r rs ih =>
    intro t
    change ((t.attempt r).after rs).names = _
    rw [ih, attempt, registered]
    cases hreg : t.register r.name r.formats with
    | error d => rfl
    | ok made =>
      obtain ⟨-, -, -, overloads, -, hu, -⟩ := register_eq_ok hreg
      dsimp only
      rw [hu, names_enter]
      exact List.append_assoc _ _ _

/-- **Attempts build tables.** -/
theorem Built.after (rs : List Registration) : ∀ {t : TypeTable}, t.Built → (t.after rs).Built := by
  induction rs with
  | nil => exact fun ht => ht
  | cons r rs ih =>
    intro t ht
    refine ih (t := t.attempt r) ?_
    unfold attempt
    cases hreg : t.register r.name r.formats with
    | error d => exact ht
    | ok made => exact .register ht hreg

/-- **A table agrees with its names.** -/
theorem Built.coherent (h : t.Built) : t.Coherent t.names where
  names := rfl
  size := h.inStep.size
  nodup := h.inStep.nodup
  contains := h.inStep.contains
  primitive n hn w hw := by
    rw [Kind.ofWord_of_sameName hw]
    exact h.inStep.primitive n hn
  overloads n hn := by
    have hknown := (h.inStep.contains n).2 hn
    rw [contains_eq_isSome_get?] at hknown
    obtain ⟨overloads, hget⟩ := Option.isSome_iff_exists.1 hknown
    exact ⟨overloads, hget, h.nonemptyTypes n overloads hget⟩
  parse _ _ hparse := ne_nil_of_parse h.nonemptyTypes hparse

/-! ## One type more -/

/-- **A type more leaves the rest alone.** -/
theorem Built.extendedBy (ht : t.Built) (h : t.register name formats = .ok (u, count)) :
    t.ExtendedBy name u := by
  obtain ⟨-, hfree, -, overloads, -, rfl, -⟩ := register_eq_ok h
  refine ⟨names_enter _ _ _, fun n stored hn => ?_, fun source hsource => ?_⟩
  · rw [get?_enter_of_ne, hn]
    rintro rfl
    rw [contains_eq_isSome_get?, hn] at hfree
    cases hfree
  · exact (Signature.parse_eq_of_notMem ht.nonemptyTypes
      (fun n hn => (get?_enter_of_ne _ _ _ hn).symm) hsource).symm

/-- Where a text is not read, the cause is in the text. -/
theorem cause_of_parse (h : t.parse source = .error d) :
    ∃ column fault, d.cause = .signature source column fault := by
  unfold parse Signature.parse at h
  cases hread : Signature.tokens source >>=
      Signature.paramLists ⟨t.get?, Position.ordinal source.length⟩ with
  | ok lists =>
    simp only [hread] at h
    cases h
  | error e =>
    simp only [hread] at h
    cases h
    exact ⟨_, _, rfl⟩

/-- Where texts are not read, the cause is in one of them. -/
theorem cause_of_parseAll : ∀ {formats : List String}, t.parseAll formats = .error d →
    ∃ source ∈ formats, ∃ column fault, d.cause = .signature source column fault := by
  intro formats
  induction formats with
  | nil =>
    intro h
    cases h
  | cons source formats ih =>
    intro h
    unfold parseAll at h
    cases hfirst : t.parse source with
    | error e =>
      rw [hfirst] at h
      cases h
      exact ⟨source, List.mem_cons_self, cause_of_parse hfirst⟩
    | ok first =>
      rw [hfirst] at h
      cases hmore : t.parseAll formats with
      | ok more =>
        rw [hmore] at h
        cases h
      | error e =>
        rw [hmore] at h
        cases h
        obtain ⟨other, hother, hcause⟩ := ih hmore
        exact ⟨other, List.mem_cons_of_mem _ hother, hcause⟩

end TypeTable

namespace Interpreter

variable {σ : Host} {i j : Interpreter σ} {name : String} {formats : List String} {modes : List Int}
  {handler : Handler σ} {d : Diagnostic}

/-! ## Registering with an interpreter -/

/-- A type at fault leaves the interpreter as it was. -/
theorem eq_of_registerType_error (h : registerType name formats i = .error d j) : j = i := by
  unfold registerType at h
  rw [get_bind_eq] at h
  cases hreg : i.types.register name formats with
  | error e =>
    simp only [hreg] at h
    cases h
    rfl
  | ok made =>
    simp only [hreg] at h
    cases h

/-- A command at fault leaves the interpreter as it was. -/
theorem eq_of_registerCommand_error
    (h : registerCommand name modes formats handler i = .error d j) :
    j = i ∧ i.overloads name formats = .error d := by
  unfold registerCommand at h
  rw [get_bind_eq] at h
  cases hall : i.overloads name formats with
  | error e =>
    simp only [hall] at h
    cases h
    exact ⟨rfl, rfl⟩
  | ok signatures =>
    simp only [hall] at h
    cases h

/-- A command with texts has overloads, if they are read. -/
theorem ne_emptyRegistration_of_overloads (ht : i.types.Built) (hne : formats ≠ [])
    (h : i.overloads name formats = .error d) (n : String) : d.cause ≠ .emptyRegistration n := by
  unfold overloads at h
  rw [List.isEmpty_eq_false_iff.2 hne, if_neg Bool.false_ne_true] at h
  cases hall : i.types.parseAll formats with
  | error e =>
    rw [hall] at h
    cases h
    obtain ⟨source, -, column, fault, hcause⟩ := TypeTable.cause_of_parseAll hall
    rw [hcause]
    intro hno
    cases hno
  | ok signatures =>
    rw [hall] at h
    have hsome := TypeTable.ne_nil_of_parseAll ht.nonemptyTypes hne hall
    change (if signatures.isEmpty then _ else _) = _ at h
    rw [List.isEmpty_eq_false_iff.2 hsome, if_neg Bool.false_ne_true] at h
    cases h

end Interpreter

namespace TypeTable

/-- **After whatever attempts to register types**, the table agrees with the
names of those that succeeded, in order; one more that succeeds leaves the
rest alone; and an interpreter with this table is as it was when it fails to
register a type or a command, a command with texts never for want of
overloads. -/
theorem after_coherent (rs : List Registration) :
    (after {} rs).Coherent (registered {} rs) ∧
      (∀ name formats u count, (after {} rs).register name formats = .ok (u, count) →
        (after {} rs).ExtendedBy name u) ∧
      ∀ {σ : Host} (i : Interpreter σ), i.types = after {} rs →
        (∀ name formats d j, Interpreter.registerType name formats i = .error d j → j = i) ∧
        ∀ name modes formats handler d j,
          Interpreter.registerCommand name modes formats handler i = .error d j →
            j = i ∧ (formats ≠ [] → ∀ n, d.cause ≠ .emptyRegistration n) := by
  have hbuilt : (after {} rs).Built := Built.after rs .empty
  have hnames : (after {} rs).names = registered {} rs := names_after rs {}
  refine ⟨hnames ▸ hbuilt.coherent, fun _ _ _ _ hreg => hbuilt.extendedBy hreg, ?_⟩
  intro σ i hi
  refine ⟨fun _ _ _ _ h => Interpreter.eq_of_registerType_error h, fun _ _ _ _ _ _ h => ?_⟩
  obtain ⟨hj, hoverloads⟩ := Interpreter.eq_of_registerCommand_error h
  have htypes : i.types.Built := hi ▸ hbuilt
  exact ⟨hj, fun hne => Interpreter.ne_emptyRegistration_of_overloads htypes hne hoverloads⟩

/-- Attempts of which two succeed: one is at fault in its second text, one
spells a primitive kind, and one has a name that is taken. -/
def someAttempts : List Registration :=
  [⟨"point", ["int x, int y = 0"]⟩, ⟨"pair", ["point a, point b", "point a,, b"]⟩,
    ⟨"INT", ["int x"]⟩, ⟨"range", ["int a", "point a = (1)"]⟩, ⟨"point", ["int x"]⟩]

theorem after_coherent_someAttempts :
    registered {} someAttempts = ["point", "range"] ∧
      (after {} someAttempts).Coherent ["point", "range"] ∧
      ∃ u count, (after {} someAttempts).register "pair" ["range a, point b"] = .ok (u, count) ∧
        (after {} someAttempts).ExtendedBy "pair" u := by
  have hnames : registered {} someAttempts = ["point", "range"] := by decide +kernel
  have hread : ((after {} someAttempts).register "pair" ["range a, point b"]).toOption.map
      Prod.snd = some 2 := by decide +kernel
  obtain ⟨hcoherent, hextended, -⟩ := after_coherent someAttempts
  rw [hnames] at hcoherent
  cases hreg : (after {} someAttempts).register "pair" ["range a, point b"] with
  | error d =>
    rw [hreg] at hread
    cases hread
  | ok made =>
    exact ⟨hnames, hcoherent, made.1, made.2, rfl, hextended _ _ _ _ hreg⟩

end TypeTable

end CommandScript
