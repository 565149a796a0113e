import CommandScript.Proofs.Signature.Compiled

/-!
# Tables of types

A table is built by registering types, each against the types before it. So
the names listed are those that stand for something (`Built.inStep`), and
what holds of every overload at its registration holds ever after: its
defaults are settled (`Built.soundTypes`).
-/

namespace CommandScript

namespace TypeTable

/-- **The tables that registrations build.** -/
inductive Built : TypeTable → Prop
  | empty : Built {}
  | register {t u : TypeTable} {name : String} {formats : List String} {count : Nat} :
      Built t → t.register name formats = .ok (u, count) → Built u

variable {t u : TypeTable} {name : String} {formats : List String} {count : Nat}

/-- **A registration adds one type**, with the overloads that its texts stand
for. -/
theorem register_eq_ok (h : t.register name formats = .ok (u, count)) :
    Kind.ofWord name = none ∧ t.contains name = false ∧ formats ≠ [] ∧
      ∃ overloads, t.parseAll formats = .ok overloads ∧ u = t.enter name overloads ∧
        count = overloads.length := by
  unfold register at h
  split at h
  · cases h
  · rename_i hname
    split at h
    · cases h
    · rename_i hne
      obtain ⟨overloads, hall, hu⟩ := Signature.map_eq_ok_iff.1 h
      cases hu
      rw [Bool.or_eq_true, not_or] at hname
      refine ⟨by simpa using hname.1, by simpa using hname.2, ?_, overloads, hall, rfl, rfl⟩
      rintro rfl
      exact hne rfl

/-! ## Types and their names -/

/-- **A table whose types and list of names are in step.** -/
structure InStep (t : TypeTable) : Prop where
  /-- The types known are those listed. -/
  contains (n : String) : t.contains n = true ↔ n ∈ t.names
  /-- There are as many types as names. -/
  size : t.size = t.names.length
  /-- No name is listed twice. -/
  nodup : t.names.Nodup
  /-- None spells a primitive kind. -/
  primitive : ∀ n ∈ t.names, Kind.ofWord n = none

/-- An empty table lists no name. -/
theorem inStep_empty : ({} : TypeTable).InStep where
  contains n := by
    rw [contains_eq_isSome_get?, get?_empty]
    exact iff_of_false Bool.false_ne_true List.not_mem_nil
  size := rfl
  nodup := .nil
  primitive _ hn := absurd hn List.not_mem_nil

/-- **A type under a free name is entered in both.** -/
theorem InStep.enter {overloads : List Signature} (h : t.InStep) (hword : Kind.ofWord name = none)
    (hfree : t.contains name = false) : (t.enter name overloads).InStep where
  contains n := by
    rw [names_enter, List.mem_append, List.mem_singleton, ← h.contains n,
      contains_eq_isSome_get?, contains_eq_isSome_get?]
    by_cases hn : n = name
    · simp [hn]
    · simp [hn, get?_enter_of_ne]
  size := by
    rw [size_enter _ _ _ hfree, h.size, names_enter, List.length_append, List.length_singleton]
  nodup := by
    have hnew : name ∉ t.names := by
      rw [← h.contains name, hfree]
      exact Bool.false_ne_true
    rw [names_enter]
    exact List.nodup_append.2 ⟨h.nodup, by simp, fun n hn m hm hne =>
      hnew (List.mem_singleton.1 hm ▸ hne ▸ hn)⟩
  primitive n hn := by
    rw [names_enter, List.mem_append, List.mem_singleton] at hn
    rcases hn with hn | rfl
    · exact h.primitive n hn
    · exact hword

/-- **Registrations keep types and names in step.** -/
theorem Built.inStep (h : t.Built) : t.InStep := by
  induction h with
  | empty => exact inStep_empty
  | register _ hreg ih =>
    obtain ⟨hword, hfree, -, overloads, -, rfl, -⟩ := register_eq_ok hreg
    exact ih.enter hword hfree

/-! ## What types stand for -/

/-- The overloads of texts are those of each text. -/
theorem exists_of_mem_parseAll : ∀ {formats : List String} {overloads : List Signature},
    t.parseAll formats = .ok overloads → ∀ s ∈ overloads, ∃ source ∈ formats, ∃ signatures,
      t.parse source = .ok signatures ∧ s ∈ signatures := by
  intro formats
  induction formats with
  | nil =>
    intro overloads h s hs
    cases h
    cases hs
  | cons source formats ih =>
    intro overloads h s hs
    obtain ⟨first, hfirst, h⟩ := Signature.bind_eq_ok_iff.1 h
    obtain ⟨more, hmore, h⟩ := Signature.bind_eq_ok_iff.1 h
    cases h
    rcases List.mem_append.1 hs with hs | hs
    · exact ⟨source, List.mem_cons_self, first, hfirst, hs⟩
    · obtain ⟨other, hother, signatures, hparse, hmem⟩ := ih hmore s hs
      exact ⟨other, List.mem_cons_of_mem _ hother, signatures, hparse, hmem⟩

/-- A name stands for what was last entered under it, or for what it did
before. -/
theorem eq_or_of_get?_enter {overloads stored : List Signature} {w : String}
    (h : (t.enter name overloads).get? w = some stored) :
    w = name ∧ stored = overloads ∨ t.get? w = some stored := by
  by_cases hw : w = name
  · subst hw
    rw [get?_enter_self] at h
    exact .inl ⟨rfl, (Option.some.inj h).symm⟩
  · rw [get?_enter_of_ne _ _ _ hw] at h
    exact .inr h

/-- **A type whose texts are read is registered**, if its name is free. -/
theorem register_of_parseAll {overloads : List Signature} (hword : Kind.ofWord name = none)
    (hfree : t.contains name = false) (hne : formats ≠ [])
    (h : t.parseAll formats = .ok overloads) :
    t.register name formats = .ok (t.enter name overloads, overloads.length) := by
  unfold register
  rw [hword, hfree, h]
  cases formats with
  | nil => exact absurd rfl hne
  | cons _ _ => rfl

/-- **What reading keeps, registering keeps**, where the property may weaken
with each type. What is read against types that have it must have it one type
later. -/
theorem Built.forall_overloads_of_size {P : Nat → Signature → Prop}
    (hmono : ∀ n s, P n s → P (n + 1) s)
    (hparse : ∀ {u : TypeTable} {source : String} {signatures : List Signature}, u.Built →
      (∀ w overloads, u.get? w = some overloads → ∀ s ∈ overloads, P u.size s) →
        u.parse source = .ok signatures → ∀ s ∈ signatures, P (u.size + 1) s)
    (h : t.Built) : ∀ w overloads, t.get? w = some overloads → ∀ s ∈ overloads, P t.size s := by
  induction h with
  | empty => exact fun w overloads hw => absurd hw get?_empty_ne_some
  | @register t u name formats count ht hreg ih =>
    obtain ⟨-, hfree, -, overloads, hformats, rfl, -⟩ := register_eq_ok hreg
    rw [size_enter _ _ _ hfree]
    intro w stored hw s hs
    rcases eq_or_of_get?_enter hw with ⟨rfl, rfl⟩ | hw
    · obtain ⟨source, -, signatures, hsource, hmem⟩ := exists_of_mem_parseAll hformats s hs
      exact hparse ht ih hsource s hmem
    · exact hmono _ _ (ih w stored hw s hs)

/-- **What reading keeps, registering keeps.** A property that every signature
has when it is read against types with it, all types of a table have. -/
theorem Built.forall_overloads {P : Signature → Prop}
    (hparse : ∀ {u : TypeTable} {source : String} {signatures : List Signature},
      (∀ w overloads, u.get? w = some overloads → ∀ s ∈ overloads, P s) →
        u.parse source = .ok signatures → ∀ s ∈ signatures, P s)
    (h : t.Built) : ∀ w overloads, t.get? w = some overloads → ∀ s ∈ overloads, P s :=
  h.forall_overloads_of_size (P := fun _ => P) (fun _ _ hs => hs) fun _ => hparse

/-- **The types of a table have settled defaults.** -/
theorem Built.soundTypes (h : t.Built) : Signature.SoundTypes t.get? :=
  h.forall_overloads fun htypes hparse s hs p hp =>
    ((Signature.compiled_of_parse htypes hparse s hs).1 p hp).sound

/-- A type with one overload has just that one. -/
theorem singleTypes (h : ∀ n overloads, t.get? n = some overloads → overloads.length = 1) :
    Signature.SingleTypes t.get? :=
  fun n overloads hn => List.length_eq_one_iff.1 (h n overloads hn)

end TypeTable

end CommandScript
