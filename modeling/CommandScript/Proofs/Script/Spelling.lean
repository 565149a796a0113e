import CommandScript.Script.Path
import Mathlib.Logic.Relation

/-!
# Spellings of a path

A slash cuts a path in two, and its steps are those of the two halves
(`steps_append`). So the text of a place leads to that place
(`fold_locationText`), and a detour that is put in at a slash changes nothing
about where a path leads (`Inserted.fold_eq`). Paths that differ in detours
alone are spellings of one another (`Respelled`), and so they are when seen
from a directory (`Respelled.join`).
-/

namespace CommandScript

namespace Path

variable {path other base name : String} {place : Location}

/-! ## Parts -/

theorem parts_slash (rest : List Char) : parts ('/' :: rest) = [] :: parts rest := by
  rw [parts, if_pos rfl]

theorem parts_cons {c : Char} {rest first : List Char} {more : List (List Char)} (hc : c ≠ '/')
    (hrest : parts rest = first :: more) : parts (c :: rest) = (c :: first) :: more := by
  rw [parts, if_neg hc, hrest]

/-- **A slash cuts a text in two.** -/
theorem parts_append (before after : List Char) :
    parts (before ++ '/' :: after) = parts before ++ parts after := by
  induction before with
  | nil => exact parts_slash after
  | cons c rest ih =>
    by_cases hc : c = '/'
    · subst hc
      rw [List.cons_append, parts_slash, parts_slash, ih, List.cons_append]
    · obtain ⟨first, more, hrest⟩ := List.exists_cons_of_ne_nil (parts_ne_nil rest)
      have hboth : parts (rest ++ '/' :: after) = first :: (more ++ parts after) := by
        rw [ih, hrest, List.cons_append]
      rw [List.cons_append, parts_cons hc hboth, parts_cons hc hrest, List.cons_append]

/-- A text without slashes is one part. -/
theorem parts_of_notMem {s : List Char} (h : '/' ∉ s) : parts s = [s] := by
  induction s with
  | nil => rfl
  | cons c rest ih =>
    have hc : c ≠ '/' := fun heq => h (heq ▸ List.mem_cons_self)
    exact parts_cons hc (ih fun hmem => h (List.mem_cons_of_mem c hmem))

theorem slash_notMem_of_mem_parts {s part : List Char} (h : part ∈ parts s) : '/' ∉ part := by
  induction s generalizing part with
  | nil =>
    rw [List.mem_singleton.1 h]
    exact List.not_mem_nil
  | cons c rest ih =>
    by_cases hc : c = '/'
    · subst hc
      rw [parts_slash] at h
      rcases List.mem_cons.1 h with rfl | h
      · exact List.not_mem_nil
      · exact ih h
    · obtain ⟨first, more, hrest⟩ := List.exists_cons_of_ne_nil (parts_ne_nil rest)
      rw [parts_cons hc hrest] at h
      rw [hrest] at ih
      rcases List.mem_cons.1 h with rfl | h
      · exact fun hmem => (List.mem_cons.1 hmem).elim (Ne.symm hc) (ih List.mem_cons_self)
      · exact ih (List.mem_cons_of_mem first h)

/-! ## Names -/

/-- **A name**: what a step can go down to. -/
structure IsName (name : String) : Prop where
  slash_notMem : '/' ∉ name.toList
  ne_empty : name.toList ≠ []
  ne_dot : name.toList ≠ ['.']
  ne_dots : name.toList ≠ ['.', '.']

instance (name : String) : Decidable (IsName name) :=
  decidable_of_iff
    ('/' ∉ name.toList ∧ name.toList ≠ [] ∧ name.toList ≠ ['.'] ∧ name.toList ≠ ['.', '.'])
    ⟨fun ⟨hslash, hempty, hdot, hdots⟩ => ⟨hslash, hempty, hdot, hdots⟩,
      fun h => ⟨h.slash_notMem, h.ne_empty, h.ne_dot, h.ne_dots⟩⟩

/-- A place that names lead to. -/
def IsPlace (place : Location) : Prop :=
  ∀ name ∈ place, IsName name

instance (place : Location) : Decidable (IsPlace place) :=
  inferInstanceAs (Decidable (∀ name ∈ place, IsName name))

theorem isIdle_eq_false {part : List Char} (hne : part ≠ []) (hdot : part ≠ ['.']) :
    isIdle part = false := by
  unfold isIdle
  rw [beq_eq_false_iff_ne.2 hne, beq_eq_false_iff_ne.2 hdot]
  rfl

/-- A name is a step down. -/
theorem stepOf_name (h : IsName name) : stepOf name.toList = .down name := by
  unfold stepOf
  rw [isIdle_eq_false h.ne_empty h.ne_dot, if_neg Bool.false_ne_true, if_neg h.ne_dots,
    String.ofList_toList]

/-- A step down is one to a name. -/
theorem isName_of_stepOf {part : List Char} (hslash : '/' ∉ part)
    (h : stepOf part = .down name) : IsName name := by
  unfold stepOf at h
  split at h
  · cases h
  · rename_i hidle
    split at h
    · cases h
    · rename_i hdots
      cases h
      simp only [isIdle, Bool.or_eq_true, beq_iff_eq, not_or] at hidle
      refine ⟨?_, ?_, ?_, ?_⟩ <;> rw [String.toList_ofList]
      · exact hslash
      · exact hidle.1
      · exact hidle.2
      · exact hdots

theorem isName_of_mem_steps (h : .down name ∈ steps path) : IsName name := by
  obtain ⟨part, hpart, hstep⟩ := List.mem_map.1 h
  exact isName_of_stepOf (slash_notMem_of_mem_parts hpart) hstep

/-! ## Steps -/

theorem fold_append (place : Location) (before after : List Step) :
    fold place (before ++ after) = fold (fold place before) after :=
  List.foldl_append

/-- Names lead from a place to a place. -/
theorem isPlace_fold {steps : List Step} (hplace : IsPlace place)
    (hsteps : ∀ name, .down name ∈ steps → IsName name) : IsPlace (fold place steps) := by
  induction steps generalizing place with
  | nil => exact hplace
  | cons step rest ih =>
    have hrest : ∀ name, .down name ∈ rest → IsName name :=
      fun name hmem => hsteps name (List.mem_cons_of_mem step hmem)
    refine ih ?_ hrest
    intro name hmem
    cases step with
    | stay => exact hplace name hmem
    | up => exact hplace name (List.dropLast_subset place hmem)
    | down next =>
      rcases List.mem_append.1 hmem with hmem | hmem
      · exact hplace name hmem
      · rw [List.mem_singleton.1 hmem]
        exact hsteps next List.mem_cons_self

theorem toList_slash (before after : String) :
    (before ++ "/" ++ after).toList = before.toList ++ '/' :: after.toList := by
  rw [String.toList_append, String.toList_append, List.append_assoc]
  rfl

/-- **The steps of a path** are those before a slash and those behind it. -/
theorem steps_append (before after : String) :
    steps (before ++ "/" ++ after) = steps before ++ steps after := by
  unfold steps
  rw [toList_slash, parts_append, List.map_append]

theorem steps_name (h : IsName name) : steps name = [.down name] := by
  unfold steps
  rw [parts_of_notMem h.slash_notMem, List.map_singleton, stepOf_name h]

/-! ## The text of a place -/

theorem parts_intercalate : ∀ {name : String} {rest : Location}, IsPlace (name :: rest) →
    parts ("/".intercalate (name :: rest)).toList = (name :: rest).map String.toList := by
  intro name rest
  induction rest generalizing name with
  | nil =>
    intro h
    rw [String.intercalate_singleton]
    exact parts_of_notMem (h name List.mem_cons_self).slash_notMem
  | cons next rest ih =>
    intro h
    have hname := h name List.mem_cons_self
    have hrest : IsPlace (next :: rest) := fun n hn => h n (List.mem_cons_of_mem name hn)
    rw [String.intercalate_cons_cons, toList_slash, parts_append,
      parts_of_notMem hname.slash_notMem, ih hrest]
    rfl

/-- The parts of the text of a place: one before the root, and the names. -/
theorem parts_locationText (h : IsPlace place) : parts (locationText place).toList =
    [] :: if place = [] then [[]] else place.map String.toList := by
  have htext : locationText place = "" ++ "/" ++ "/".intercalate place := by
    rw [String.empty_append]
    rfl
  rw [htext, toList_slash, parts_append]
  cases place with
  | nil => rfl
  | cons name rest =>
    rw [parts_intercalate h, if_neg (List.cons_ne_nil name rest)]
    rfl

theorem fold_down (place names : Location) : fold place (names.map .down) = place ++ names := by
  induction names generalizing place with
  | nil => exact (List.append_nil place).symm
  | cons name rest ih =>
    calc fold place ((name :: rest).map .down)
        = fold (place ++ [name]) (rest.map .down) := rfl
      _ = place ++ [name] ++ rest := ih (place ++ [name])
      _ = place ++ name :: rest := by rw [List.append_assoc, List.singleton_append]

/-- **The text of a place leads to the place.** -/
theorem fold_locationText (h : IsPlace place) : fold [] (steps (locationText place)) = place := by
  unfold steps
  rw [parts_locationText h]
  cases place with
  | nil => rfl
  | cons name rest =>
    have hsteps : ((name :: rest).map String.toList).map stepOf = (name :: rest).map .down := by
      rw [List.map_map]
      exact List.map_congr_left fun next hnext => stepOf_name (h next hnext)
    rw [if_neg (List.cons_ne_nil name rest), List.map_cons, hsteps]
    exact fold_down [] (name :: rest)

/-- A path from the root down, by names only. -/
structure IsNormal (path : String) : Prop where
  /-- It starts at the root. -/
  absolute : isAbsolute path = true
  /-- No part of it is `.` or `..`. -/
  named : ∀ part ∈ parts path.toList, part ≠ ['.'] ∧ part ≠ ['.', '.']

/-- **The text of a place is in normal form.** -/
theorem isNormal_locationText (h : IsPlace place) : IsNormal (locationText place) where
  absolute := by
    unfold isAbsolute locationText
    rw [String.toList_append]
    rfl
  named part hpart := by
    have hempty : part = [] → part ≠ ['.'] ∧ part ≠ ['.', '.'] := by
      rintro rfl
      exact ⟨(List.cons_ne_nil _ _).symm, (List.cons_ne_nil _ _).symm⟩
    rw [parts_locationText h] at hpart
    rcases List.mem_cons.1 hpart with hpart | hpart
    · exact hempty hpart
    · split at hpart
      · exact hempty (List.mem_singleton.1 hpart)
      · obtain ⟨name, hname, rfl⟩ := List.mem_map.1 hpart
        exact ⟨(h name hname).ne_dot, (h name hname).ne_dots⟩

/-! ## Where a path starts -/

theorem isAbsolute_append (h : path ≠ "") (rest : String) :
    isAbsolute (path ++ rest) = isAbsolute path := by
  obtain ⟨c, more, hpath⟩ := List.exists_cons_of_ne_nil (mt String.toList_eq_nil_iff.1 h)
  unfold isAbsolute
  rw [String.toList_append, hpath, List.cons_append, List.head?_cons, List.head?_cons]

theorem append_slash_ne_empty (before after : String) : before ++ "/" ++ after ≠ "" := by
  intro h
  have hlist := congrArg String.toList h
  rw [toList_slash] at hlist
  exact List.append_ne_nil_of_right_ne_nil _ (List.cons_ne_nil _ _) hlist

/-- Where a path starts is decided before its first slash. -/
theorem isAbsolute_slash (before after after' : String) :
    isAbsolute (before ++ "/" ++ after) = isAbsolute (before ++ "/" ++ after') := by
  have h : before ++ "/" ≠ "" := by
    have hne := append_slash_ne_empty before ""
    rwa [String.append_empty] at hne
  rw [isAbsolute_append h, isAbsolute_append h]

/-! ## Detours -/

/-- What leads back to where it starts. -/
inductive Detour : String → Prop
  /-- Nothing, so that two slashes meet. -/
  | empty : Detour ""
  /-- A step that stays. -/
  | stay : Detour "."
  /-- Down to some name, whether or not there is such a thing, and up again. -/
  | aside {name : String} : IsName name → Detour (name ++ "/" ++ "..")

/-- **A detour leads back.** -/
theorem Detour.fold_eq {detour : String} (h : Detour detour) (place : Location) :
    fold place (steps detour) = place := by
  cases h with
  | empty => rfl
  | stay => rfl
  | aside hname =>
    rw [steps_append, steps_name hname]
    exact List.dropLast_concat

/-- A detour that is not empty starts where the path does. -/
theorem Detour.isAbsolute_eq_false {detour : String} (h : Detour detour) (hne : detour ≠ "") :
    isAbsolute detour = false := by
  cases h with
  | empty => exact absurd rfl hne
  | stay => rfl
  | @aside name hname =>
    have hhead : name ≠ "" := fun heq => hname.ne_empty (String.toList_eq_nil_iff.2 heq)
    rw [String.append_assoc, isAbsolute_append hhead]
    unfold isAbsolute
    refine beq_eq_false_iff_ne.2 fun hslash => ?_
    exact hname.slash_notMem (List.mem_of_mem_head? hslash)

/-- **A detour put into a path.** One right behind a slash at the end is put in
with a slash behind it, which is then taken out. -/
inductive Inserted : String → String → Prop
  /-- Between two steps, or behind the root. -/
  | between {detour : String} (before after : String) : Detour detour →
      Inserted (before ++ "/" ++ after) (before ++ "/" ++ (detour ++ "/" ++ after))
  /-- Before the first step. A slash there would lead to the root. -/
  | before {detour path : String} : Detour detour → detour ≠ "" → path ≠ "" →
      isAbsolute path = false → Inserted path (detour ++ "/" ++ path)
  /-- After the last step. -/
  | after {detour path : String} : Detour detour → path ≠ "" →
      Inserted path (path ++ "/" ++ detour)

/-- **Spellings of one path**: detours are put in and taken out. -/
def Respelled : String → String → Prop :=
  Relation.EqvGen Inserted

/-- What no detour changes is the same for all spellings. -/
theorem Respelled.congr {α : Type*} {f : String → α}
    (hf : ∀ path other, Inserted path other → f path = f other) (h : Respelled path other) :
    f path = f other := by
  induction h with
  | rel path other h => exact hf path other h
  | refl path => rfl
  | symm path other _ ih => exact ih.symm
  | trans path middle other _ _ ih ih' => exact ih.trans ih'

/-- A path starts where it started. -/
theorem Inserted.isAbsolute_eq (h : Inserted path other) : isAbsolute path = isAbsolute other := by
  cases h with
  | between before after _ => exact isAbsolute_slash before after _
  | before hdetour hne _ hrelative =>
    rw [hrelative, String.append_assoc, isAbsolute_append hne, hdetour.isAbsolute_eq_false hne]
  | after _ hpath => rw [String.append_assoc, isAbsolute_append hpath]

/-- **A path leads where it led.** -/
theorem Inserted.fold_eq (h : Inserted path other) (place : Location) :
    fold place (steps path) = fold place (steps other) := by
  cases h with
  | between before after hdetour =>
    rw [steps_append, steps_append, steps_append, fold_append, fold_append, fold_append,
      hdetour.fold_eq]
  | before hdetour _ _ _ => rw [steps_append, fold_append, hdetour.fold_eq]
  | after hdetour _ => rw [steps_append, fold_append, hdetour.fold_eq]

/-- A detour does not empty a path, nor is there one in the empty path. -/
theorem Inserted.ne_empty (h : Inserted path other) : path ≠ "" ∧ other ≠ "" := by
  cases h with
  | between before after _ =>
    exact ⟨append_slash_ne_empty before after, append_slash_ne_empty before _⟩
  | before _ _ hpath _ => exact ⟨hpath, append_slash_ne_empty _ _⟩
  | after _ hpath => exact ⟨hpath, append_slash_ne_empty _ _⟩

theorem Respelled.ne_empty (h : Respelled path other) (hpath : path ≠ "") : other ≠ "" := by
  have hboth : (path ≠ "") = (other ≠ "") :=
    h.congr fun _ _ h => propext (iff_of_true h.ne_empty.1 h.ne_empty.2)
  exact hboth ▸ hpath

/-! ## Seen from a directory -/

theorem join_of_isAbsolute (h : isAbsolute path = true) : join base path = path := by
  unfold join
  rw [if_pos h]

theorem join_empty (path : String) : join "" path = path := by
  unfold join
  split
  · rfl
  · rw [if_pos (.inl rfl), String.empty_append]

/-- **A relative path seen from a directory** stands behind a slash, if the
directory has a text. -/
theorem exists_join (hbase : base ≠ "") : ∃ before, (base = before ∨ base = before ++ "/") ∧
    ∀ path, isAbsolute path = false → join base path = before ++ "/" ++ path := by
  have hjoin : ∀ path, isAbsolute path = false → join base path =
      if base.toList.getLast? = some '/' then base ++ path else base ++ "/" ++ path := by
    intro path h
    unfold join
    rw [h, if_neg Bool.false_ne_true]
    simp only [hbase, false_or]
  by_cases hlast : base.toList.getLast? = some '/'
  · -- the slash at the end of the directory is the one that the path stands behind
    obtain ⟨before, hbefore⟩ := List.getLast?_eq_some_iff.1 hlast
    have htext : base = String.ofList before ++ "/" := by
      refine String.toList_inj.1 ?_
      rw [hbefore, String.toList_append, String.toList_ofList]
      rfl
    refine ⟨String.ofList before, .inr htext, fun path h => ?_⟩
    rw [hjoin path h, if_pos hlast, ← htext]
  · refine ⟨base, .inl rfl, fun path h => ?_⟩
    rw [hjoin path h, if_neg hlast]

theorem join_ne_empty (hpath : path ≠ "") : join base path ≠ "" := by
  unfold join
  split
  · exact hpath
  · split
    · exact fun h => hpath (String.append_eq_empty_iff.1 h).2
    · exact append_slash_ne_empty base path

/-- A relative path leads on from where the directory leads. -/
theorem fold_join (hbase : base ≠ "") (h : isAbsolute path = false) (place : Location) :
    fold place (steps (join base path)) = fold (fold place (steps base)) (steps path) := by
  obtain ⟨before, hbefore, hjoin⟩ := exists_join hbase
  rw [hjoin path h, steps_append, fold_append]
  rcases hbefore with rfl | rfl
  · rfl
  · have hend : fold place (steps (before ++ "/")) = fold place (steps before) := by
      rw [← String.append_empty (s := before ++ "/"), steps_append, fold_append]
      exact Detour.empty.fold_eq _
    rw [hend]

/-- Behind a slash a detour is put in likewise. -/
theorem Inserted.behind (h : Inserted path other) (before : String) :
    Inserted (before ++ "/" ++ path) (before ++ "/" ++ other) := by
  cases h with
  | between middle after hdetour =>
    have hassoc : ∀ rest, before ++ "/" ++ (middle ++ "/" ++ rest) =
        before ++ "/" ++ middle ++ "/" ++ rest := by
      intro rest
      simp only [String.append_assoc]
    rw [hassoc, hassoc]
    exact .between _ after hdetour
  | before hdetour _ _ _ => exact .between before path hdetour
  | @after detour _ hdetour _ =>
    have hassoc : before ++ "/" ++ (path ++ "/" ++ detour) =
        before ++ "/" ++ path ++ "/" ++ detour := by
      simp only [String.append_assoc]
    rw [hassoc]
    exact .after hdetour (append_slash_ne_empty before path)

theorem Inserted.join (h : Inserted path other) (base : String) :
    Inserted (join base path) (join base other) := by
  cases habsolute : isAbsolute path with
  | true =>
    have hother : isAbsolute other = true := h.isAbsolute_eq ▸ habsolute
    rw [join_of_isAbsolute habsolute, join_of_isAbsolute hother]
    exact h
  | false =>
    have hother : isAbsolute other = false := h.isAbsolute_eq ▸ habsolute
    by_cases hbase : base = ""
    · subst hbase
      rw [join_empty, join_empty]
      exact h
    · obtain ⟨before, -, hjoin⟩ := exists_join hbase
      rw [hjoin path habsolute, hjoin other hother]
      exact h.behind before

/-- **Spellings of one path are spellings of one path from any directory.** -/
theorem Respelled.join (h : Respelled path other) (base : String) :
    Respelled (join base path) (join base other) := by
  induction h with
  | rel path other h => exact .rel _ _ (h.join base)
  | refl path => exact .refl _
  | symm path other _ ih => exact .symm _ _ ih
  | trans path middle other _ _ ih ih' => exact .trans _ _ _ ih ih'

end Path

end CommandScript
