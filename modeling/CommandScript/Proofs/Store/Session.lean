import CommandScript.Proofs.Store.Contents

/-!
# Sessions with a store

A host works on a store one operation at a time. It may keep whatever
temporary resources it took out and put them back later, in any order and
more than once, and into another store with the same mark; and it may keep
copies of the store and go back to them. The same operations have a plain
meaning on one finite map (`Operation.runOnMap`), and a session with a store
is a session with that map: every answer and every fault is the same
(`answers_eq`).
-/

namespace CommandScript

namespace ResourceStore

variable {ρ : ResourceUniverse}

/-- **Something to do** with a store, with what was taken out of it, or with
copies. -/
inductive Operation (ρ : ResourceUniverse) where
  /-- Puts a resource under a name that is free. -/
  | add (name : String) (r : ρ.Value)
  /-- Puts a resource under a name, in place of any other. -/
  | put (name : String) (r : ρ.Value)
  | get (name : String) (type : ρ.Code)
  /-- Asks for a resource that stays alive on its own. -/
  | getShared (name : String) (type : ρ.Code)
  | contains (name : String)
  /-- Removes the resource of a name, and tells whether there was one. -/
  | remove (name : String)
  | isTemporary (name : String)
  | size
  | isEmpty
  | names
  /-- Takes the temporary resources out, and keeps them. -/
  | take
  /-- Puts back what was taken out at some time, or nothing if there was no
  such time. -/
  | restore (index : Nat)
  /-- Drops the temporary resources. -/
  | clear
  /-- Keeps a copy of the store. -/
  | copy
  /-- Goes back to a copy. -/
  | install (index : Nat)
  /-- Goes on with another store, which is empty. -/
  | renew

/-- What an operation answers. -/
inductive Answer (ρ : ResourceUniverse) where
  | done
  | resource (r : ρ.Value)
  | truth (value : Bool)
  | count (n : Nat)
  | names (names : List String)
  | taken (entries : List (String × ρ.Value))
  | fault (d : Diagnostic)

/-- What a host has at hand: a store, what was taken out of stores, and
copies of stores, the earliest first. -/
structure Session (σ τ : Type) where
  /-- The store that operations work on. -/
  store : σ
  /-- What was taken out. -/
  scopes : List τ := []
  /-- The copies. -/
  copies : List σ := []

/-- The answers to operations in a row. -/
def answers {σ : Type} (step : Operation ρ → σ → Answer ρ × σ) :
    σ → List (Operation ρ) → List (Answer ρ)
  | _, [] => []
  | s, op :: ops => (step op s).1 :: answers step (step op s).2 ops

namespace Operation

/-! ## With a store -/

/-- **An operation on a store**: its answer, and what the host has then. -/
def run (op : Operation ρ) (h : Session (ResourceStore ρ) (Scope ρ)) :
    Answer ρ × Session (ResourceStore ρ) (Scope ρ) :=
  match op with
  | add name r =>
    match h.store.add name r with
    | .ok store => (.done, { h with store })
    | .error d => (.fault d, h)
  | put name r => (.done, { h with store := h.store.put name r })
  | get name type | getShared name type =>
    match h.store.get name type with
    | .ok r => (.resource r, h)
    | .error d => (.fault d, h)
  | contains name => (.truth (h.store.contains name), h)
  | remove name => (.truth (h.store.contains name), { h with store := h.store.erase name })
  | isTemporary name => (.truth (h.store.isTemporary name), h)
  | size => (.count h.store.size, h)
  | isEmpty => (.truth (h.store.size == 0), h)
  | names => (.names h.store.names, h)
  | take =>
    let (scope, store) := h.store.takeTemporary
    (.taken scope.table.toList, { h with store, scopes := h.scopes ++ [scope] })
  | restore index =>
    (.done, { h with store := h.store.restoreTemporary (h.scopes[index]?.getD {}) })
  | clear => (.done, { h with store := h.store.clearTemporary })
  | copy => (.done, { h with copies := h.copies ++ [h.store] })
  | install index => (.done, { h with store := h.copies[index]?.getD h.store })
  | renew => (.done, { h with store := { mark := h.store.mark } })

/-! ## With one map -/

/-- **The same operation on one finite map.** A name is free or taken, and a
resource has the type asked for or another. What is temporary under the mark
is taken out, put back or dropped together, and leaves the rest alone. -/
def runOnMap (mark : String) (op : Operation ρ) (h : Session (Contents ρ) (Contents ρ)) :
    Answer ρ × Session (Contents ρ) (Contents ρ) :=
  match op with
  | add name r =>
    match h.store.find? name with
    | some _ => (.fault ⟨.duplicateResource name, none⟩, h)
    | none => (.done, { h with store := h.store.put name r })
  | put name r => (.done, { h with store := h.store.put name r })
  | get name type | getShared name type =>
    match h.store.find? name with
    | none => (.fault ⟨.missingResource name, none⟩, h)
    | some r =>
      if ρ.type r = type then (.resource r, h)
      else (.fault ⟨.resourceType name (ρ.storage type), none⟩, h)
  | contains name => (.truth (h.store.find? name).isSome, h)
  | remove name =>
    (.truth (h.store.find? name).isSome, { h with store := h.store.erase name })
  | isTemporary name => (.truth (isMarked mark name), h)
  | size => (.count h.store.names.card, h)
  | isEmpty => (.truth (decide (h.store.names = ∅)), h)
  | names => (.names h.store.listing, h)
  | take =>
    let part := Contents.empty.replace (isMarked mark) h.store
    (.taken part.entries,
      { h with
        store := h.store.replace (isMarked mark) .empty
        scopes := h.scopes ++ [part] })
  | restore index =>
    (.done,
      { h with store := h.store.replace (isMarked mark) (h.scopes[index]?.getD .empty) })
  | clear => (.done, { h with store := h.store.replace (isMarked mark) .empty })
  | copy => (.done, { h with copies := h.copies ++ [h.store] })
  | install index => (.done, { h with store := h.copies[index]?.getD h.store })
  | renew => (.done, { h with store := .empty })

end Operation

/-! ## The one as the other -/

namespace Session

/-- What the stores and scopes of a session hold. -/
def contents (h : Session (ResourceStore ρ) (Scope ρ)) : Session (Contents ρ) (Contents ρ) where
  store := h.store.contents
  scopes := h.scopes.map fun scope => scope.table.contents
  copies := h.copies.map ResourceStore.contents

/-- **A session in which names stand where they belong**: in the store, in
all copies, and in all that was taken out. -/
structure Routed (mark : String) (h : Session (ResourceStore ρ) (Scope ρ)) : Prop where
  /-- The store. -/
  store : h.store.Routed mark
  /-- What was taken out has temporary names only. -/
  scopes : ∀ scope ∈ h.scopes, ∀ name ∈ scope.table, isMarked mark name = true
  /-- The copies. -/
  copies : ∀ s ∈ h.copies, s.Routed mark

variable {mark : String} {h : Session (ResourceStore ρ) (Scope ρ)} {s : ResourceStore ρ}

theorem Routed.withStore (hr : h.Routed mark) (hs : s.Routed mark) :
    Routed mark { h with store := s } :=
  ⟨hs, hr.scopes, hr.copies⟩

/-- What was taken out at some time has temporary names only. -/
theorem Routed.scope (hr : h.Routed mark) (i : Nat) :
    ∀ name ∈ (h.scopes[i]?.getD {}).table, isMarked mark name = true := by
  cases hi : h.scopes[i]? with
  | none => exact fun name hname => absurd hname Std.TreeMap.not_mem_emptyc
  | some scope => exact hr.scopes scope (List.mem_of_getElem? hi)

theorem Routed.copy (hr : h.Routed mark) (i : Nat) : (h.copies[i]?.getD h.store).Routed mark := by
  cases hi : h.copies[i]? with
  | none => exact hr.store
  | some s => exact hr.copies s (List.mem_of_getElem? hi)

theorem contents_store (h : Session (ResourceStore ρ) (Scope ρ)) :
    h.contents.store = h.store.contents := rfl

/-- What is taken out goes to the end of what was taken out. -/
theorem contents_take (h : Session (ResourceStore ρ) (Scope ρ)) :
    contents { h with
      store := h.store.takeTemporary.2, scopes := h.scopes ++ [h.store.takeTemporary.1] } =
    { h.contents with
      store := h.store.clearTemporary.contents
      scopes := h.contents.scopes ++ [h.store.temporary.contents] } := by
  unfold contents
  rw [List.map_append]
  rfl

theorem contents_keep (h : Session (ResourceStore ρ) (Scope ρ)) :
    contents { h with copies := h.copies ++ [h.store] } =
      { h.contents with copies := h.contents.copies ++ [h.store.contents] } := by
  unfold contents
  rw [List.map_append]
  rfl

theorem contents_scope (h : Session (ResourceStore ρ) (Scope ρ)) (i : Nat) :
    (h.scopes[i]?.getD {}).table.contents = h.contents.scopes[i]?.getD .empty := by
  have hmap : h.contents.scopes[i]? = h.scopes[i]?.map fun scope => scope.table.contents :=
    List.getElem?_map
  rw [hmap]
  cases h.scopes[i]? with
  | none => exact Table.contents_empty
  | some scope => rfl

theorem contents_copy (h : Session (ResourceStore ρ) (Scope ρ)) (i : Nat) :
    (h.copies[i]?.getD h.store).contents = h.contents.copies[i]?.getD h.contents.store := by
  have hmap : h.contents.copies[i]? = h.copies[i]?.map ResourceStore.contents := List.getElem?_map
  rw [hmap]
  cases h.copies[i]? <;> rfl

end Session

variable {mark name : String} {h : Session (ResourceStore ρ) (Scope ρ)}

/-- Only a free name is added. -/
theorem add_of_none {s : ResourceStore ρ} (r : ρ.Value) (hfree : s.find? name = none) :
    s.add name r = .ok (s.put name r) := by
  unfold add contains
  rw [hfree]
  rfl

theorem add_of_some {s : ResourceStore ρ} {held : ρ.Value} (r : ρ.Value)
    (htaken : s.find? name = some held) :
    s.add name r = .error ⟨.duplicateResource name, none⟩ := by
  unfold add contains
  rw [htaken]
  rfl

namespace Operation

/-- **Names stay where they belong**, whatever is done. -/
theorem routed_run (op : Operation ρ) (hr : h.Routed mark) : (op.run h).2.Routed mark := by
  cases op with
  | add name r =>
    cases hfind : h.store.find? name with
    | none =>
      rw [run, add_of_none r hfind]
      exact hr.withStore hr.store.put
    | some held =>
      rw [run, add_of_some r hfind]
      exact hr
  | put name r => exact hr.withStore hr.store.put
  | get name type | getShared name type =>
    rw [run]
    split <;> exact hr
  | remove name => exact hr.withStore hr.store.erase
  | take =>
    refine ⟨hr.store.clearTemporary, fun scope hscope => ?_, hr.copies⟩
    rcases List.mem_append.1 hscope with hscope | hscope
    · exact hr.scopes scope hscope
    · obtain rfl := List.mem_singleton.1 hscope
      exact hr.store.temporary
  | restore index => exact hr.withStore (hr.store.restoreTemporary (hr.scope index))
  | clear => exact hr.withStore hr.store.clearTemporary
  | copy =>
    refine ⟨hr.store, hr.scopes, fun s hs => ?_⟩
    rcases List.mem_append.1 hs with hs | hs
    · exact hr.copies s hs
    · obtain rfl := List.mem_singleton.1 hs
      exact hr.store
  | install index => exact hr.withStore (hr.copy index)
  | renew =>
    refine hr.withStore ?_
    rw [hr.store.mark_eq]
    exact ResourceStore.Routed.empty mark
  | contains _ | isTemporary _ | size | isEmpty | names => exact hr

/-- An operation that changes the store alone does to what it holds what the
operation on the map does. -/
theorem withStore_contents {s : ResourceStore ρ} {m : Contents ρ} (hs : s.contents = m) :
    { h.contents with store := m } = Session.contents { h with store := s } := by
  rw [← hs]
  rfl

/-- **One operation does to the map what it does to the store**, and answers
the same. -/
theorem runOnMap_contents (op : Operation ρ) (hr : h.Routed mark) :
    op.runOnMap mark h.contents = ((op.run h).1, (op.run h).2.contents) := by
  have hmark := hr.store.isTemporary_eq
  have hsame : ∀ name, h.contents.store.find? name = h.store.find? name := fun _ => rfl
  cases op with
  | add name r =>
    rw [runOnMap, run, hsame]
    cases hfind : h.store.find? name with
    | none =>
      rw [add_of_none r hfind]
      exact congrArg _ (withStore_contents (h.store.contents_put name r))
    | some held =>
      rw [add_of_some r hfind]
  | put name r => exact congrArg _ (withStore_contents (h.store.contents_put name r))
  | get name type | getShared name type =>
    rw [runOnMap, run, ResourceStore.get, hsame]
    cases hfind : h.store.find? name with
    | none => rfl
    | some r => by_cases htype : ρ.type r = type <;> simp only [htype, if_true, if_false]
  | remove name => exact congrArg _ (withStore_contents (h.store.contents_erase name))
  | isTemporary name =>
    rw [runOnMap, run, hmark]
  | size =>
    rw [runOnMap, run, hr.store.size_eq_card]
    rfl
  | isEmpty =>
    have hempty : (h.contents.store.names.card == 0) = decide (h.contents.store.names = ∅) := by
      rw [Bool.eq_iff_iff, beq_iff_eq, decide_eq_true_iff, Finset.card_eq_zero]
    rw [runOnMap, run, hr.store.size_eq_card, ← hempty]
    rfl
  | names =>
    rw [runOnMap, run, hr.store.names_eq_listing]
    rfl
  | take =>
    have hleft := h.store.contents_clearTemporary
    rw [hmark] at hleft
    rw [runOnMap, run, Session.contents_store, ← hr.store.contents_taken, ← hleft,
      Table.entries_contents, h.contents_take]
    rfl
  | restore index =>
    have hstore := h.store.contents_restoreTemporary (h.scopes[index]?.getD {})
    rw [hmark, Session.contents_scope] at hstore
    exact congrArg _ (withStore_contents hstore)
  | clear =>
    have hstore := h.store.contents_clearTemporary
    rw [hmark] at hstore
    exact congrArg _ (withStore_contents hstore)
  | copy =>
    rw [runOnMap, run, Session.contents_store, h.contents_keep]
    rfl
  | install index => exact congrArg _ (withStore_contents (h.contents_copy index))
  | renew => exact congrArg _ (withStore_contents (contents_new h.store.mark))
  | contains name => rfl

/-- **A session with a store is one with a map**, from any state in which
names stand where they belong. -/
theorem answers_contents (ops : List (Operation ρ)) (hr : h.Routed mark) :
    answers run h ops = answers (runOnMap mark) h.contents ops := by
  induction ops generalizing h with
  | nil => rfl
  | cons op ops ih =>
    rw [answers, answers, op.runOnMap_contents hr, ih (op.routed_run hr)]

/-- No operation but the one that asks for the names answers with names. -/
theorem eq_listing_of_answer {m : Session (Contents ρ) (Contents ρ)} {list : List String}
    {op : Operation ρ} (h : Answer.names list = (op.runOnMap mark m).1) : list = m.store.listing := by
  cases op with
  | names =>
    cases h
    rfl
  | add name r =>
    rw [runOnMap] at h
    split at h <;> cases h
  | get name type | getShared name type =>
    rw [runOnMap] at h
    split at h
    · cases h
    · split at h <;> cases h
  | _ => cases h

/-- **Names are listed in order**, each once, whatever was done before. -/
theorem pairwise_of_mem_answers {mark : String} {list : List String} :
    ∀ {ops : List (Operation ρ)} {m : Session (Contents ρ) (Contents ρ)},
      Answer.names list ∈ answers (runOnMap mark) m ops → list.Pairwise (· < ·) := by
  intro ops
  induction ops with
  | nil => exact fun hmem => absurd hmem List.not_mem_nil
  | cons op ops ih =>
    intro m hmem
    rcases List.mem_cons.1 hmem with hop | hmem
    · rw [eq_listing_of_answer hop]
      exact m.store.pairwise_listing
    · exact ih hmem

end Operation

/-- **A store is one map.** Whatever a host does, with one store or several
of the same mark, the answers and faults are those of one finite map: a name
is added if it is free, a resource found if it is there and of its type,
what is temporary comes and goes as a whole, and all is counted and listed
once, in order. -/
theorem answers_eq (mark : String) (ops : List (Operation ρ)) :
    answers Operation.run { store := { mark } } ops =
        answers (Operation.runOnMap mark) { store := .empty } ops ∧
      ∀ list, .names list ∈ answers Operation.run { store := { mark } } ops →
        list.Pairwise (· < ·) := by
  have hr : Session.Routed mark ({ store := { mark } } : Session (ResourceStore ρ) (Scope ρ)) :=
    ⟨.empty mark, fun _ hscope => absurd hscope List.not_mem_nil,
      fun _ hcopy => absurd hcopy List.not_mem_nil⟩
  have hempty : Session.contents ({ store := { mark } } : Session (ResourceStore ρ) (Scope ρ)) =
      { store := .empty } := by
    unfold Session.contents
    rw [contents_new]
    rfl
  have hsame := Operation.answers_contents ops hr
  rw [hempty] at hsame
  exact ⟨hsame, fun list hlist => Operation.pairwise_of_mem_answers (hsame ▸ hlist)⟩

end ResourceStore

end CommandScript
