import CommandScript.Store
import Mathlib.Data.Finset.Sort
import Mathlib.Data.String.Basic

/-!
# A store as one map

The two tables of a store are a matter of how it is kept. What it holds is
one finite map from names to resources (`Contents`), and each operation on
the store does to that map what it says, whichever table it touches
(`contents_put` and the lemmas beside it). Lookups go by name and need no
more than that. Counting and listing read both tables, and count and list
each name once because every name stands in the table it belongs to
(`Routed`), which all operations keep.
-/

namespace CommandScript

namespace ResourceStore

variable {ρ : ResourceUniverse}

/-! ## Finite maps -/

/-- **A finite map** from names to resources. -/
structure Contents (ρ : ResourceUniverse) where
  /-- The resource of a name. -/
  find? : String → Option ρ.Value
  /-- The names that have one. -/
  names : Finset String
  /-- These are all. -/
  mem_names (name : String) : name ∈ names ↔ (find? name).isSome = true

namespace Contents

variable {m m' : Contents ρ} {name other : String} {r : ρ.Value} {p : String → Bool}

/-- Maps are the same if they hold the same under every name. -/
theorem ext_find? (h : ∀ name, m.find? name = m'.find? name) : m = m' := by
  obtain ⟨f, names, hf⟩ := m
  obtain ⟨g, names', hg⟩ := m'
  obtain rfl : f = g := funext h
  obtain rfl : names = names' := by
    ext name
    rw [hf, hg]
  rfl

/-- Nothing under any name. -/
def empty : Contents ρ where
  find? _ := none
  names := ∅
  mem_names := by simp

/-- The map with a resource under a name, in place of any other. -/
def put (m : Contents ρ) (name : String) (r : ρ.Value) : Contents ρ where
  find? other := if other = name then some r else m.find? other
  names := insert name m.names
  mem_names other := by
    by_cases h : other = name
    · simp [h]
    · simp [h, m.mem_names]

/-- The map without the resource of a name. -/
def erase (m : Contents ρ) (name : String) : Contents ρ where
  find? other := if other = name then none else m.find? other
  names := m.names.erase name
  mem_names other := by
    by_cases h : other = name
    · simp [h]
    · simp [h, m.mem_names]

/-- **The map with its names of one sort replaced** by those of another map:
of that sort it has what the other has, and otherwise what it had. -/
def replace (m : Contents ρ) (p : String → Bool) (part : Contents ρ) : Contents ρ where
  find? name := if p name then part.find? name else m.find? name
  names := (m.names.filter fun name => p name = false) ∪ part.names.filter fun name => p name = true
  mem_names name := by
    cases h : p name
    · simp [h, m.mem_names]
    · simp [h, part.mem_names]

/-- The names in order. -/
def listing (m : Contents ρ) : List String :=
  m.names.sort (· ≤ ·)

/-- The resources under their names, in the order of the names. -/
def entries (m : Contents ρ) : List (String × ρ.Value) :=
  m.listing.filterMap fun name => (m.find? name).map (name, ·)

/-- **A listing is in order and names nothing twice.** -/
theorem pairwise_listing (m : Contents ρ) : m.listing.Pairwise (· < ·) :=
  m.names.sortedLT_sort.pairwise

theorem mem_listing : name ∈ m.listing ↔ (m.find? name).isSome = true := by
  rw [listing, Finset.mem_sort, m.mem_names]

/-- A list is the listing if it is in order and has the names of the map. -/
theorem eq_listing {names : List String} (hsorted : names.Pairwise (· < ·))
    (hmem : ∀ name, name ∈ names ↔ (m.find? name).isSome = true) : names = m.listing := by
  refine hsorted.eq_of_mem_iff m.pairwise_listing fun name => ?_
  rw [hmem, mem_listing]

end Contents

/-! ## What tables hold -/

/-- What a table holds. -/
def Table.contents (t : Table ρ) : Contents ρ where
  find? name := t[name]?
  names := t.keys.toFinset
  mem_names name := by simp

/-- **What a store holds**, in whichever table. -/
def contents (s : ResourceStore ρ) : Contents ρ where
  find? := s.find?
  names := (s.permanent.keys ++ s.temporary.keys).toFinset.filter fun name => s.contains name = true
  mem_names name := by
    refine Finset.mem_filter.trans ⟨fun h => h.2, fun h => ⟨?_, h⟩⟩
    rw [List.mem_toFinset, List.mem_append, Std.TreeMap.mem_keys, Std.TreeMap.mem_keys,
      Std.TreeMap.mem_iff_isSome_getElem?, Std.TreeMap.mem_iff_isSome_getElem?]
    unfold find? tableOf at h
    split at h
    · exact .inr h
    · exact .inl h

/-- A table lists what it holds. -/
theorem Table.entries_contents (t : Table ρ) : t.contents.entries = t.toList := by
  have hkeys : t.contents.listing = t.toList.map Prod.fst := by
    rw [Std.TreeMap.map_fst_toList_eq_keys]
    refine (Contents.eq_listing ?_ fun name => ?_).symm
    · exact Std.TreeMap.ordered_keys.imp fun h => compare_lt_iff_lt.1 h
    · rw [Std.TreeMap.mem_keys, Std.TreeMap.mem_iff_isSome_getElem?]
      rfl
  have hself : ∀ e ∈ t.toList,
      ((fun name => (t.contents.find? name).map (name, ·)) ∘ Prod.fst) e = some e := by
    intro e he
    have hfound : t[e.1]? = some e.2 := Std.TreeMap.mem_toList_iff_getElem?_eq_some.1 he
    change (t[e.1]?).map _ = _
    rw [hfound]
    rfl
  rw [Contents.entries, hkeys, List.filterMap_map, List.filterMap_congr hself]
  exact List.filterMap_some

/-! ## What operations do -/

variable {s : ResourceStore ρ} {name : String} {r : ρ.Value} {scope : Scope ρ}

/-- Whether a name is temporary under a mark: the mark starts it, and is not
empty. -/
def isMarked (mark name : String) : Bool :=
  decide (mark ≠ "" ∧ mark.toList <+: name.toList)

theorem isTemporary_eq (s : ResourceStore ρ) : s.isTemporary = isMarked s.mark := by
  funext name
  rw [Bool.eq_iff_iff]
  simp [isTemporary, isMarked]

theorem contents_put (s : ResourceStore ρ) (name : String) (r : ρ.Value) :
    (s.put name r).contents = s.contents.put name r := by
  refine Contents.ext_find? fun other => ?_
  change (s.put name r).find? other = if other = name then some r else s.find? other
  split
  · rename_i h
    rw [h, find?_put]
  · rename_i h
    exact find?_put_of_ne s r h

theorem contents_erase (s : ResourceStore ρ) (name : String) :
    (s.erase name).contents = s.contents.erase name := by
  refine Contents.ext_find? fun other => ?_
  change (s.erase name).find? other = if other = name then none else s.find? other
  split
  · rename_i h
    rw [h, find?_erase]
  · rename_i h
    exact find?_erase_of_ne s h

/-- **Putting a table back** replaces what is temporary, and nothing else. -/
theorem contents_restoreTemporary (s : ResourceStore ρ) (scope : Scope ρ) :
    (s.restoreTemporary scope).contents =
      s.contents.replace s.isTemporary scope.table.contents := by
  refine Contents.ext_find? fun name => ?_
  change (if s.isTemporary name then scope.table else s.permanent)[name]? =
    if s.isTemporary name then scope.table[name]?
    else (if s.isTemporary name then s.temporary else s.permanent)[name]?
  cases s.isTemporary name <;> rfl

theorem Table.contents_empty : Table.contents (∅ : Table ρ) = .empty :=
  Contents.ext_find? fun _ => Std.TreeMap.getElem?_emptyc

/-- A new store holds nothing. -/
theorem contents_new (mark : String) : contents ({ mark } : ResourceStore ρ) = .empty := by
  refine Contents.ext_find? fun name => ?_
  change (if isTemporary ({ mark } : ResourceStore ρ) name then (∅ : Table ρ) else ∅)[name]? = none
  rw [ite_self]
  exact Std.TreeMap.getElem?_emptyc

theorem contents_clearTemporary (s : ResourceStore ρ) :
    s.clearTemporary.contents = s.contents.replace s.isTemporary .empty := by
  rw [← Table.contents_empty]
  exact contents_restoreTemporary s {}

/-! ## Names in their tables -/

/-- **Every name stands in the table it belongs to**, under a mark. -/
structure Routed (mark : String) (s : ResourceStore ρ) : Prop where
  /-- The store goes by the mark. -/
  mark_eq : s.mark = mark
  /-- The permanent table has no temporary names. -/
  permanent : ∀ name ∈ s.permanent, isMarked mark name = false
  /-- The temporary table has no others. -/
  temporary : ∀ name ∈ s.temporary, isMarked mark name = true

namespace Routed

variable {mark : String}

theorem isTemporary_eq (h : s.Routed mark) : s.isTemporary = isMarked mark := by
  rw [s.isTemporary_eq, h.mark_eq]

/-- A change to the table of a name that brings no other name in. -/
theorem modifyTable (h : s.Routed mark) {f : Table ρ → Table ρ}
    (hf : ∀ (t : Table ρ) (other : String), other ∈ f t → other = name ∨ other ∈ t) :
    (s.modifyTable name f).Routed mark := by
  unfold ResourceStore.modifyTable
  rw [h.isTemporary_eq]
  split
  · rename_i htemp
    refine ⟨h.mark_eq, h.permanent, fun other hother => ?_⟩
    rcases hf _ _ hother with rfl | hother
    · exact htemp
    · exact h.temporary other hother
  · rename_i htemp
    refine ⟨h.mark_eq, fun other hother => ?_, h.temporary⟩
    rcases hf _ _ hother with rfl | hother
    · exact Bool.eq_false_iff.2 htemp
    · exact h.permanent other hother

theorem put (h : s.Routed mark) : (s.put name r).Routed mark :=
  h.modifyTable fun _ _ hother => by
    rw [Std.TreeMap.mem_insert, compare_eq_iff_eq] at hother
    exact hother.imp_left Eq.symm

theorem erase (h : s.Routed mark) : (s.erase name).Routed mark :=
  h.modifyTable fun _ _ hother => .inr (Std.TreeMap.mem_of_mem_erase hother)

theorem restoreTemporary (h : s.Routed mark)
    (hscope : ∀ name ∈ scope.table, isMarked mark name = true) :
    (s.restoreTemporary scope).Routed mark :=
  ⟨h.mark_eq, h.permanent, hscope⟩

theorem clearTemporary (h : s.Routed mark) : s.clearTemporary.Routed mark :=
  ⟨h.mark_eq, h.permanent, fun _ hname => absurd hname Std.TreeMap.not_mem_emptyc⟩

theorem empty (mark : String) : Routed mark ({ mark } : ResourceStore ρ) :=
  ⟨rfl, fun _ hname => absurd hname Std.TreeMap.not_mem_emptyc,
    fun _ hname => absurd hname Std.TreeMap.not_mem_emptyc⟩

/-- **What is taken out of a store** is what it held that was temporary. -/
theorem contents_taken (h : s.Routed mark) :
    s.temporary.contents = Contents.empty.replace (isMarked mark) s.contents := by
  refine Contents.ext_find? fun name => ?_
  change s.temporary[name]? = if isMarked mark name then s.find? name else none
  split
  · rename_i htemp
    rw [find?, tableOf, h.isTemporary_eq, if_pos htemp]
  · rename_i htemp
    refine Std.TreeMap.getElem?_eq_none fun hmem => ?_
    exact htemp (h.temporary name hmem)

theorem isSome_find?_iff (h : s.Routed mark) :
    (s.find? name).isSome = true ↔ name ∈ s.permanent ∨ name ∈ s.temporary := by
  unfold find? tableOf
  rw [h.isTemporary_eq]
  split
  · rename_i htemp
    rw [← Std.TreeMap.mem_iff_isSome_getElem?]
    refine ⟨.inr, fun hmem => hmem.resolve_left fun hperm => ?_⟩
    rw [h.permanent name hperm] at htemp
    cases htemp
  · rename_i htemp
    rw [← Std.TreeMap.mem_iff_isSome_getElem?]
    exact ⟨.inl, fun hmem => hmem.resolve_right fun hname => htemp (h.temporary name hname)⟩

/-- **The names of a store are those of the map**, in order. -/
theorem names_eq_listing (h : s.Routed mark) : s.names = s.contents.listing := by
  have hperm : s.names.Perm (s.permanent.keys ++ s.temporary.keys) := by
    have hmap := (List.mergeSort_perm (s.permanent.toList ++ s.temporary.toList)
      fun a b => (compare a.1 b.1).isLE).map Prod.fst
    rwa [List.map_append, Std.TreeMap.map_fst_toList_eq_keys, Std.TreeMap.map_fst_toList_eq_keys]
      at hmap
  have hmem : ∀ name, name ∈ s.names ↔ (s.contents.find? name).isSome = true := by
    intro name
    rw [hperm.mem_iff, List.mem_append, Std.TreeMap.mem_keys, Std.TreeMap.mem_keys]
    exact h.isSome_find?_iff.symm
  -- a name in both tables would be temporary and not
  have hnodup : s.names.Nodup := by
    rw [hperm.nodup_iff, List.nodup_append']
    refine ⟨Std.TreeMap.nodup_keys, Std.TreeMap.nodup_keys, fun name hleft hright => ?_⟩
    have hfalse := h.permanent name (Std.TreeMap.mem_keys.1 hleft)
    rw [h.temporary name (Std.TreeMap.mem_keys.1 hright)] at hfalse
    cases hfalse
  have hle : s.names.Pairwise (· ≤ ·) := by
    have hcompare : ∀ a b : String, (compare a b).isLE = true ↔ a ≤ b := by
      intro a b
      rw [← compare_le_iff_le, Ordering.isLE_iff_ne_gt]
    refine List.pairwise_map.2 ((List.pairwise_mergeSort ?_ ?_ _).imp fun hab => ?_)
    · exact fun a b c hab hbc => Std.TransCmp.isLE_trans hab hbc
    · intro a b
      rw [Bool.or_eq_true, hcompare, hcompare]
      exact le_total a.1 b.1
    · exact (hcompare _ _).1 hab
  exact Contents.eq_listing
    ((hle.and hnodup).imp fun hab => lt_of_le_of_ne hab.1 hab.2) hmem

/-- **A store counts each name once.** -/
theorem size_eq_card (h : s.Routed mark) : s.size = s.contents.names.card := by
  rw [← Finset.length_sort (· ≤ ·)]
  change _ = s.contents.listing.length
  rw [← h.names_eq_listing, names, List.length_map, entries, List.length_mergeSort,
    List.length_append, Std.TreeMap.length_toList, Std.TreeMap.length_toList]
  rfl

end Routed

end ResourceStore

end CommandScript
