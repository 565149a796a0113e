import CommandScript.Diagnostic
import CommandScript.Resource
import CommandScript.Text.Listing
import Std.Data.TreeMap

/-!
# The resource store

Resources are kept in two tables. A name that starts with the temporary mark
belongs to the temporary one, which can be taken out of the store as a whole
and put back later; every other name belongs to the permanent one. An empty
mark marks no name.
-/

namespace CommandScript

/-- Resources by name, in the order of the names. -/
abbrev ResourceStore.Table (ρ : ResourceUniverse) := Std.TreeMap String ρ.Value

/-- A temporary table that was taken out of a store. -/
structure ResourceStore.Scope (ρ : ResourceUniverse) where
  /-- The resources in it. -/
  table : ResourceStore.Table ρ := ∅

/-- A resource store. -/
structure ResourceStore (ρ : ResourceUniverse) where
  /-- What temporary names start with. -/
  mark : String
  /-- The resources under other names. -/
  permanent : ResourceStore.Table ρ := ∅
  /-- The resources under temporary names. -/
  temporary : ResourceStore.Table ρ := ∅

namespace ResourceStore

variable {ρ : ResourceUniverse}

/-- Whether a name is temporary. -/
def isTemporary (s : ResourceStore ρ) (name : String) : Bool :=
  s.mark ≠ "" && s.mark.toList.isPrefixOf name.toList

/-- The table that a name belongs to. -/
def tableOf (s : ResourceStore ρ) (name : String) : Table ρ :=
  if s.isTemporary name then s.temporary else s.permanent

/-- The store with the table of a name changed. -/
def modifyTable (s : ResourceStore ρ) (name : String) (f : Table ρ → Table ρ) : ResourceStore ρ :=
  if s.isTemporary name then { s with temporary := f s.temporary }
  else { s with permanent := f s.permanent }

/-! ## Single resources -/

/-- The resource of a name. -/
def find? (s : ResourceStore ρ) (name : String) : Option ρ.Value :=
  (s.tableOf name)[name]?

/-- Whether the name is taken. -/
def contains (s : ResourceStore ρ) (name : String) : Bool :=
  (s.find? name).isSome

/-- Puts a resource under a name, in place of any other. -/
def put (s : ResourceStore ρ) (name : String) (r : ρ.Value) : ResourceStore ρ :=
  s.modifyTable name (·.insert name r)

/-- Puts a resource under a name that is free. -/
def add (s : ResourceStore ρ) (name : String) (r : ρ.Value) : Except Diagnostic (ResourceStore ρ) :=
  if s.contains name then .error ⟨.duplicateResource name, none⟩ else .ok (s.put name r)

/-- The resource of a name, which must be of the type asked for. -/
def get (s : ResourceStore ρ) (name : String) (type : ρ.Code) :
    Except Diagnostic ρ.Value :=
  match s.find? name with
  | none => .error ⟨.missingResource name, none⟩
  | some r =>
    if ρ.type r = type then .ok r else .error ⟨.resourceType name (ρ.storage type), none⟩

/-- The store without the resource of a name. -/
def erase (s : ResourceStore ρ) (name : String) : ResourceStore ρ :=
  s.modifyTable name (·.erase name)

theorem isTemporary_put (s : ResourceStore ρ) (name other : String) (r : ρ.Value) :
    (s.put name r).isTemporary other = s.isTemporary other := by
  unfold put modifyTable
  split <;> rfl

theorem isTemporary_erase (s : ResourceStore ρ) (name other : String) :
    (s.erase name).isTemporary other = s.isTemporary other := by
  unfold erase modifyTable
  split <;> rfl

@[simp] theorem find?_put (s : ResourceStore ρ) (name : String) (r : ρ.Value) :
    (s.put name r).find? name = some r := by
  unfold find? tableOf
  rw [isTemporary_put]
  unfold put modifyTable
  by_cases h : s.isTemporary name = true <;> simp [h]

theorem find?_put_of_ne (s : ResourceStore ρ) {name other : String} (r : ρ.Value)
    (h : other ≠ name) : (s.put name r).find? other = s.find? other := by
  unfold find? tableOf
  rw [isTemporary_put]
  unfold put modifyTable
  by_cases hn : s.isTemporary name = true <;> by_cases ho : s.isTemporary other = true <;>
    simp [hn, ho, Std.TreeMap.getElem?_insert, h.symm]

@[simp] theorem find?_erase (s : ResourceStore ρ) (name : String) :
    (s.erase name).find? name = none := by
  unfold find? tableOf
  rw [isTemporary_erase]
  unfold erase modifyTable
  by_cases h : s.isTemporary name = true <;> simp [h]

theorem find?_erase_of_ne (s : ResourceStore ρ) {name other : String} (h : other ≠ name) :
    (s.erase name).find? other = s.find? other := by
  unfold find? tableOf
  rw [isTemporary_erase]
  unfold erase modifyTable
  by_cases hn : s.isTemporary name = true <;> by_cases ho : s.isTemporary other = true <;>
    simp [hn, ho, Std.TreeMap.getElem?_erase, h.symm]

/-! ## The whole store -/

/-- The number of resources. -/
def size (s : ResourceStore ρ) : Nat :=
  s.permanent.size + s.temporary.size

/-- The resources under their names, in the order of the names. -/
def entries (s : ResourceStore ρ) : List (String × ρ.Value) :=
  (s.permanent.toList ++ s.temporary.toList).mergeSort fun a b => (compare a.1 b.1).isLE

/-- The names, in order. -/
def names (s : ResourceStore ρ) : List String :=
  s.entries.map Prod.fst

/-- Takes the temporary table out, and leaves an empty one. -/
def takeTemporary (s : ResourceStore ρ) : Scope ρ × ResourceStore ρ :=
  (⟨s.temporary⟩, { s with temporary := ∅ })

/-- Puts a table back as the temporary one. -/
def restoreTemporary (s : ResourceStore ρ) (scope : Scope ρ) : ResourceStore ρ :=
  { s with temporary := scope.table }

/-- What was taken out is put back as it was. -/
theorem restoreTemporary_takeTemporary (s : ResourceStore ρ) :
    s.takeTemporary.2.restoreTemporary s.takeTemporary.1 = s := rfl

/-- The store without its temporary resources. -/
def clearTemporary (s : ResourceStore ρ) : ResourceStore ρ :=
  { s with temporary := ∅ }

/-- The store in a listing: its mark and the names in it. -/
def describe (s : ResourceStore ρ) : String :=
  "Resources \x7b prefix: " ++ Text.listed s.mark ++ ", names: "
    ++ Text.listedAll (s.names.map Text.listed) ++ " \x7d"

end ResourceStore

end CommandScript
