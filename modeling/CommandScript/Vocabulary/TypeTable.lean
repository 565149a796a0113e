import CommandScript.Signature.Parser
import Std.Data.TreeMap

/-!
# Named types

A named type stands for one or more parameter lists, its overloads. It may
use the types named before it, whose overloads are expanded when it is
registered, so that what it stands for never changes afterwards. Names are
told apart by case, and none may be that of a primitive kind.

Types are looked up by name, and listed in the order of registration, which
is kept beside them.
-/

namespace CommandScript

/-- The named types. -/
structure TypeTable where
  /-- What each name stands for. -/
  types : Std.TreeMap String (List Signature) := ∅
  /-- The names registered, the earliest first. -/
  order : List String := []

namespace TypeTable

/-- The overloads of a named type. -/
def get? (t : TypeTable) (name : String) : Option (List Signature) :=
  t.types[name]?

/-- Whether a type has the name. -/
def contains (t : TypeTable) (name : String) : Bool :=
  t.types.contains name

/-- The names, in the order of registration. -/
def names (t : TypeTable) : List String :=
  t.order

/-- The number of named types. -/
def size (t : TypeTable) : Nat :=
  t.types.size

/-- The signatures that a text stands for among these types. -/
def parse (t : TypeTable) (source : String) : Except Diagnostic (List Signature) :=
  Signature.parse t.get? source

/-- The signatures that the texts stand for, in order, unless one of them is
at fault. -/
def parseAll (t : TypeTable) : List String → Except Diagnostic (List Signature)
  | [] => .ok []
  | source :: rest => do
    let first ← t.parse source
    let more ← t.parseAll rest
    pure (first ++ more)

/-- The table with overloads under a name, which is listed last. -/
def enter (t : TypeTable) (name : String) (overloads : List Signature) : TypeTable where
  types := t.types.insert name overloads
  order := t.order ++ [name]

/-- **Registers a type** with the overloads that the texts stand for, and
gives their number too. A type at fault leaves no trace. -/
def register (t : TypeTable) (name : String) (formats : List String) :
    Except Diagnostic (TypeTable × Nat) :=
  if (Kind.ofWord name).isSome || t.contains name then
    .error ⟨.duplicateRegistration name, none⟩
  else if formats.isEmpty then .error ⟨.emptyRegistration name, none⟩
  else (t.parseAll formats).map fun overloads => (t.enter name overloads, overloads.length)

variable (t : TypeTable) (name : String) (overloads : List Signature)

@[simp] theorem get?_empty : ({} : TypeTable).get? name = none :=
  Std.TreeMap.getElem?_emptyc

theorem get?_empty_ne_some {w : String} {stored : List Signature} :
    ({} : TypeTable).get? w ≠ some stored := by
  simp

theorem contains_eq_isSome_get? : t.contains name = (t.get? name).isSome :=
  Std.TreeMap.contains_eq_isSome_getElem?

@[simp] theorem names_enter : (t.enter name overloads).names = t.names ++ [name] := rfl

@[simp] theorem get?_enter_self : (t.enter name overloads).get? name = some overloads :=
  Std.TreeMap.getElem?_insert_self

theorem get?_enter_of_ne {other : String} (h : other ≠ name) :
    (t.enter name overloads).get? other = t.get? other := by
  unfold get? enter
  simp [Std.TreeMap.getElem?_insert, h.symm]

/-- A name that was free stands for one type more. -/
theorem size_enter (h : t.contains name = false) :
    (t.enter name overloads).size = t.size + 1 := by
  unfold size enter
  rw [Std.TreeMap.size_insert, if_neg]
  rw [← contains, h]
  exact Bool.false_ne_true

end TypeTable

end CommandScript
