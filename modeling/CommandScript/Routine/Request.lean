import CommandScript.Routine.Operand
import CommandScript.Routine.Resource

/-!
# Requests to the store

What a routine, or a host, asks of the resources: one request for each
operation on a store. Temporary resources that are taken out are set aside,
and put back in the opposite order.
-/

namespace CommandScript

namespace Routine

/-- Something to do with the resources. -/
inductive Request where
  | add (name : String) (type : String) (value : String)
  | put (name : String) (type : String) (value : String)
  | get (name : String) (type : String)
  /-- Asks for a resource that stays alive on its own. -/
  | getShared (name : String) (type : String)
  | contains (name : String)
  | remove (name : String)
  | isTemporary (name : String)
  /-- Sets the temporary resources aside. -/
  | take
  /-- Puts back what was set aside last, or nothing. -/
  | restore
  | clear
deriving DecidableEq

/-- What a request finds. -/
inductive Finding where
  | nothing
  | truth (value : Bool)
  | resource (value : Resource)
deriving DecidableEq

/-- A store, and the temporary resources set aside, the latest first. -/
structure Shelf where
  /-- The resources. -/
  store : Store
  /-- What was set aside. -/
  aside : List (ResourceStore.Scope Resource.plain) := []

namespace Request

/-- The request with its operands replaced by their texts. -/
def fill (arguments : Value) : Request → Request
  | add name type value => add (text name) (text type) (text value)
  | put name type value => put (text name) (text type) (text value)
  | get name type => get (text name) (text type)
  | getShared name type => getShared (text name) (text type)
  | contains name => contains (text name)
  | remove name => remove (text name)
  | isTemporary name => isTemporary (text name)
  | take => take
  | restore => restore
  | clear => clear
where
  /-- The text of an operand. -/
  text (operand : String) : String := operandText arguments operand

/-- **Carries out a request.** -/
def run (s : Shelf) : Request → Except Diagnostic (Finding × Shelf)
  | add name type value =>
    (s.store.add name ((ResourceType.ofName type).read value)).map fun store =>
      (.nothing, { s with store })
  | put name type value =>
    .ok (.nothing, { s with store := s.store.put name ((ResourceType.ofName type).read value) })
  | get name type | getShared name type =>
    (s.store.get name (ResourceType.ofName type)).map fun r => (.resource r, s)
  | contains name => .ok (.truth (s.store.contains name), s)
  | remove name => .ok (.truth (s.store.contains name), { s with store := s.store.erase name })
  | isTemporary name => .ok (.truth (s.store.isTemporary name), s)
  | take =>
    let (scope, store) := s.store.takeTemporary
    .ok (.nothing, ⟨store, scope :: s.aside⟩)
  | restore =>
    .ok (.nothing, ⟨s.store.restoreTemporary (s.aside.head?.getD {}), s.aside.tail⟩)
  | clear => .ok (.nothing, { s with store := s.store.clearTemporary })

/-- The request's word. -/
def label : Request → String
  | add _ _ _ => "add"
  | put _ _ _ => "set"
  | get _ _ => "get"
  | getShared _ _ => "get_rc"
  | contains _ => "contains"
  | remove _ => "remove"
  | isTemporary _ => "is_temporary"
  | take => "take"
  | restore => "restore"
  | clear => "clear"

end Request

end Routine

end CommandScript
