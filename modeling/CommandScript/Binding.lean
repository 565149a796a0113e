import CommandScript.Signature

/-!
# Binding arguments to parameters

Arguments without names go to the parameters in order; an argument with a
name goes to the first parameter of that name, ignoring case. No parameter
takes two arguments, and no argument without a name may come after the
parameter it would go to has already been passed. A parameter without an
argument takes its default. What is bound is read as its parameter asks and
carries the parameter's name, and arrays are bound in the same way all the
way down.
-/

namespace CommandScript

/-- The values bound so far, one place for each parameter. -/
structure Binding where
  /-- The places, in the order of the parameters. -/
  slots : List (Option Value)
  /-- The number of arguments without a name so far. -/
  next : Nat := 0

namespace Binding

/-- Nothing bound yet. -/
def empty (params : List Param) : Binding :=
  { slots := params.map fun _ => none }

/-- The parameter that an argument goes to, and whether it goes there by its
order. -/
def target (b : Binding) (params : List Param) (label : Option String) : Option Nat :=
  match label with
  | none => if (b.slots.drop b.next).any Option.isSome then none else some b.next
  | some name => params.findIdx? fun p => Text.sameName p.name name

/-- The binding with one more value, which came without a name or with one. -/
def bind (b : Binding) (index : Nat) (label : Option String) (v : Value) : Binding where
  slots := b.slots.set index (some v)
  next := if label.isNone then b.next + 1 else b.next

/-- One value for each parameter: what is bound to it, or else its default. -/
def complete : List (Option Value) → List Param → Option (List Value)
  | slot :: slots, p :: ps =>
    match slot.or p.default?, complete slots ps with
    | some v, some vs => some (v :: vs)
    | _, _ => none
  | _, _ => some []

end Binding

namespace Value

mutual

/-- **One argument read as its parameter asks**, under the parameter's name:
a scalar by its text, an array by its items. -/
def resolve (p : Param) : Value → Option Value
  | scalar t k s =>
    match p with
    | .scalar h kind => ((scalar t k s).coerce kind).map (·.rename (some h.name))
    | .array _ _ => none
  | array t vs =>
    match p with
    | .scalar _ _ => none
    | .array h ps =>
      ((resolveAll ps (Binding.empty ps) vs).bind fun b => Binding.complete b.slots ps).map
        fun items => array ⟨some h.name, t.position⟩ items

/-- Binds arguments in order, each to a parameter that has none yet. -/
def resolveAll (ps : List Param) (b : Binding) : List Value → Option Binding
  | [] => some b
  | v :: vs =>
    match b.target ps v.name with
    | none => none
    | some index =>
      match ps[index]?, b.slots[index]? with
      | some p, some none =>
        match resolve p v with
        | none => none
        | some resolved => resolveAll ps (b.bind index v.name resolved) vs
      | _, _ => none

end

end Value

/-- The arguments of a parameter list: one value for each parameter, in
order. -/
def Param.resolveList (ps : List Param) (arguments : List Value) : Option (List Value) :=
  (Value.resolveAll ps (Binding.empty ps) arguments).bind fun b => Binding.complete b.slots ps

namespace Signature

/-- **The arguments of a call**, fully typed, named and completed, or `none`
when this overload does not accept them. -/
def resolve (s : Signature) : Value → Option Value
  | .scalar _ _ _ => none
  | .array t vs => (Param.resolveList s.params vs).map fun items => .list items t.position

/-- The first of the overloads that accepts a call, by its index, and the
arguments for it. -/
def resolveFirst (arguments : Value) : List Signature → Option (Nat × Value)
  | [] => none
  | s :: rest =>
    match s.resolve arguments with
    | some v => some (0, v)
    | none => (resolveFirst arguments rest).map fun r => (r.1 + 1, r.2)

end Signature

end CommandScript
