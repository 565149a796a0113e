import CommandScript.Proofs.Binding.Access
import CommandScript.Proofs.Vocabulary.Conformance

/-!
# Handlers find arguments by name

What a compiled signature makes of a call is searched by the names of its
parameters. In every array of it, a name finds the item of the first
parameter that has the name (`Built.finds_by_name`), which is also where an
argument passed under that name has gone. A parameter behind another of its
name has an item too, but not one that its name finds
(`exists_item_not_named`).
-/

namespace CommandScript

namespace TypeTable

open Param (DeeplyAccessible)

variable {t : TypeTable} {source : String} {signatures : List Signature} {s : Signature}

/-- **Names find what is bound.** In a resolved call and in every array inside
it, an item is what is bound to its parameter, or else the default; an argument
passed by name is found under that name; and a name finds the item of the
first parameter that has it, ignoring case. So a parameter whose name none
before it has is found under its name. -/
theorem Built.finds_by_name (ht : t.Built) (hparse : t.parse source = .ok signatures)
    (hs : s ∈ signatures) {tag : Tag} {arguments : List Value} {v : Value}
    (hv : s.resolve (.array tag arguments) = some v) :
    DeeplyAccessible s.params arguments v := by
  obtain ⟨hcompiled, -⟩ := Signature.compiled_of_parse ht.soundTypes hparse s hs
  obtain ⟨items, hitems, rfl⟩ := Option.map_eq_some_iff.1 hv
  exact Param.deeplyAccessible_of_resolveList (fun p hp => (hcompiled p hp).sound) hitems _

/-- The coordinates of a point that was passed by names in another case. -/
theorem finds_by_name_pointMove :
    points.Built ∧ points.parse "point p = (7), any \"q r\" = red" = .ok [pointCall] ∧
      pointCall.resolve pointMove.arguments = some pointMoved ∧
      ∃ p, pointMoved.named? "p" = some p ∧
        ∃ y, p.item? 1 = some y ∧ p.named? "y" = some y := by
  have hresolve : pointCall.resolve pointMove.arguments = some pointMoved := by decide +kernel
  have haccess :=
    Built.finds_by_name built_points parse_pointCall (s := pointCall) List.mem_cons_self hresolve
  cases haccess with
  | mk hcall hinner =>
    obtain ⟨p, -, hp, hfound⟩ := hcall.first 0 _ rfl (by simp)
    obtain rfl := Option.some.inj hp
    -- the point was resolved from the one argument of the call
    cases hinner 0 _ _ _ _ _ rfl rfl (.argument List.mem_cons_self (by decide +kernel)) with
    | mk hpoint _ =>
      obtain ⟨y, -, hy, hnamed⟩ := hpoint.first 1 _ rfl (by decide)
      exact ⟨built_points, parse_pointCall, hresolve, _, hfound, y, hy, hnamed⟩

/-- A signature may use a name twice. -/
def clashCall : Signature :=
  ⟨[.scalar { name := "x" } .int, .scalar { name := "X" } .int]⟩

/-- **A name that is used twice** does not find the item of its second
parameter. -/
theorem exists_item_not_named :
    ¬ ∀ t : TypeTable, t.Built → ∀ source signatures, t.parse source = .ok signatures →
      ∀ s ∈ signatures, ∀ arguments v, s.resolve arguments = some v →
        ∀ i p, s.params[i]? = some p → v.named? p.name = v.item? i := by
  intro h
  have hparse : ({} : TypeTable).parse "int x, int X" = .ok [clashCall] :=
    eq_ok_of_toOption (by decide +kernel)
  have hresolve : clashCall.resolve (.list [Value.word "3", Value.word "5"]) =
      some (.list [.scalar ⟨some "x", .synthetic⟩ .int "3",
        .scalar ⟨some "X", .synthetic⟩ .int "5"]) := by decide +kernel
  have hfound := h {} .empty _ _ hparse _ List.mem_cons_self _ _ hresolve 1 _ rfl
  revert hfound
  decide +kernel

end TypeTable

end CommandScript
