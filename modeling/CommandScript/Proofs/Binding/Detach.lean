import CommandScript.Proofs.Binding.Resolve

/-!
# Places and binding

Where an argument was written decides nothing about what it resolves to, and
without places both come to the same (`Value.resolve_detach`). Defaults are
filled in as they are, places and all, so a value without places need not
resolve to one: the two sides are compared once their places are gone. Nor do
the argument's own name and the parameter's own default matter
(`Value.resolve_rename`, `Value.resolve_withDefault`).
-/

namespace CommandScript

variable {ps : List Param} {b b' : Binding} {label : Option String} {i : Nat}

namespace Value

/-! ## Names and defaults -/

/-- The place of a value does not matter to its name, nor the other way
round. -/
theorem detach_rename (v : Value) (name : Option String) :
    (v.rename name).detach = v.detach.rename name := by
  cases v <;> rfl

theorem name_detach (v : Value) : v.detach.name = v.name := by
  cases v <;> rfl

/-- An argument takes the name of its parameter, whatever its own. -/
theorem resolve_rename (v : Value) (name : Option String) (p : Param) :
    (v.rename name).resolve p = v.resolve p := by
  cases v with
  | array t vs => cases p <;> rfl
  | scalar t k s =>
    cases p with
    | array _ _ => rfl
    | scalar head kind =>
      rw [rename, resolve, resolve, coerce, coerce, Option.map_map, Option.map_map]
      rfl

/-- An argument that is there has no use for the default. -/
theorem resolve_withDefault (v d : Value) (p : Param) :
    v.resolve (p.withDefault d) = v.resolve p := by
  cases v <;> cases p <;> rfl

end Value

namespace Binding

/-! ## One argument at a time -/

/-- The binding without places. -/
def detach (b : Binding) : Binding where
  slots := b.slots.map (Option.map Value.detach)
  next := b.next

/-- The parameter that an argument goes to, and its index, if it has none
yet. -/
def taker (b : Binding) (ps : List Param) (label : Option String) : Option (Nat × Param) :=
  (b.target ps label).bind fun i =>
    match ps[i]?, b.slots[i]? with
    | some p, some none => some (i, p)
    | _, _ => none

theorem target_detach (b : Binding) (ps : List Param) (label : Option String) :
    b.detach.target ps label = b.target ps label := by
  have hfilled : (Option.isSome ∘ Option.map Value.detach) = Option.isSome := by
    funext slot
    exact Option.isSome_map
  cases label with
  | some name => rfl
  | none =>
    unfold target detach
    rw [← List.map_drop, List.any_map, hfilled]

/-- **Places do not matter to where an argument goes.** -/
theorem taker_detach (b : Binding) (ps : List Param) (label : Option String) :
    b.detach.taker ps label = b.taker ps label := by
  unfold taker
  rw [target_detach]
  refine congrArg _ (funext fun i => ?_)
  have hslots : b.detach.slots[i]? = b.slots[i]?.map (Option.map Value.detach) :=
    List.getElem?_map
  rw [hslots]
  cases ps[i]? with
  | none => rfl
  | some p =>
    cases b.slots[i]? with
    | none => rfl
    | some slot => cases slot <;> rfl

theorem detach_bind (b : Binding) (i : Nat) (label : Option String) (v : Value) :
    (b.bind i label v).detach = b.detach.bind i label v.detach := by
  unfold bind detach
  rw [List.map_set]
  rfl

/-- The first slot is completed, and then the others; places go from each. -/
theorem detachAll_complete_cons (slot : Option Value) (slots : List (Option Value)) (p : Param)
    (ps : List Param) :
    (complete (slot :: slots) (p :: ps)).map Value.detachAll =
      ((slot.or p.default?).map Value.detach).bind fun v =>
        ((complete slots ps).map Value.detachAll).map (v :: ·) := by
  rw [complete]
  cases slot.or p.default? with
  | none => rfl
  | some v => cases complete slots ps <;> rfl

/-- **Slots are completed the same**, places aside. -/
theorem complete_detach : ∀ (slots : List (Option Value)) (ps : List Param),
    (complete (slots.map (Option.map Value.detach)) ps).map Value.detachAll =
      (complete slots ps).map Value.detachAll := by
  intro slots
  induction slots with
  | nil =>
    intro ps
    rfl
  | cons slot slots ih =>
    intro ps
    cases ps with
    | nil => rfl
    | cons p ps =>
      have hfirst : ((slot.map Value.detach).or p.default?).map Value.detach =
          (slot.or p.default?).map Value.detach := by
        cases slot with
        | none => rfl
        | some v => exact congrArg some v.detach_detach
      rw [List.map_cons, detachAll_complete_cons, detachAll_complete_cons, hfirst, ih ps]

end Binding

namespace Value

/-- **One argument is bound at a time.** -/
theorem resolveAll_cons (ps : List Param) (b : Binding) (v : Value) (vs : List Value) :
    resolveAll ps b (v :: vs) =
      (b.taker ps v.name).bind fun found =>
        (v.resolve found.2).bind fun d => resolveAll ps (b.bind found.1 v.name d) vs := by
  rw [resolveAll, Binding.taker]
  cases b.target ps v.name with
  | none => rfl
  | some i =>
    rw [Option.bind_some]
    cases hp : ps[i]? with
    | none => simp only [hp, Option.bind_none]
    | some p =>
      cases hslot : b.slots[i]? with
      | none => simp only [hp, hslot, Option.bind_none]
      | some slot =>
        cases slot with
        | some _ => simp only [hp, hslot, Option.bind_none]
        | none =>
          simp only [hp, hslot, Option.bind_some]
          cases v.resolve p <;> rfl

/-- **An argument is bound where it goes**, if the slot is free and it can be
read. -/
theorem resolveAll_cons_of_target {p : Param} {v d : Value} {vs : List Value}
    (htarget : b.target ps v.name = some i) (hp : ps[i]? = some p)
    (hfree : b.slots[i]? = some none) (hread : v.resolve p = some d) :
    resolveAll ps b (v :: vs) = resolveAll ps (b.bind i v.name d) vs := by
  have htaker : b.taker ps v.name = some (i, p) := by
    unfold Binding.taker
    rw [htarget, Option.bind_some, hp, hfree]
  rw [resolveAll_cons, htaker, Option.bind_some, hread, Option.bind_some]

/-- Bindings that are the same but for places are completed the same. -/
theorem resolveList_congr {vs ws : List Value}
    (h : (resolveAll ps (Binding.empty ps) vs).map Binding.detach =
      (resolveAll ps (Binding.empty ps) ws).map Binding.detach) :
    (Param.resolveList ps vs).map detachAll = (Param.resolveList ps ws).map detachAll := by
  unfold Param.resolveList
  cases hleft : resolveAll ps (Binding.empty ps) vs with
  | none =>
    rw [hleft] at h
    rw [Option.map_eq_none_iff.1 h.symm]
  | some b =>
    rw [hleft] at h
    obtain ⟨b', hright, hsame⟩ := Option.map_eq_some_iff.1 h.symm
    have hslots : b'.slots.map (Option.map detach) = b.slots.map (Option.map detach) :=
      congrArg Binding.slots hsame
    rw [hright, Option.bind_some, Option.bind_some, ← Binding.complete_detach b.slots,
      ← Binding.complete_detach b'.slots, hslots]

mutual

/-- **Where an argument was written does not matter** to whether it resolves,
nor to what, places aside. -/
theorem resolve_detach : (v : Value) → (p : Param) →
    (v.detach.resolve p).map detach = (v.resolve p).map detach
  | scalar t k s, p => by
    cases p with
    | array _ _ => rfl
    | scalar head kind =>
      rw [detach, resolve, resolve, coerce, coerce, Option.map_map, Option.map_map,
        Option.map_map, Option.map_map]
      rfl
  | array t vs, p => by
    cases p with
    | scalar _ _ => rfl
    | array head ps =>
      have hitems : (Param.resolveList ps (detachAll vs)).map detachAll =
          (Param.resolveList ps vs).map detachAll :=
        resolveList_congr (resolveAll_detach vs ps rfl)
      have harray : ∀ (t : Tag) (found : Option (List Value)),
          (found.map fun items => array ⟨some head.name, t.position⟩ items).map detach =
            (found.map detachAll).map (array ⟨some head.name, .synthetic⟩) := by
        intro t found
        cases found <;> rfl
      rw [detach, resolve_array, resolve_array, harray, harray, hitems]

/-- Arguments without places go where the arguments go. -/
theorem resolveAll_detach : (vs : List Value) → (ps : List Param) → ∀ {b b' : Binding},
    b.detach = b'.detach →
      (resolveAll ps b (detachAll vs)).map Binding.detach =
        (resolveAll ps b' vs).map Binding.detach
  | [], ps, b, b', h => congrArg some h
  | v :: vs, ps, b, b', h => by
    have htaker : b.taker ps v.name = b'.taker ps v.name := by
      rw [← b.taker_detach, h, b'.taker_detach]
    rw [detachAll, resolveAll_cons, resolveAll_cons, name_detach, htaker]
    cases b'.taker ps v.name with
    | none => rfl
    | some found =>
      -- the two bindings are the same again behind this argument, places aside
      have hv := resolve_detach v found.2
      simp only [Option.bind_some]
      cases hleft : v.detach.resolve found.2 with
      | none =>
        rw [hleft] at hv
        rw [Option.map_eq_none_iff.1 hv.symm]
        rfl
      | some d =>
        rw [hleft] at hv
        obtain ⟨e, he, hsame⟩ := Option.map_eq_some_iff.1 hv.symm
        rw [he]
        refine resolveAll_detach vs ps ?_
        rw [Binding.detach_bind, Binding.detach_bind, h, hsame]

end

end Value

end CommandScript
