import CommandScript.Proofs.Binding.Explicit

/-!
# Items by name

A handler asks a resolved array for an item by the name of its parameter.
Parameter lists may use a name twice, and then every search by name stops at
the first parameter that has it: the one that binds a named argument, and the
one that finds an item (`find?_isNamed`). So an argument passed by name is
found under its name, and a parameter that is the first of its name has its
item found (`Accessible`). An array inside a resolved one was resolved itself,
from an argument or as a default, and so this holds all the way down
(`deeplyAccessible_of_resolveList`).
-/

namespace CommandScript

namespace Param

variable {p : Param} {ps qs : List Param} {v w d : Value} {vs items : List Value}
  {b b' : Binding} {i : Nat} {n : String}

/-! ## Slots that are filled -/

/-- **What is bound stays bound**: no later argument takes its place. -/
theorem slot_of_resolveAll (h : Value.resolveAll ps b vs = some b')
    (hslot : b.slots[i]? = some (some d)) : b'.slots[i]? = some (some d) := by
  induction vs generalizing b with
  | nil =>
    cases h
    exact hslot
  | cons v vs ih =>
    obtain ⟨j, p, u, -, -, hfree, -, hrest⟩ := resolveAll_cons_eq_some h
    refine ih hrest ?_
    -- the argument goes to a free slot, and this one is taken
    have hne : j ≠ i := by
      rintro rfl
      rw [hslot] at hfree
      cases hfree
    exact (List.getElem?_set_ne hne).trans hslot

/-- **An argument passed by name** is bound to the first parameter of that
name. -/
theorem slot_of_mem (h : Value.resolveAll ps b vs = some b') (hv : v ∈ vs)
    (hn : v.name = some n) :
    ∃ i p d, ps.findIdx? (fun q => Text.sameName q.name n) = some i ∧ ps[i]? = some p ∧
      v.resolve p = some d ∧ b'.slots[i]? = some (some d) := by
  induction vs generalizing b with
  | nil => cases hv
  | cons u vs ih =>
    obtain ⟨j, p, d, htarget, hp, hfree, hd, hrest⟩ := resolveAll_cons_eq_some h
    rcases List.mem_cons.1 hv with rfl | hv
    · rw [hn] at htarget
      have hslot : (b.bind j v.name d).slots[j]? = some (some d) :=
        List.getElem?_set_self (List.getElem?_eq_some_iff.1 hfree).1
      exact ⟨j, p, d, htarget, hp, hd, slot_of_resolveAll hrest hslot⟩
    · exact ih hrest hv

/-- **An item is what its slot holds**, or else the default. -/
theorem getElem?_of_complete : ∀ {slots : List (Option Value)} {ps : List Param}
    {items : List Value} {i : Nat} {slot : Option Value},
      Binding.complete slots ps = some items → slots[i]? = some slot → ps[i]? = some p →
        items[i]? = slot.or p.default? := by
  intro slots
  induction slots with
  | nil =>
    intro ps items i slot _ hslot _
    cases hslot
  | cons first slots ih =>
    intro ps items i slot h hslot hp
    cases ps with
    | nil => cases hp
    | cons q ps =>
      rw [Binding.complete] at h
      split at h
      · rename_i e es he hes
        cases h
        cases i with
        | zero =>
          cases hslot
          cases hp
          exact he.symm
        | succ i =>
          change slots[i]? = _ at hslot
          change ps[i]? = _ at hp
          exact ih (i := i) hes hslot hp
      · cases h

/-! ## Items under the names of parameters -/

/-- What a value resolves to is under the name of the parameter. -/
theorem name_of_resolve (h : v.resolve p = some d) : d.name = some p.name := by
  cases v with
  | scalar t k s =>
    obtain ⟨head, kind, k', rfl, -, rfl⟩ := Value.resolve_scalar_eq_some h
    rfl
  | array t vs =>
    obtain ⟨head, ps, items, rfl, -, rfl⟩ := Value.resolve_array_eq_some h
    rfl

/-- **Where an item comes from**, and the arguments that it was resolved from
if it is an array: an argument of the call, or the default, whose own items
stand in order. -/
inductive Source (arguments : List Value) (p : Param) (d : Value) : Value → Prop
  | argument {a : Value} : a ∈ arguments → a.resolve p = some d → Source arguments p d a
  | default : p.default? = some d → Source arguments p d d.withoutNames

theorem Source.resolve {a : Value} (h : Source vs p d a) (hp : Sound p) : a.resolve p = some d := by
  cases h with
  | argument _ hd => exact hd
  | default hd => exact resolve_withoutNames (hp.settled hd)

/-- **Every item comes from somewhere.** -/
theorem forall₂_source (h : resolveList ps vs = some items) :
    List.Forall₂ (fun p d => ∃ a, Source vs p d a) ps items :=
  forall₂_of_resolveList (fun a ha _ _ _ hd => ⟨a, .argument ha hd⟩)
    (fun _ _ d hd => ⟨d.withoutNames, .default hd⟩) h

/-- Items have the names of their parameters. -/
theorem forall₂_name (hps : ∀ p ∈ ps, Sound p) (h : resolveList ps vs = some items) :
    List.Forall₂ (fun p d => d.name = some p.name) ps items :=
  forall₂_of_resolveList (fun _ _ _ _ _ hd => name_of_resolve hd)
    (fun p hp _ hd => ((hps p hp).settled hd).name) h

/-! ## Items by name -/

/-- **A name finds the item of the first parameter that has it.** -/
theorem find?_isNamed (h : List.Forall₂ (fun p d => d.name = some p.name) ps items) (n : String) :
    items.find? (Value.isNamed n) =
      (ps.findIdx? fun p => Text.sameName p.name n).bind fun i => items[i]? := by
  induction h with
  | nil => rfl
  | @cons p d ps items hd _ ih =>
    have hsame : Value.isNamed n d = Text.sameName p.name n := by
      rw [Value.isNamed, hd]
      rfl
    rw [List.find?_cons, List.findIdx?_cons, hsame]
    cases Text.sameName p.name n with
    | true => rfl
    | false =>
      rw [ih]
      cases ps.findIdx? fun p => Text.sameName p.name n <;> rfl

/-- A parameter that is the first of its name is found under it. -/
theorem findIdx?_of_first (hp : ps[i]? = some p)
    (hfirst : ∀ q ∈ ps.take i, Text.sameName q.name p.name = false) :
    ps.findIdx? (fun q => Text.sameName q.name p.name) = some i := by
  obtain ⟨hi, rfl⟩ := List.getElem?_eq_some_iff.1 hp
  refine List.findIdx?_eq_some_iff_getElem.2 ⟨hi, Text.sameName_refl _, fun j hj => ?_⟩
  have hmem : ps[j] ∈ ps.take i := List.mem_take_iff_getElem.2 ⟨j, by omega, rfl⟩
  rw [hfirst _ hmem]
  exact Bool.false_ne_true

/-- **A resolved array whose items are found by name**, for its parameters and
the arguments it was resolved from. -/
structure Accessible (ps : List Param) (arguments : List Value) (w : Value) : Prop where
  /-- An item is what is bound to its parameter, or else the default. -/
  bound : ∃ b, Value.resolveAll ps (Binding.empty ps) arguments = some b ∧
    ∀ i p slot, ps[i]? = some p → b.slots[i]? = some slot → w.item? i = slot.or p.default?
  /-- There is an item for each parameter, and it comes from somewhere. -/
  item (i : Nat) (p : Param) : ps[i]? = some p → ∃ d a, w.item? i = some d ∧ Source arguments p d a
  /-- An argument passed by name is found under its name. -/
  passed : ∀ a ∈ arguments, ∀ n, a.name = some n →
    ∃ p ∈ ps, ∃ d, Text.sameName p.name n = true ∧ a.resolve p = some d ∧ w.named? n = some d
  /-- A name finds the item of the first parameter that has it. -/
  named (n : String) :
    w.named? n = (ps.findIdx? fun p => Text.sameName p.name n).bind w.item?
  /-- A parameter whose name none before it has is found under its name. -/
  first (i : Nat) (p : Param) : ps[i]? = some p →
    (∀ q ∈ ps.take i, Text.sameName q.name p.name = false) →
      ∃ d, d.name = some p.name ∧ w.item? i = some d ∧ w.named? p.name = some d

/-- **Items are found by name** in what arguments resolve to. -/
theorem accessible_of_resolveList (hps : ∀ p ∈ ps, Sound p) (h : resolveList ps vs = some items)
    (t : Tag) : Accessible ps vs (.array t items) := by
  obtain ⟨b, hb, hcomplete⟩ := Option.bind_eq_some_iff.1 h
  have hnames := forall₂_name hps h
  have hfind : ∀ n, (Value.array t items).named? n =
      (ps.findIdx? fun p => Text.sameName p.name n).bind (Value.array t items).item? :=
    fun n => find?_isNamed hnames n
  have hitem : ∀ (i : Nat) (p : Param), ps[i]? = some p →
      ∃ d a, items[i]? = some d ∧ d.name = some p.name ∧ Source vs p d a := by
    intro i p hp
    obtain ⟨hlen, hall⟩ := forall₂_iff_getElem?.1 hnames
    have hi : i < items.length := by
      have hbound := (List.getElem?_eq_some_iff.1 hp).1
      omega
    have hget : items[i]? = some items[i] := List.getElem?_eq_getElem hi
    obtain ⟨a, ha⟩ := (forall₂_iff_getElem?.1 (forall₂_source h)).2 i p _ hp hget
    exact ⟨items[i], a, hget, hall i p _ hp hget, ha⟩
  refine ⟨⟨b, hb, fun i p slot hp hslot => getElem?_of_complete hcomplete hslot hp⟩,
    fun i p hp => ?_, fun a ha n hn => ?_, hfind, fun i p hp hfirst => ?_⟩
  · obtain ⟨d, a, hd, -, ha⟩ := hitem i p hp
    exact ⟨d, a, hd, ha⟩
  · obtain ⟨i, p, d, hfound, hp, hd, hslot⟩ := slot_of_mem hb ha hn
    have hget : items[i]? = some d := getElem?_of_complete hcomplete hslot hp
    obtain ⟨hi, hsame, -⟩ := List.findIdx?_eq_some_iff_getElem.1 hfound
    obtain ⟨_, rfl⟩ := List.getElem?_eq_some_iff.1 hp
    refine ⟨ps[i], List.getElem_mem hi, d, hsame, hd, ?_⟩
    rw [hfind, hfound]
    exact hget
  · obtain ⟨d, -, hd, hname, -⟩ := hitem i p hp
    refine ⟨d, hname, hd, ?_⟩
    rw [hfind, findIdx?_of_first hp hfirst]
    exact hd

/-! ## Arrays inside arrays -/

/-- **Items are found by name all the way down**: in the array and in every
array inside it, for the parameters of its own and whatever arguments it was
resolved from. -/
inductive DeeplyAccessible : List Param → List Value → Value → Prop
  | mk {ps : List Param} {arguments : List Value} {w : Value} :
      Accessible ps arguments w →
      (∀ i head inner u t inside, ps[i]? = some (.array head inner) → w.item? i = some u →
        Source arguments (.array head inner) u (.array t inside) →
        DeeplyAccessible inner inside u) →
      DeeplyAccessible ps arguments w

/-- Items are found by name all the way down, if they are in what arrays
resolve to at each parameter. -/
theorem deeplyAccessible_of_forall (hps : ∀ p ∈ ps, Sound p)
    (hinner : ∀ p ∈ ps, ∀ head inner, p = .array head inner → ∀ t inside u,
      (Value.array t inside).resolve p = some u → DeeplyAccessible inner inside u)
    (h : resolveList ps vs = some items) (t : Tag) : DeeplyAccessible ps vs (.array t items) := by
  refine .mk (accessible_of_resolveList hps h t) fun i head inner u t' inside hp _ hsource => ?_
  have hmem := List.mem_of_getElem? hp
  exact hinner _ hmem head inner rfl t' inside u (hsource.resolve (hps _ hmem))

/-- What an array resolves to is accessible all the way down. -/
theorem deeplyAccessible_of_resolve (hp : Sound p) : ∀ head inner, p = .array head inner →
    ∀ t inside u, (Value.array t inside).resolve p = some u → DeeplyAccessible inner inside u := by
  induction hp with
  | scalar => simp
  | array _ hps ih =>
    rintro _ _ ⟨⟩ t inside u h
    obtain ⟨_, _, items, ⟨⟩, hitems, rfl⟩ := Value.resolve_array_eq_some h
    exact deeplyAccessible_of_forall hps ih hitems _

/-- **Resolved arguments are accessible all the way down.** -/
theorem deeplyAccessible_of_resolveList (hps : ∀ p ∈ ps, Sound p)
    (h : resolveList ps vs = some items) (t : Tag) : DeeplyAccessible ps vs (.array t items) :=
  deeplyAccessible_of_forall hps (fun p hp => deeplyAccessible_of_resolve (hps p hp)) h t

end Param

end CommandScript
