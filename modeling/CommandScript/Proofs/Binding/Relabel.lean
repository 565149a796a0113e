import CommandScript.Proofs.Binding.Access
import CommandScript.Proofs.Binding.Detach

/-!
# Other names for the same arguments

An argument may go to its parameter by order or by name, names may be in any
case, and where arguments with names come last their order is free. None of
this decides what a call resolves to, as long as every argument goes where it
went. Arguments with names may change places, since each takes a slot that no
other does (`resolveAll_perm`), and this all the way down (`Alike`). And
arguments that go by order may be passed under the names of their parameters,
from some argument on, if those parameters are the ones that the names find
(`Labelled`). So calls that differ in these ways resolve alike
(`Signature.resolve_relabelled`).
-/

namespace CommandScript

namespace Param

variable {p q : Param} {ps : List Param} {v w d : Value} {vs ws named : List Value}
  {b b' : Binding} {i : Nat} {label label' : Option String}

/-! ## The same name in another case -/

/-- Two labels are both missing or, ignoring case, one name. -/
def SameLabel (label label' : Option String) : Prop :=
  label.map Text.caseKey = label'.map Text.caseKey

instance : Decidable (SameLabel label label') :=
  inferInstanceAs (Decidable (_ = _))

theorem SameLabel.isNone_eq (h : SameLabel label label') : label.isNone = label'.isNone := by
  have hnone := congrArg Option.isNone h
  rwa [Option.isNone_map, Option.isNone_map] at hnone

/-- The case of a name does not matter to where an argument goes. -/
theorem SameLabel.target_eq (h : SameLabel label label') :
    b.target ps label = b.target ps label' := by
  cases label with
  | none =>
    cases label' with
    | none => rfl
    | some _ => cases h
  | some n =>
    cases label' with
    | none => cases h
    | some m =>
      have hkey : Text.caseKey n = Text.caseKey m := Option.some.inj h
      have hsame : ∀ p : Param, Text.sameName p.name n = Text.sameName p.name m := by
        intro p
        unfold Text.sameName
        rw [hkey]
      unfold Binding.target
      simp only [hsame]

theorem SameLabel.taker_eq (h : SameLabel label label') :
    b.taker ps label = b.taker ps label' := by
  unfold Binding.taker
  rw [h.target_eq]

theorem SameLabel.bind_eq (h : SameLabel label label') (b : Binding) (i : Nat) (d : Value) :
    b.bind i label d = b.bind i label' d := by
  unfold Binding.bind
  rw [h.isNone_eq]

/-- Each of two arguments goes where the other does, and is read as the other
is. -/
def Interchangeable (v w : Value) : Prop :=
  SameLabel v.name w.name ∧ ∀ p, v.resolve p = w.resolve p

/-- **Interchangeable arguments are bound alike.** -/
theorem resolveAll_congr (h : List.Forall₂ Interchangeable vs ws) (b : Binding) :
    Value.resolveAll ps b vs = Value.resolveAll ps b ws := by
  induction h generalizing b with
  | nil => rfl
  | @cons v w vs ws hfirst _ ih =>
    obtain ⟨hlabel, hread⟩ := hfirst
    rw [Value.resolveAll_cons, Value.resolveAll_cons, hlabel.taker_eq]
    simp only [hread, hlabel.bind_eq, ih]

/-! ## Names in another order -/

/-- Where an argument with a name goes does not depend on the others. -/
theorem target_of_isSome (hv : label.isSome = true) : b.target ps label = b'.target ps label := by
  obtain ⟨n, rfl⟩ := Option.isSome_iff_exists.1 hv
  rfl

/-- An argument with a name does nothing but fill its slot. -/
theorem bind_of_isSome (hv : label.isSome = true) :
    b.bind i label d = { b with slots := b.slots.set i (some d) } := by
  obtain ⟨n, rfl⟩ := Option.isSome_iff_exists.1 hv
  rfl

/-- **Two arguments with names may change places**: neither goes where the
other does. -/
theorem resolveAll_swap_eq_some (hv : v.name.isSome = true) (hw : w.name.isSome = true)
    (h : Value.resolveAll ps b (v :: w :: vs) = some b') :
    Value.resolveAll ps b (w :: v :: vs) = some b' := by
  obtain ⟨i, p, d, hi, hp, hfree, hd, hrest⟩ := resolveAll_cons_eq_some h
  obtain ⟨j, q, e, hj, hq, hfree', he, hrest'⟩ := resolveAll_cons_eq_some hrest
  have hne : i ≠ j := by
    rintro rfl
    have hfilled : (b.bind i v.name d).slots[i]? = some (some d) :=
      List.getElem?_set_self (List.getElem?_eq_some_iff.1 hfree).1
    rw [hfilled] at hfree'
    cases hfree'
  have hfreej : b.slots[j]? = some none := (List.getElem?_set_ne hne).symm.trans hfree'
  have hfreei : (b.bind j w.name e).slots[i]? = some none :=
    (List.getElem?_set_ne hne.symm).trans hfree
  have hcomm : (b.bind j w.name e).bind i v.name d = (b.bind i v.name d).bind j w.name e := by
    rw [bind_of_isSome hv, bind_of_isSome hw, bind_of_isSome hv, bind_of_isSome hw]
    simp only [List.set_comm _ _ hne]
  rw [target_of_isSome hw] at hj
  rw [target_of_isSome hv] at hi
  rw [Value.resolveAll_cons_of_target hj hq hfreej he,
    Value.resolveAll_cons_of_target hi hp hfreei hd, hcomm, hrest']

/-- **Arguments with names may come in any order.** -/
theorem resolveAll_perm (h : vs.Perm ws) (hvs : ∀ v ∈ vs, v.name.isSome = true) (b : Binding) :
    Value.resolveAll ps b vs = Value.resolveAll ps b ws := by
  induction h generalizing b with
  | nil => rfl
  | cons v _ ih =>
    obtain ⟨-, hvs⟩ := List.forall_mem_cons.1 hvs
    rw [Value.resolveAll_cons, Value.resolveAll_cons]
    simp only [ih hvs]
  | swap v w vs =>
    obtain ⟨hw, hvs⟩ := List.forall_mem_cons.1 hvs
    obtain ⟨hv, -⟩ := List.forall_mem_cons.1 hvs
    exact Option.ext fun b' => ⟨resolveAll_swap_eq_some hw hv, resolveAll_swap_eq_some hv hw⟩
  | trans hleft _ ihleft ihright =>
    exact (ihleft hvs b).trans (ihright (fun v hv => hvs v (hleft.mem_iff.2 hv)) b)

/-- One list of arguments is another with some of those with names at its end
in another order. -/
inductive Reordered : List Value → List Value → Prop
  | mk {front back back' : List Value} :
      back.Perm back' → (∀ v ∈ back, v.name.isSome = true) →
      Reordered (front ++ back) (front ++ back')

theorem Reordered.refl (vs : List Value) : Reordered vs vs := by
  simpa using @Reordered.mk vs [] [] .nil (by simp)

/-- **Arguments that differ in their names' case and order alone**, in every
array: those with names at its end are in any order. -/
inductive Alike : Value → Value → Prop
  | scalar {t t' : Tag} {k : ScalarKind} {s : String} :
      SameLabel t.name t'.name → t.position = t'.position → Alike (.scalar t k s) (.scalar t' k s)
  | array {t t' : Tag} {vs ws reordered : List Value} :
      SameLabel t.name t'.name → t.position = t'.position →
      List.Forall₂ Alike vs ws → Reordered ws reordered → Alike (.array t vs) (.array t' reordered)

theorem Alike.sameLabel (h : Alike v w) : SameLabel v.name w.name := by
  cases h with
  | scalar hlabel _ => exact hlabel
  | array hlabel _ _ _ => exact hlabel

/-- **Neither the case nor the order of names matters**, where arguments one
by one are interchangeable. -/
theorem resolveList_reordered {reordered : List Value} (h : List.Forall₂ Interchangeable vs ws)
    (hreordered : Reordered ws reordered) : resolveList ps vs = resolveList ps reordered := by
  cases hreordered with
  | mk hperm hback =>
    rw [resolveList, resolveList, resolveAll_congr h, resolveAll_append, resolveAll_append]
    simp only [resolveAll_perm hperm hback]

mutual

/-- **One argument is read like another that is alike.** -/
theorem resolve_of_alike : (v : Value) → ∀ {w : Value}, Alike v w →
    ∀ p, v.resolve p = w.resolve p
  | .scalar t k s, w, h, p => by
    cases h with
    | @scalar _ t' _ _ _ hposition =>
      cases p with
      | array _ _ => rfl
      | scalar head kind =>
        have hread : ∀ k', (Value.scalar t k' s).rename (some head.name) =
            (Value.scalar t' k' s).rename (some head.name) := by
          intro k'
          rw [Value.rename, Value.rename, hposition]
        rw [Value.resolve, Value.resolve, Value.coerce, Value.coerce, Option.map_map,
          Option.map_map]
        exact congrArg (Option.map · _) (funext hread)
  | .array t vs, w, h, p => by
    cases h with
    | @array _ t' _ ws reordered _ hposition hvs hreordered =>
      cases p with
      | scalar _ _ => rfl
      | array head ps =>
        have hitems : resolveList ps vs = resolveList ps reordered :=
          resolveList_reordered (interchangeable_of_alike vs hvs) hreordered
        rw [Value.resolve_array, Value.resolve_array, hitems, hposition]

/-- Arguments that are alike one by one are interchangeable. -/
theorem interchangeable_of_alike : (vs : List Value) → ∀ {ws : List Value},
    List.Forall₂ Alike vs ws → List.Forall₂ Interchangeable vs ws
  | [], _, .nil => .nil
  | v :: vs, _, .cons hv hvs =>
    .cons ⟨hv.sameLabel, resolve_of_alike v hv⟩ (interchangeable_of_alike vs hvs)

end

/-! ## The names of parameters -/

/-- Arguments under the names of parameters, one after the other. -/
def giveNames (ps : List Param) (vs : List Value) : List Value :=
  List.zipWith (fun p v => v.rename (some p.name)) ps vs

/-- **Arguments that go by order are passed by name**, from some argument on,
each under the name of its parameter, which no parameter before has. -/
inductive Labelled (ps : List Param) : Value → Value → Prop
  | mk {t : Tag} {first last named : List Value} :
      (∀ v ∈ first ++ last, v.name = none) → (∀ v ∈ named, v.name.isSome = true) →
      (first ++ last).length ≤ ps.length →
      (∀ i p, first.length ≤ i → i < (first ++ last).length → ps[i]? = some p →
        ∀ q ∈ ps.take i, Text.sameName q.name p.name = false) →
      Labelled ps (.array t (first ++ last ++ named))
        (.array t (first ++ giveNames (ps.drop first.length) last ++ named))

/-- Arguments with names look at nothing but slots. -/
theorem slots_resolveAll_of_isSome (hvs : ∀ v ∈ vs, v.name.isSome = true)
    (h : b.slots = b'.slots) :
    (Value.resolveAll ps b vs).map Binding.slots =
      (Value.resolveAll ps b' vs).map Binding.slots := by
  induction vs generalizing b b' with
  | nil => exact congrArg some h
  | cons v vs ih =>
    obtain ⟨hv, hvs⟩ := List.forall_mem_cons.1 hvs
    have htaker : b.taker ps v.name = b'.taker ps v.name := by
      unfold Binding.taker
      rw [target_of_isSome hv, h]
    rw [Value.resolveAll_cons, Value.resolveAll_cons, htaker]
    cases b'.taker ps v.name with
    | none => rfl
    | some found =>
      simp only [Option.bind_some]
      cases v.resolve found.2 with
      | none => rfl
      | some d =>
        refine ih hvs ?_
        rw [bind_of_isSome hv, bind_of_isSome hv, h]

/-- **An argument under the name of the first free parameter** goes to it, as it
would without a name. -/
theorem resolveAll_inOrder_rename {done : List Value} {n next : Nat}
    (hp : ps[done.length]? = some p)
    (hfirst : ∀ q ∈ ps.take done.length, Text.sameName q.name p.name = false) :
    Value.resolveAll ps { inOrder done (n + 1) with next } (v.rename (some p.name) :: vs) =
      (v.resolve p).bind fun d => Value.resolveAll ps { inOrder (done ++ [d]) n with next } vs := by
  have htarget : Binding.target { inOrder done (n + 1) with next } ps (some p.name) =
      some done.length := findIdx?_of_first hp hfirst
  have htaker : Binding.taker { inOrder done (n + 1) with next } ps (some p.name) =
      some (done.length, p) := by
    unfold Binding.taker
    rw [htarget, Option.bind_some, hp]
    simp only [getElem?_slots_inOrder]
  rw [Value.resolveAll_cons, Value.name_rename, htaker, Option.bind_some, Value.resolve_rename]
  simp only [bind_of_isSome Option.isSome_some, set_slots_inOrder]

/-- **The rest of the arguments that go by order** fill the same slots under
the names of their parameters. -/
theorem slots_resolveAll_giveNames {done : List Value} {n next : Nat}
    (hvs : ∀ v ∈ vs, v.name = none) (hnamed : ∀ v ∈ named, v.name.isSome = true)
    (hlen : done.length + vs.length + n = ps.length)
    (hfirst : ∀ i p, done.length ≤ i → i < done.length + vs.length → ps[i]? = some p →
      ∀ q ∈ ps.take i, Text.sameName q.name p.name = false) :
    (Value.resolveAll ps (inOrder done (vs.length + n)) (vs ++ named)).map Binding.slots =
      (Value.resolveAll ps { inOrder done (vs.length + n) with next }
        (giveNames (ps.drop done.length) vs ++ named)).map Binding.slots := by
  induction vs generalizing done with
  | nil =>
    have hnone : giveNames (ps.drop done.length) [] = [] := List.zipWith_nil_right
    rw [hnone]
    exact slots_resolveAll_of_isSome hnamed rfl
  | cons v vs ih =>
    obtain ⟨hv, hvs⟩ := List.forall_mem_cons.1 hvs
    rw [List.length_cons] at hlen hfirst ⊢
    have hlt : done.length < ps.length := by omega
    have hp : ps[done.length]? = some ps[done.length] := List.getElem?_eq_getElem hlt
    have hnames : giveNames (ps.drop done.length) (v :: vs) =
        v.rename (some ps[done.length].name) :: giveNames (ps.drop (done.length + 1)) vs := by
      rw [List.drop_eq_getElem_cons hlt]
      rfl
    have hn : vs.length + 1 + n = vs.length + n + 1 := by omega
    rw [hnames, hn, List.cons_append, List.cons_append, resolveAll_inOrder_cons hp hv,
      resolveAll_inOrder_rename hp (hfirst _ _ (Nat.le_refl _) (by omega) hp)]
    cases v.resolve ps[done.length] with
    | none => rfl
    | some d =>
      have hsnoc : (done ++ [d]).length = done.length + 1 := List.length_append
      have hroom : (done ++ [d]).length + vs.length + n = ps.length := by omega
      have hrest := ih hvs hroom fun i q hle hlt hq => hfirst i q (by omega) (by omega) hq
      rw [hsnoc] at hrest
      exact hrest

/-- What is bound is completed from its slots. -/
theorem resolveList_eq_of_slots
    (h : (Value.resolveAll ps (.empty ps) vs).map Binding.slots =
      (Value.resolveAll ps (.empty ps) ws).map Binding.slots) :
    resolveList ps vs = resolveList ps ws := by
  have hslots : ∀ vs, resolveList ps vs = ((Value.resolveAll ps (.empty ps) vs).map
      Binding.slots).bind fun slots => Binding.complete slots ps := by
    intro vs
    rw [Option.bind_map]
    rfl
  rw [hslots, hslots, h]

/-- **Arguments that go by order may be passed by name** just as well. -/
theorem resolveList_giveNames {first last : List Value}
    (hunnamed : ∀ v ∈ first ++ last, v.name = none) (hnamed : ∀ v ∈ named, v.name.isSome = true)
    (hlen : (first ++ last).length ≤ ps.length)
    (hfirst : ∀ i p, first.length ≤ i → i < (first ++ last).length → ps[i]? = some p →
      ∀ q ∈ ps.take i, Text.sameName q.name p.name = false) :
    resolveList ps (first ++ last ++ named) =
      resolveList ps (first ++ giveNames (ps.drop first.length) last ++ named) := by
  obtain ⟨n, hn⟩ := Nat.exists_eq_add_of_le hlen
  rw [List.length_append] at hn hfirst
  have hempty : Binding.empty ps = inOrder [] (first.length + (last.length + n)) := by
    rw [empty_eq_inOrder, hn, Nat.add_assoc]
  refine resolveList_eq_of_slots ?_
  rw [List.append_assoc, List.append_assoc, resolveAll_append, resolveAll_append, hempty]
  -- both calls begin with the same arguments, so only what follows them matters
  cases hbound : Value.resolveAll ps (inOrder [] (first.length + (last.length + n))) first with
  | none => rfl
  | some b =>
    obtain ⟨done, hdone, rfl⟩ := resolveAll_inOrder_eq_some
      (fun v hv => hunnamed v (List.mem_append_left _ hv)) (by simp; omega) hbound
    rw [List.length_nil, Nat.zero_add] at hdone
    rw [← hdone] at hn hfirst ⊢
    exact slots_resolveAll_giveNames (fun v hv => hunnamed v (List.mem_append_right _ hv)) hnamed
      hn.symm hfirst

end Param

namespace Signature

open Param (Alike Labelled)

/-- **How arguments are named does not matter, only what they bind.** Calls
resolve alike, or neither does, if in one of them names are in another case
and arguments with names in another order, at any depth, or if some of the
arguments that go by order are passed under the names of their parameters. -/
theorem resolve_relabelled (s : Signature) :
    (∀ a b, Alike a b → s.resolve a = s.resolve b) ∧
      ∀ a b, Labelled s.params a b → s.resolve a = s.resolve b := by
  constructor
  · intro a b h
    cases h with
    | scalar => rfl
    | @array t t' vs _ _ _ hposition hvs hreordered =>
      rw [resolve, resolve,
        Param.resolveList_reordered (Param.interchangeable_of_alike vs hvs) hreordered, hposition]
  · intro a b h
    cases h with
    | mk hunnamed hnamed hlen hfirst =>
      rw [resolve, resolve, Param.resolveList_giveNames hunnamed hnamed hlen hfirst]

/-- A command that draws a point in a color. -/
def plot : Signature :=
  ⟨[.scalar { name := "color" } .any,
    .array { name := "at" } [.scalar { name := "x" } .int, .scalar { name := "y" } .int]]⟩

/-- A point, under a name. -/
def plotPoint : Value :=
  (Value.list [(Value.word "3").rename (some "x"),
    (Value.word "5").rename (some "y")]).rename (some "at")

/-- The point with names in capitals, and coordinates in another order. -/
def plotPointReordered : Value :=
  (Value.list [(Value.word "5").rename (some "Y"),
    (Value.word "3").rename (some "X")]).rename (some "AT")

/-- A call that draws a point in red. -/
def plotRed (point : Value) : Value :=
  .list [.word "red", point]

/-- The call with the color passed by name. -/
def plotRedNamed (point : Value) : Value :=
  .list [(Value.word "red").rename (some "color"), point]

/-- Three ways to draw a red point. -/
theorem resolve_relabelled_plot :
    Alike (plotRed plotPoint) (plotRed plotPointReordered) ∧
      Labelled plot.params (plotRed plotPoint) (plotRedNamed plotPoint) ∧
      (plot.resolve (plotRed plotPoint)).isSome = true ∧
      plot.resolve (plotRed plotPoint) = plot.resolve (plotRed plotPointReordered) ∧
      plot.resolve (plotRed plotPoint) = plot.resolve (plotRedNamed plotPoint) := by
  have hred : Alike (.word "red") (.word "red") := .scalar rfl rfl
  have hx : Alike ((Value.word "3").rename (some "x")) ((Value.word "3").rename (some "X")) :=
    .scalar (by decide) rfl
  have hy : Alike ((Value.word "5").rename (some "y")) ((Value.word "5").rename (some "Y")) :=
    .scalar (by decide) rfl
  have hpoint : Alike plotPoint plotPointReordered :=
    .array (by decide) rfl (.cons hx (.cons hy .nil))
      (@Param.Reordered.mk [] _ _ (.swap _ _ _) (by simp))
  have halike : Alike (plotRed plotPoint) (plotRed plotPointReordered) :=
    .array rfl rfl (.cons hred (.cons hpoint .nil)) (.refl _)
  have hlabelled : Labelled plot.params (plotRed plotPoint) (plotRedNamed plotPoint) := by
    refine @Labelled.mk plot.params _ [] [.word "red"] [_] (by decide) (by decide) (by decide) ?_
    rintro i p - hi - q hq
    obtain rfl : i = 0 := Nat.lt_one_iff.1 hi
    cases hq
  exact ⟨halike, hlabelled, by decide +kernel, (resolve_relabelled plot).1 _ _ halike,
    (resolve_relabelled plot).2 _ _ hlabelled⟩

end Signature

end CommandScript
