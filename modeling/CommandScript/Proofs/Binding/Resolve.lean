import CommandScript.Binding
import Mathlib.Data.List.Forall2

/-!
# What binding yields

An array that is resolved has one item for each parameter, in order: what
some argument resolves to there, or else the default (`forall₂_of_resolveList`).
Whatever holds of both holds of every item, and that is all that most facts
about resolved trees need. Arguments without names fill the parameters one
after the other (`resolveAll_inOrder_cons`).
-/

namespace CommandScript

variable {p : Param} {ps : List Param} {v d : Value} {vs items : List Value} {b b' : Binding}

/-! ## One value -/

namespace Value

/-- **A scalar is resolved where a scalar is asked for**, as what it can be
read as. -/
theorem resolve_scalar_eq_some {t : Tag} {k : ScalarKind} {s : String}
    (h : (scalar t k s).resolve p = some d) :
    ∃ head kind k', p = .scalar head kind ∧ kind.coerce k s = some k' ∧
      d = scalar ⟨some head.name, t.position⟩ k' s := by
  cases p with
  | array _ _ => cases h
  | scalar head kind =>
    rw [resolve, coerce, Option.map_map, Option.map_eq_some_iff] at h
    obtain ⟨k', hk, rfl⟩ := h
    exact ⟨head, kind, k', rfl, hk, rfl⟩

theorem resolve_array (head : ParamHead) (ps : List Param) (t : Tag) (vs : List Value) :
    (array t vs).resolve (.array head ps) =
      (Param.resolveList ps vs).map fun items => array ⟨some head.name, t.position⟩ items := by
  rw [resolve, Param.resolveList]

/-- **An array is resolved where an array is asked for**, item by item. -/
theorem resolve_array_eq_some {t : Tag} (h : (array t vs).resolve p = some d) :
    ∃ head ps items, p = .array head ps ∧ Param.resolveList ps vs = some items ∧
      d = array ⟨some head.name, t.position⟩ items := by
  cases p with
  | scalar _ _ => cases h
  | array head ps =>
    rw [resolve_array, Option.map_eq_some_iff] at h
    obtain ⟨items, hitems, rfl⟩ := h
    exact ⟨head, ps, items, rfl, hitems, rfl⟩

end Value

/-! ## One argument at a time -/

namespace Param

/-- **One argument is bound at a time**: to a parameter, into an empty slot,
as what it resolves to there. -/
theorem resolveAll_cons_eq_some (h : Value.resolveAll ps b (v :: vs) = some b') :
    ∃ (i : Nat) (p : Param) (w : Value), b.target ps v.name = some i ∧ ps[i]? = some p ∧
      b.slots[i]? = some none ∧ v.resolve p = some w ∧
      Value.resolveAll ps (b.bind i v.name w) vs = some b' := by
  rw [Value.resolveAll] at h
  split at h
  · cases h
  · rename_i i ht
    split at h
    · rename_i p hp hslot
      split at h
      · cases h
      · rename_i w hw
        exact ⟨i, p, w, ht, hp, hslot, hw, h⟩
    · cases h

/-- Arguments in two parts are bound one part after the other. -/
theorem resolveAll_append (vs ws : List Value) (b : Binding) :
    Value.resolveAll ps b (vs ++ ws) =
      (Value.resolveAll ps b vs).bind fun b' => Value.resolveAll ps b' ws := by
  induction vs generalizing b with
  | nil => rfl
  | cons v vs ih =>
    rw [List.cons_append, Value.resolveAll, Value.resolveAll]
    split
    · rfl
    · split
      · split
        · rfl
        · exact ih _
      · rfl

/-! ## All items -/

variable {R : Param → Value → Prop}

/-- Slots that hold nothing but what a relation allows at their parameter. -/
def Filled (R : Param → Value → Prop) (ps : List Param) (slots : List (Option Value)) : Prop :=
  List.Forall₂ (fun p slot => ∀ d, slot = some d → R p d) ps slots

theorem filled_empty (ps : List Param) : Filled R ps (Binding.empty ps).slots := by
  unfold Filled Binding.empty
  rw [List.forall₂_map_right_iff, List.forall₂_same]
  rintro p - d ⟨⟩

/-- A slot takes what is allowed at its parameter. -/
theorem Filled.set {slots : List (Option Value)} {i : Nat} (h : Filled R ps slots)
    (hp : ps[i]? = some p) (hd : R p d) : Filled R ps (slots.set i (some d)) := by
  induction h generalizing i with
  | nil => cases hp
  | @cons q slot qs slots hslot hslots ih =>
    cases i with
    | zero =>
      cases hp
      refine .cons (fun e he => ?_) hslots
      cases he
      exact hd
    | succ i => exact .cons hslot (ih hp)

/-- What arguments resolve to fills the slots. -/
theorem Filled.resolveAll (hargs : ∀ v ∈ vs, ∀ p ∈ ps, ∀ d, v.resolve p = some d → R p d)
    (hb : Filled R ps b.slots) (h : Value.resolveAll ps b vs = some b') : Filled R ps b'.slots := by
  induction vs generalizing b with
  | nil =>
    cases h
    exact hb
  | cons v vs ih =>
    obtain ⟨i, p, w, -, hp, -, hw, hrest⟩ := resolveAll_cons_eq_some h
    have hallowed : R p w := hargs v List.mem_cons_self p (List.mem_of_getElem? hp) w hw
    exact ih (fun u hu => hargs u (List.mem_cons_of_mem _ hu)) (hb.set hp hallowed) hrest

/-- Slots are completed with defaults. -/
theorem Filled.complete {slots : List (Option Value)} (hf : Filled R ps slots)
    (hdefaults : ∀ p ∈ ps, ∀ d, p.default? = some d → R p d)
    (h : Binding.complete slots ps = some items) : List.Forall₂ R ps items := by
  induction hf generalizing items with
  | nil =>
    cases h
    exact .nil
  | @cons p slot ps slots hslot _ ih =>
    rw [Binding.complete] at h
    split at h
    · rename_i v vs hv hvs
      cases h
      refine .cons ?_ (ih (fun q hq => hdefaults q (List.mem_cons_of_mem _ hq)) hvs)
      rcases Option.or_eq_some_iff.1 hv with hv | ⟨-, hv⟩
      · exact hslot v hv
      · exact hdefaults p List.mem_cons_self v hv
    · cases h

/-- **Resolved items**: one for each parameter, in order. What holds of
whatever an argument resolves to, and of every default, holds of each. -/
theorem forall₂_of_resolveList (hargs : ∀ v ∈ vs, ∀ p ∈ ps, ∀ d, v.resolve p = some d → R p d)
    (hdefaults : ∀ p ∈ ps, ∀ d, p.default? = some d → R p d)
    (h : resolveList ps vs = some items) : List.Forall₂ R ps items := by
  obtain ⟨b, hb, hcomplete⟩ := Option.bind_eq_some_iff.1 h
  exact ((filled_empty ps).resolveAll hargs hb).complete hdefaults hcomplete

/-- A relation between lists, index by index. -/
theorem forall₂_iff_getElem? :
    List.Forall₂ R ps items ↔ items.length = ps.length ∧
      ∀ (i : Nat) (p : Param) (v : Value), ps[i]? = some p → items[i]? = some v → R p v := by
  rw [List.forall₂_iff_get]
  constructor
  · rintro ⟨hlen, hall⟩
    refine ⟨hlen.symm, fun i p v hp hv => ?_⟩
    obtain ⟨hi, rfl⟩ := List.getElem?_eq_some_iff.1 hp
    obtain ⟨hj, rfl⟩ := List.getElem?_eq_some_iff.1 hv
    exact hall i hi hj
  · rintro ⟨hlen, hall⟩
    refine ⟨hlen.symm, fun i hi hj => ?_⟩
    exact hall i _ _ (List.getElem?_eq_getElem hi) (List.getElem?_eq_getElem hj)

/-! ## Arguments without names -/

/-- The slots when the first parameters are filled and `n` are not. -/
def inOrder (done : List Value) (n : Nat) : Binding where
  slots := done.map some ++ List.replicate n none
  next := done.length

theorem empty_eq_inOrder (ps : List Param) : Binding.empty ps = inOrder [] ps.length := by
  unfold Binding.empty inOrder
  rw [List.map_const']
  rfl

/-- The first slot that is not filled is free. -/
theorem getElem?_slots_inOrder (done : List Value) (n : Nat) :
    (inOrder done (n + 1)).slots[done.length]? = some none := by
  unfold inOrder
  rw [List.getElem?_append_right (by simp)]
  simp

theorem set_slots_inOrder (done : List Value) (n : Nat) (d : Value) :
    (inOrder done (n + 1)).slots.set done.length (some d) = (inOrder (done ++ [d]) n).slots := by
  unfold inOrder
  rw [List.set_append_right _ _ (by simp)]
  simp [List.replicate_succ]

/-- **An argument without a name goes to the first free parameter.** -/
theorem resolveAll_inOrder_cons {done : List Value} {n : Nat} (hp : ps[done.length]? = some p)
    (hv : v.name = none) :
    Value.resolveAll ps (inOrder done (n + 1)) (v :: vs) =
      (v.resolve p).bind fun d => Value.resolveAll ps (inOrder (done ++ [d]) n) vs := by
  have htarget : (inOrder done (n + 1)).target ps none = some done.length := by
    have hfree : ((inOrder done (n + 1)).slots.drop (inOrder done (n + 1)).next).any
        Option.isSome = false := by
      change ((done.map some ++ List.replicate (n + 1) none).drop done.length).any
        Option.isSome = false
      rw [List.drop_left' (by simp)]
      simp
    unfold Binding.target
    simp only [hfree]
    rfl
  have hbind : ∀ d, (inOrder done (n + 1)).bind done.length none d = inOrder (done ++ [d]) n := by
    intro d
    have hnext : (inOrder done (n + 1)).next + 1 = (inOrder (done ++ [d]) n).next := by
      unfold inOrder
      rw [List.length_append]
      rfl
    unfold Binding.bind
    rw [set_slots_inOrder]
    simp only [Option.isNone_none, if_true, hnext]
  rw [Value.resolveAll, hv, htarget]
  simp only [hp, getElem?_slots_inOrder]
  cases v.resolve p with
  | none => rfl
  | some d =>
    simp only [Option.bind_some]
    rw [hbind d]

/-- Full slots are complete. -/
theorem complete_map_some (hlen : items.length = ps.length) :
    Binding.complete (items.map some) ps = some items := by
  induction items generalizing ps with
  | nil => rfl
  | cons v items ih =>
    cases ps with
    | nil => cases hlen
    | cons p ps =>
      rw [List.map_cons, Binding.complete, ih (by simpa using hlen)]
      rfl

theorem slots_inOrder_zero (done : List Value) : (inOrder done 0).slots = done.map some :=
  List.append_nil _

variable {f : Value → Value}

/-- Arguments without names that resolve to known items fill the parameters
that are still free with them. -/
theorem resolveAll_inOrder_map (hf : ∀ v, (f v).name = none) {todo done : List Value}
    (h : List.Forall₂ (fun p v => (f v).resolve p = some v) (ps.drop done.length) todo) :
    Value.resolveAll ps (inOrder done todo.length) (todo.map f) =
      some (inOrder (done ++ todo) 0) := by
  induction todo generalizing done with
  | nil =>
    rw [List.append_nil]
    rfl
  | cons v todo ih =>
    obtain ⟨p, rest, hv, hrest, hdrop⟩ := List.forall₂_cons_right_iff.1 h
    have hp : ps[done.length]? = some p := by
      rw [← List.head?_drop, hdrop]
      rfl
    have hnext : ps.drop (done ++ [v]).length = rest := by
      rw [List.length_append, List.length_singleton, ← List.drop_drop, hdrop]
      rfl
    have hlater := @ih (done ++ [v]) (by rw [hnext]; exact hrest)
    rw [List.map_cons, List.length_cons, resolveAll_inOrder_cons hp (hf v), hv, Option.bind_some,
      hlater, List.append_assoc]
    rfl

/-- **Arguments without names, one for each parameter**, resolve to the items
that they resolve to one by one. -/
theorem resolveList_map (hf : ∀ v, (f v).name = none)
    (h : List.Forall₂ (fun p v => (f v).resolve p = some v) ps items) :
    resolveList ps (items.map f) = some items := by
  have hbound : Value.resolveAll ps (inOrder [] items.length) (items.map f) =
      some (inOrder ([] ++ items) 0) := resolveAll_inOrder_map hf h
  rw [← h.length_eq, ← empty_eq_inOrder, List.nil_append] at hbound
  rw [resolveList, hbound, Option.bind_some, slots_inOrder_zero, complete_map_some h.length_eq.symm]

end Param

end CommandScript
