import CommandScript.Proofs.Binding.Access
import CommandScript.Proofs.Binding.Detach
import Mathlib.Data.List.Nodup

/-!
# The rules of binding

Arguments are bound one after the other, into slots that are free or taken,
and the first that does not fit stops it all. Here are the rules that this
comes to, said of all arguments at once. They have their places (`Places`):
those without names come first and take the first parameters in order, those
with names take the first parameter of their name, and none takes a
parameter that another has. Each parameter then stands for what is read at
its place, and where there is none for its default (`Binds`). Arrays inside
are bound by the same rules (`Resolves`). A list of arguments is resolved if
and only if it keeps to them, and to the items they give
(`resolveList_eq_some_iff`).
-/

namespace CommandScript

namespace Param

variable {p : Param} {ps : List Param} {v d : Value} {vs items : List Value} {b b' : Binding}
  {i : Nat} {taken indices places : List Nat} {slots : List (Option Value)}

/-! ## Places -/

/-- An argument with a name goes to the first parameter of that name, ignoring
case. -/
def NamesPlace (ps : List Param) (v : Value) (i : Nat) : Prop :=
  ∃ n, v.name = some n ∧ ps.findIdx? (fun p => Text.sameName p.name n) = some i

/-- **The places of arguments.** Those without names come first and have the
first places. Those with names have the places of the first parameters of
their names, all different and all behind. -/
inductive Places (ps : List Param) : List Value → List Nat → Prop
  | mk {unnamed named : List Value} {indices : List Nat} :
      (∀ v ∈ unnamed, v.name = none) → unnamed.length ≤ ps.length →
      List.Forall₂ (NamesPlace ps) named indices →
      (∀ i ∈ indices, unnamed.length ≤ i) → indices.Nodup →
      Places ps (unnamed ++ named) (List.range unnamed.length ++ indices)

theorem NamesPlace.lt_length (h : NamesPlace ps v i) : i < ps.length := by
  obtain ⟨n, -, hfound⟩ := h
  exact (List.findIdx?_eq_some_iff_getElem.1 hfound).1

theorem lt_length_of_forall₂ {R : Value → Nat → Prop} (hR : ∀ v i, R v i → i < ps.length)
    (h : List.Forall₂ R vs indices) : ∀ i ∈ indices, i < ps.length := by
  induction h with
  | nil => simp
  | cons hv _ ih => exact List.forall_mem_cons.2 ⟨hR _ _ hv, ih⟩

/-- A place is that of a parameter. -/
theorem Places.lt_length (h : Places ps vs places) : ∀ i ∈ places, i < ps.length := by
  cases h with
  | mk _ hle hnamed _ _ =>
    refine List.forall_mem_append.2
      ⟨fun i hi => ?_, lt_length_of_forall₂ (fun _ _ hv => hv.lt_length) hnamed⟩
    have hlt := List.mem_range.1 hi
    omega

/-- No two arguments have one place. -/
theorem Places.nodup (h : Places ps vs places) : places.Nodup := by
  cases h with
  | mk _ _ _ hbehind hnodup =>
    refine List.Nodup.append List.nodup_range hnodup fun i hfront hback => ?_
    have hlt := List.mem_range.1 hfront
    have hge := hbehind i hback
    omega

theorem Places.length_eq (h : Places ps vs places) : places.length = vs.length := by
  cases h with
  | mk _ _ hnamed _ _ =>
    rw [List.length_append, List.length_append, List.length_range, hnamed.length_eq]

/-! ## Items -/

/-- **What a parameter stands for**: what is read of the argument that has its
place, or its default if no argument has. -/
inductive StandsFor (R : Param → Value → Value → Prop) :
    List Value → List Nat → Nat → Param → Value → Prop
  | argument {v d : Value} {vs : List Value} {places : List Nat} {i : Nat} {p : Param} :
      (i, v) ∈ places.zip vs → R p v d → StandsFor R vs places i p d
  | default {d : Value} {vs : List Value} {places : List Nat} {i : Nat} {p : Param} :
      i ∉ places → p.default? = some d → StandsFor R vs places i p d

/-- **The rules of binding**, given how one argument is read: arguments that
have places, and one item for each parameter, in order. -/
inductive Binds (R : Param → Value → Value → Prop) : List Param → List Value → List Value → Prop
  | mk {places : List Nat} {ps : List Param} {vs items : List Value} :
      Places ps vs places → items.length = ps.length →
      (∀ i p d, ps[i]? = some p → items[i]? = some d → StandsFor R vs places i p d) →
      Binds R ps vs items

/-- **The rules of reading one argument**, under the name of its parameter and
at its own place. A scalar is of the kind asked for, if its text can be read
as that, and under `any` of the kind it has. An array is bound by the rules
for its items. -/
inductive Resolves : Param → Value → Value → Prop
  | typed {head : ParamHead} {asked k : ScalarKind} {t : Tag} {s : String} :
      asked.reads s = true →
      Resolves (.scalar head (.scalar asked)) (.scalar t k s)
        (.scalar ⟨some head.name, t.position⟩ asked s)
  | any {head : ParamHead} {k : ScalarKind} {t : Tag} {s : String} :
      Resolves (.scalar head .any) (.scalar t k s) (.scalar ⟨some head.name, t.position⟩ k s)
  | array {head : ParamHead} {ps : List Param} {t : Tag} {vs items : List Value} :
      Binds Resolves ps vs items →
      Resolves (.array head ps) (.array t vs) (.array ⟨some head.name, t.position⟩ items)

/-- The rules look at nothing but how the arguments at hand are read. -/
theorem Binds.imp {R S : Param → Value → Value → Prop} (hRS : ∀ v ∈ vs, ∀ p d, R p v d → S p v d)
    (h : Binds R ps vs items) : Binds S ps vs items := by
  cases h with
  | mk hplaces hlen hall =>
    refine .mk hplaces hlen fun i p d hp hd => ?_
    cases hall i p d hp hd with
    | argument hv hr => exact .argument hv (hRS _ (List.of_mem_zip hv).2 p d hr)
    | default hi hdefault => exact .default hi hdefault

/-! ## Slots -/

/-- **Slots that hold the items of taken places**, and nothing elsewhere. -/
def HoldsAt (items : List Value) (taken : List Nat) (slots : List (Option Value)) : Prop :=
  slots.length = items.length ∧
    ∀ i d, items[i]? = some d → slots[i]? = some (if i ∈ taken then some d else none)

theorem holdsAt_empty (hlen : items.length = ps.length) :
    HoldsAt items [] (Binding.empty ps).slots := by
  have hslots : (Binding.empty ps).slots.length = items.length := by
    rw [hlen]
    exact List.length_map _
  refine ⟨hslots, fun i d hd => ?_⟩
  have hi : i < (Binding.empty ps).slots.length := by
    rw [hslots]
    exact (List.getElem?_eq_some_iff.1 hd).1
  rw [List.getElem?_eq_getElem hi]
  simp [Binding.empty]

/-- Only which places are taken matters. -/
theorem HoldsAt.congr {taken' : List Nat} (h : HoldsAt items taken slots)
    (hmem : ∀ i, i ∈ taken' ↔ i ∈ taken) : HoldsAt items taken' slots := by
  refine ⟨h.1, fun i d hd => ?_⟩
  rw [h.2 i d hd]
  simp only [hmem]

/-- One more place is taken, by its item. -/
theorem HoldsAt.set (h : HoldsAt items taken slots) (hd : items[i]? = some d) :
    HoldsAt items (i :: taken) (slots.set i (some d)) := by
  refine ⟨by rw [List.length_set, h.1], fun j e he => ?_⟩
  by_cases hj : i = j
  · subst hj
    have hlt : i < slots.length := by
      rw [h.1]
      exact (List.getElem?_eq_some_iff.1 hd).1
    rw [hd] at he
    rw [List.getElem?_set_self hlt, if_pos List.mem_cons_self, he]
  · rw [List.getElem?_set_ne hj, h.2 j e he]
    have hmem : j ∈ i :: taken ↔ j ∈ taken := by
      rw [List.mem_cons, or_iff_right (Ne.symm hj)]
    simp only [hmem]

/-- A slot is free if its place is not taken. -/
theorem HoldsAt.notMem (h : HoldsAt items taken slots) (hfree : slots[i]? = some none) :
    i ∉ taken := by
  have hi : i < items.length := by
    rw [← h.1]
    exact (List.getElem?_eq_some_iff.1 hfree).1
  intro hmem
  have hslot := h.2 i _ (List.getElem?_eq_getElem hi)
  rw [hfree, if_pos hmem] at hslot
  cases hslot

/-- No slot from an index on is filled if all taken places are before it. -/
theorem HoldsAt.any_drop (h : HoldsAt items taken slots) (m : Nat) :
    (slots.drop m).any Option.isSome = true ↔ ∃ i ∈ taken, m ≤ i ∧ i < items.length := by
  rw [List.any_eq_true]
  constructor
  · rintro ⟨slot, hmem, hsome⟩
    obtain ⟨j, hj⟩ := List.mem_iff_getElem?.1 hmem
    rw [List.getElem?_drop] at hj
    have hlt : m + j < items.length := by
      rw [← h.1]
      exact (List.getElem?_eq_some_iff.1 hj).1
    refine ⟨m + j, ?_, Nat.le_add_right m j, hlt⟩
    by_contra hnot
    have hslot := h.2 _ _ (List.getElem?_eq_getElem hlt)
    rw [hj, if_neg hnot] at hslot
    cases hslot
    cases hsome
  · rintro ⟨i, hi, hle, hlt⟩
    refine ⟨some items[i], List.mem_iff_getElem?.2 ⟨i - m, ?_⟩, rfl⟩
    rw [List.getElem?_drop, Nat.add_sub_cancel' hle, h.2 i _ (List.getElem?_eq_getElem hlt),
      if_pos hi]

/-- Slots are completed to the items that they hold or leave to defaults. -/
theorem complete_of_getElem? : ∀ {slots : List (Option Value)} {ps : List Param}
    {items : List Value}, slots.length = items.length → items.length = ps.length →
      (∀ (i : Nat) (slot : Option Value) (p : Param) (d : Value), slots[i]? = some slot →
        ps[i]? = some p → items[i]? = some d → slot.or p.default? = some d) →
          Binding.complete slots ps = some items := by
  intro slots
  induction slots with
  | nil =>
    intro ps items hslots _ _
    rw [List.length_nil] at hslots
    obtain rfl := List.length_eq_zero_iff.1 hslots.symm
    rfl
  | cons slot slots ih =>
    intro ps items hslots hlen h
    cases items with
    | nil => cases hslots
    | cons d items =>
      cases ps with
      | nil => cases hlen
      | cons p ps =>
        have hrest : Binding.complete slots ps = some items :=
          ih (Nat.succ.inj hslots) (Nat.succ.inj hlen) fun i => h (i + 1)
        rw [Binding.complete, h 0 slot p d rfl rfl rfl, hrest]

/-- **What slots leave out is left to defaults.** -/
theorem HoldsAt.complete_iff (h : HoldsAt items taken slots) (hlen : items.length = ps.length) :
    Binding.complete slots ps = some items ↔
      ∀ i p d, ps[i]? = some p → items[i]? = some d → i ∉ taken → p.default? = some d := by
  constructor
  · intro hcomplete i p d hp hd hi
    have hslot := h.2 i d hd
    rw [if_neg hi] at hslot
    rw [← hd, getElem?_of_complete hcomplete hslot hp]
    rfl
  · intro hdefaults
    refine complete_of_getElem? h.1 hlen fun i slot p d hslot hp hd => ?_
    rw [h.2 i d hd] at hslot
    split at hslot
    · cases hslot
      rfl
    · rename_i hi
      cases hslot
      exact hdefaults i p d hp hd hi

/-! ## One argument -/

/-- An item is what the argument at its place is read as. -/
def ReadAt (ps : List Param) (items : List Value) (i : Nat) (v : Value) : Prop :=
  ∃ p d, ps[i]? = some p ∧ items[i]? = some d ∧ v.resolve p = some d

theorem ReadAt.lt_length (h : ReadAt ps items i v) : i < ps.length := by
  obtain ⟨p, d, hp, -⟩ := h
  exact (List.getElem?_eq_some_iff.1 hp).1

/-- **An argument that goes to a free place is bound there.** -/
theorem resolveAll_cons_of_readAt (vs : List Value) (h : HoldsAt items taken b.slots)
    (htarget : b.target ps v.name = some i) (hi : i ∉ taken) (hv : ReadAt ps items i v) :
    ∃ d, HoldsAt items (i :: taken) (b.bind i v.name d).slots ∧
      Value.resolveAll ps b (v :: vs) = Value.resolveAll ps (b.bind i v.name d) vs := by
  obtain ⟨p, d, hp, hd, hread⟩ := hv
  have hslot : b.slots[i]? = some none := by
    rw [h.2 i d hd, if_neg hi]
  exact ⟨d, h.set hd, Value.resolveAll_cons_of_target htarget hp hslot hread⟩

/-- What slots hold is what the items are. -/
def FinalItems (ps : List Param) (items : List Value) (slots : List (Option Value)) : Prop :=
  ∀ (i : Nat) (p : Param) (d : Value), ps[i]? = some p → slots[i]? = some (some d) →
    items[i]? = some d

/-- **An argument that is bound went to a free place**, and what it is read as
is the item there, if it is one in the end. -/
theorem readAt_of_resolveAll_cons (h : HoldsAt items taken b.slots)
    (hfinal : FinalItems ps items b'.slots)
    (hb : Value.resolveAll ps b (v :: vs) = some b') :
    ∃ i d, b.target ps v.name = some i ∧ i ∉ taken ∧ ReadAt ps items i v ∧
      HoldsAt items (i :: taken) (b.bind i v.name d).slots ∧
      Value.resolveAll ps (b.bind i v.name d) vs = some b' := by
  obtain ⟨i, p, d, htarget, hp, hfree, hread, hrest⟩ := resolveAll_cons_eq_some hb
  have hslot : (b.bind i v.name d).slots[i]? = some (some d) :=
    List.getElem?_set_self (List.getElem?_eq_some_iff.1 hfree).1
  have hd : items[i]? = some d := hfinal i p d hp (slot_of_resolveAll hrest hslot)
  exact ⟨i, d, htarget, h.notMem hfree, ⟨p, d, hp, hd, hread⟩, h.set hd, hrest⟩

/-- The parameter of an argument with a name. -/
theorem target_eq_some_iff {n : String} (hn : v.name = some n) :
    b.target ps v.name = some i ↔ NamesPlace ps v i := by
  unfold Binding.target NamesPlace
  rw [hn]
  simp

/-- The parameter of an argument without a name, where the places taken are
the first ones. -/
theorem target_of_range (h : HoldsAt items (List.range b.next) b.slots) :
    b.target ps none = some b.next := by
  have hfree : (b.slots.drop b.next).any Option.isSome = false := by
    rw [Bool.eq_false_iff, Ne, h.any_drop]
    rintro ⟨i, hi, hle, -⟩
    have hlt := List.mem_range.1 hi
    omega
  unfold Binding.target
  simp only [hfree]
  rfl

/-- Behind an argument with a name there are only such arguments. -/
theorem exists_name_of_target (h : HoldsAt items taken b.slots)
    (hpast : ∃ i ∈ taken, b.next ≤ i ∧ i < items.length) (htarget : b.target ps v.name = some i) :
    ∃ n, v.name = some n := by
  cases hn : v.name with
  | some n => exact ⟨n, rfl⟩
  | none =>
    rw [hn] at htarget
    unfold Binding.target at htarget
    simp only [(h.any_drop b.next).2 hpast] at htarget
    cases htarget

/-! ## All arguments -/

/-- **Arguments with names that are bound** went each to a place of its own. -/
theorem names_of_resolveAll (h : HoldsAt items taken b.slots)
    (hpast : ∃ i ∈ taken, b.next ≤ i ∧ i < items.length) (hfinal : FinalItems ps items b'.slots)
    (hb : Value.resolveAll ps b vs = some b') :
    ∃ indices, List.Forall₂ (NamesPlace ps) vs indices ∧ (∀ i ∈ indices, i ∉ taken) ∧
      indices.Nodup ∧ List.Forall₂ (ReadAt ps items) indices vs ∧
      HoldsAt items (taken ++ indices) b'.slots := by
  induction vs generalizing b taken with
  | nil =>
    cases hb
    refine ⟨[], .nil, by simp, List.nodup_nil, .nil, ?_⟩
    rw [List.append_nil]
    exact h
  | cons v vs ih =>
    obtain ⟨i, d, htarget, hi, hread, hslots, hrest⟩ := readAt_of_resolveAll_cons h hfinal hb
    obtain ⟨n, hn⟩ := exists_name_of_target h hpast htarget
    have hnext : (b.bind i v.name d).next = b.next := by
      rw [hn]
      rfl
    obtain ⟨j, hj, hle, hlt⟩ := hpast
    obtain ⟨indices, hnames, hfree, hnodup, hreads, hfull⟩ :=
      ih hslots ⟨j, List.mem_cons_of_mem _ hj, by rw [hnext]; exact hle, hlt⟩ hrest
    refine ⟨i :: indices, .cons ((target_eq_some_iff hn).1 htarget) hnames,
      List.forall_mem_cons.2 ⟨hi, fun j hj hmem => hfree j hj (List.mem_cons_of_mem _ hmem)⟩,
      List.nodup_cons.2 ⟨fun hmem => hfree i hmem List.mem_cons_self, hnodup⟩,
      .cons hread hreads, hfull.congr fun j => ?_⟩
    simp only [List.mem_append, List.mem_cons]
    tauto

/-- **Arguments that are bound**, where the places taken are the first ones:
those without names went on in order, and those with names, behind them, went
each to a place of its own. -/
theorem places_of_resolveAll (h : HoldsAt items (List.range b.next) b.slots)
    (hfinal : FinalItems ps items b'.slots) (hb : Value.resolveAll ps b vs = some b') :
    ∃ unnamed named indices, vs = unnamed ++ named ∧ (∀ v ∈ unnamed, v.name = none) ∧
      List.Forall₂ (NamesPlace ps) named indices ∧
      (∀ i ∈ indices, b.next + unnamed.length ≤ i) ∧ indices.Nodup ∧
      List.Forall₂ (ReadAt ps items) (List.range' b.next unnamed.length ++ indices) vs ∧
      HoldsAt items (List.range (b.next + unnamed.length) ++ indices) b'.slots := by
  induction vs generalizing b with
  | nil =>
    cases hb
    refine ⟨[], [], [], rfl, by simp, .nil, by simp, List.nodup_nil, .nil, ?_⟩
    rw [List.append_nil]
    exact h
  | cons v vs ih =>
    obtain ⟨i, d, htarget, hi, hread, hslots, hrest⟩ := readAt_of_resolveAll_cons h hfinal hb
    cases hn : v.name with
    | none =>
      rw [hn] at htarget hslots hrest
      rw [target_of_range h] at htarget
      obtain rfl := Option.some.inj htarget
      have hrange : HoldsAt items (List.range (b.bind b.next none d).next)
          (b.bind b.next none d).slots := by
        refine hslots.congr fun j => ?_
        change j ∈ List.range (b.next + 1) ↔ _
        rw [List.mem_range, List.mem_cons, List.mem_range]
        omega
      obtain ⟨unnamed, named, indices, rfl, hunnamed, hnames, hbehind, hnodup, hreads, hfull⟩ :=
        ih hrange hrest
      have hlen : b.next + (v :: unnamed).length =
          (b.bind b.next none d).next + unnamed.length := by
        rw [List.length_cons, Nat.add_comm unnamed.length, ← Nat.add_assoc]
        rfl
      refine ⟨v :: unnamed, named, indices, rfl, List.forall_mem_cons.2 ⟨hn, hunnamed⟩, hnames,
        fun i hi => by rw [hlen]; exact hbehind i hi, hnodup, .cons hread hreads, ?_⟩
      rw [hlen]
      exact hfull
    | some n =>
      have hpast : ∃ j ∈ i :: List.range b.next,
          (b.bind i v.name d).next ≤ j ∧ j < items.length := by
        obtain ⟨p, e, -, he, -⟩ := hread
        rw [List.mem_range, Nat.not_lt] at hi
        refine ⟨i, List.mem_cons_self, ?_, (List.getElem?_eq_some_iff.1 he).1⟩
        rw [hn]
        exact hi
      obtain ⟨indices, hnames, hfree, hnodup, hreads, hfull⟩ :=
        names_of_resolveAll hslots hpast hfinal hrest
      refine ⟨[], v :: vs, i :: indices, rfl, by simp,
        .cons ((target_eq_some_iff hn).1 htarget) hnames, fun j hj => ?_,
        List.nodup_cons.2 ⟨fun hmem => hfree i hmem List.mem_cons_self, hnodup⟩,
        .cons hread hreads, hfull.congr fun j => ?_⟩
      · have hnot : j ∉ List.range b.next := by
          rcases List.mem_cons.1 hj with rfl | hj
          · exact hi
          · exact fun hmem => hfree j hj (List.mem_cons_of_mem _ hmem)
        rwa [List.mem_range, Nat.not_lt] at hnot
      · simp only [List.length_nil, Nat.add_zero, List.mem_append, List.mem_cons]
        tauto

/-- **Arguments with names are bound**, if they have places of their own. -/
theorem resolveAll_of_names (hnames : List.Forall₂ (NamesPlace ps) vs indices)
    (h : HoldsAt items taken b.slots) (hfree : ∀ i ∈ indices, i ∉ taken) (hnodup : indices.Nodup)
    (hread : List.Forall₂ (ReadAt ps items) indices vs) :
    ∃ b', Value.resolveAll ps b vs = some b' ∧ HoldsAt items (taken ++ indices) b'.slots := by
  induction hnames generalizing b taken with
  | nil =>
    rw [List.append_nil]
    exact ⟨b, rfl, h⟩
  | @cons v i vs indices hv _ ih =>
    obtain ⟨hi, hfree⟩ := List.forall_mem_cons.1 hfree
    obtain ⟨hnew, hnodup⟩ := List.nodup_cons.1 hnodup
    obtain ⟨hfirst, hread⟩ := List.forall₂_cons.1 hread
    obtain ⟨n, hn, -⟩ := id hv
    obtain ⟨d, hslots, hstep⟩ :=
      resolveAll_cons_of_readAt vs h ((target_eq_some_iff hn).2 hv) hi hfirst
    have hfree : ∀ j ∈ indices, j ∉ i :: taken := by
      intro j hj hmem
      rcases List.mem_cons.1 hmem with rfl | hmem
      · exact hnew hj
      · exact hfree j hj hmem
    obtain ⟨b', hb', hfull⟩ := ih hslots hfree hnodup hread
    refine ⟨b', hstep.trans hb', hfull.congr fun j => ?_⟩
    simp only [List.mem_append, List.mem_cons]
    tauto

/-- **Arguments without names are bound** in order, behind those before. -/
theorem resolveAll_of_unnamed (h : HoldsAt items (List.range b.next) b.slots)
    (hvs : ∀ v ∈ vs, v.name = none)
    (hread : List.Forall₂ (ReadAt ps items) (List.range' b.next vs.length) vs) :
    ∃ b', Value.resolveAll ps b vs = some b' ∧
      HoldsAt items (List.range (b.next + vs.length)) b'.slots := by
  induction vs generalizing b with
  | nil => exact ⟨b, rfl, h⟩
  | cons v vs ih =>
    obtain ⟨hn, hvs⟩ := List.forall_mem_cons.1 hvs
    rw [List.length_cons, List.range'_succ] at hread
    obtain ⟨hfirst, hread⟩ := List.forall₂_cons.1 hread
    have htarget : b.target ps v.name = some b.next := by
      rw [hn]
      exact target_of_range h
    obtain ⟨d, hslots, hstep⟩ :=
      resolveAll_cons_of_readAt vs h htarget (by simp) hfirst
    rw [hn] at hslots hstep
    have hrange : HoldsAt items (List.range (b.bind b.next none d).next)
        (b.bind b.next none d).slots := by
      refine hslots.congr fun j => ?_
      change j ∈ List.range (b.next + 1) ↔ _
      rw [List.mem_range, List.mem_cons, List.mem_range]
      omega
    obtain ⟨b', hb', hfull⟩ := ih hrange hvs hread
    refine ⟨b', hstep.trans hb', hfull.congr fun j => ?_⟩
    change _ ↔ j ∈ List.range (b.next + 1 + vs.length)
    rw [List.length_cons, List.mem_range, List.mem_range]
    omega

/-! ## The rules and the slots -/

/-- At one place there is one argument. -/
theorem eq_of_mem_zip {w : Value} (hnodup : places.Nodup) (hv : (i, v) ∈ places.zip vs)
    (hw : (i, w) ∈ places.zip vs) : v = w := by
  obtain ⟨j, hj⟩ := List.mem_iff_getElem?.1 hv
  obtain ⟨k, hk⟩ := List.mem_iff_getElem?.1 hw
  obtain ⟨hplace, hv⟩ := List.getElem?_zip_eq_some.1 hj
  obtain ⟨hplace', hw⟩ := List.getElem?_zip_eq_some.1 hk
  have hlt : j < places.length := (List.getElem?_eq_some_iff.1 hplace).1
  obtain rfl := (List.getElem?_inj hlt hnodup).1 (hplace.trans hplace'.symm)
  exact Option.some.inj (hv.symm.trans hw)

/-- The item at a place is what its argument is read as. -/
theorem exists_argument (h : List.Forall₂ (ReadAt ps items) places vs) (hi : i ∈ places)
    (hp : ps[i]? = some p) (hd : items[i]? = some d) :
    ∃ v, (i, v) ∈ places.zip vs ∧ v.resolve p = some d := by
  induction h with
  | nil => cases hi
  | @cons j v places vs hread _ ih =>
    rcases List.mem_cons.1 hi with rfl | hi
    · obtain ⟨q, e, hq, he, hv⟩ := hread
      cases hq.symm.trans hp
      cases he.symm.trans hd
      exact ⟨v, List.mem_cons_self, hv⟩
    · obtain ⟨w, hw, hread⟩ := ih hi
      exact ⟨w, List.mem_cons_of_mem _ hw, hread⟩

/-- **What parameters stand for** is what the arguments at their places are
read as. -/
theorem reads_of_standsFor (hplaces : Places ps vs places) (hlen : items.length = ps.length)
    (hall : ∀ i p d, ps[i]? = some p → items[i]? = some d →
      StandsFor (fun p v d => v.resolve p = some d) vs places i p d) :
    List.Forall₂ (ReadAt ps items) places vs := by
  refine List.forall₂_iff_zip.2 ⟨hplaces.length_eq, fun {i v} hv => ?_⟩
  have hmem : i ∈ places := (List.of_mem_zip hv).1
  have hi : i < ps.length := hplaces.lt_length i hmem
  have hp : ps[i]? = some ps[i] := List.getElem?_eq_getElem hi
  have hd : items[i]? = some items[i] := List.getElem?_eq_getElem (hlen ▸ hi)
  refine ⟨ps[i], items[i], hp, hd, ?_⟩
  cases hall i _ _ hp hd with
  | argument hw hread => rwa [eq_of_mem_zip hplaces.nodup hv hw]
  | default hnot => exact absurd hmem hnot

/-- **Arguments that are resolved keep to the rules.** -/
theorem binds_of_resolveList (h : resolveList ps vs = some items) :
    Binds (fun p v d => v.resolve p = some d) ps vs items := by
  obtain ⟨b, hb, hcomplete⟩ := Option.bind_eq_some_iff.1 h
  have hlen : items.length = ps.length := (forall₂_source h).length_eq.symm
  have hfinal : FinalItems ps items b.slots := by
    intro i p d hp hslot
    rw [getElem?_of_complete hcomplete hslot hp]
    rfl
  obtain ⟨unnamed, named, indices, rfl, hunnamed, hnames, hbehind, hnodup, hreads, hfull⟩ :=
    places_of_resolveAll (holdsAt_empty hlen) hfinal hb
  have hnext : (Binding.empty ps).next = 0 := rfl
  rw [hnext, Nat.zero_add] at hbehind hfull
  rw [hnext, ← List.range_eq_range'] at hreads
  have hle : unnamed.length ≤ ps.length := by
    by_contra hgt
    have hmem : ps.length ∈ List.range unnamed.length ++ indices :=
      List.mem_append_left _ (List.mem_range.2 (Nat.lt_of_not_le hgt))
    have hlt := lt_length_of_forall₂ (fun _ _ h => ReadAt.lt_length h) hreads.flip _ hmem
    exact Nat.lt_irrefl _ hlt
  refine .mk (.mk hunnamed hle hnames hbehind hnodup) hlen fun i p d hp hd => ?_
  by_cases hi : i ∈ List.range unnamed.length ++ indices
  · obtain ⟨v, hv, hread⟩ := exists_argument hreads hi hp hd
    exact .argument hv hread
  · exact .default hi ((hfull.complete_iff hlen).1 hcomplete i p d hp hd hi)

/-- **Arguments that keep to the rules are resolved.** -/
theorem resolveList_of_binds (h : Binds (fun p v d => v.resolve p = some d) ps vs items) :
    resolveList ps vs = some items := by
  cases h with
  | @mk places _ _ _ hplaces hlen hall =>
    have hreads := reads_of_standsFor hplaces hlen hall
    have hdefaults : ∀ i p d, ps[i]? = some p → items[i]? = some d → i ∉ places →
        p.default? = some d := by
      intro i p d hp hd hi
      cases hall i p d hp hd with
      | argument hv => exact absurd (List.of_mem_zip hv).1 hi
      | default _ hdefault => exact hdefault
    cases hplaces with
    | @mk unnamed named indices hunnamed hle hnames hbehind hnodup =>
      have hfront : List.Forall₂ (ReadAt ps items) (List.range unnamed.length) unnamed := by
        simpa using List.forall₂_take unnamed.length hreads
      have hback : List.Forall₂ (ReadAt ps items) indices named := by
        simpa using List.forall₂_drop unnamed.length hreads
      have hnext : (Binding.empty ps).next = 0 := rfl
      obtain ⟨b, hb, hslots⟩ := resolveAll_of_unnamed (holdsAt_empty hlen) hunnamed
        (by rw [hnext, ← List.range_eq_range']; exact hfront)
      rw [hnext, Nat.zero_add] at hslots
      have hfree : ∀ i ∈ indices, i ∉ List.range unnamed.length := fun i hi => by
        rw [List.mem_range, Nat.not_lt]
        exact hbehind i hi
      obtain ⟨b', hb', hfull⟩ := resolveAll_of_names hnames hslots hfree hnodup hback
      rw [resolveList, resolveAll_append, hb, Option.bind_some, hb', Option.bind_some]
      exact (hfull.complete_iff hlen).2 hdefaults

/-- **The rules for one argument decide what it is read as**, where they do for
the items of an array. -/
theorem resolve_iff_of_items {head : ParamHead} {t : Tag}
    (hvs : ∀ v ∈ vs, ∀ p d, v.resolve p = some d ↔ Resolves p v d) :
    (Value.array t vs).resolve (.array head ps) = some d ↔
      Resolves (.array head ps) (.array t vs) d := by
  constructor
  · intro h
    obtain ⟨_, _, items, ⟨⟩, hitems, rfl⟩ := Value.resolve_array_eq_some h
    exact .array ((binds_of_resolveList hitems).imp fun v hv p d => (hvs v hv p d).1)
  · intro h
    cases h with
    | array hitems =>
      rw [Value.resolve_array, resolveList_of_binds (hitems.imp fun v hv p d => (hvs v hv p d).2)]
      rfl

mutual

/-- **One argument is read by the rules.** -/
theorem resolve_eq_some_iff : (v : Value) → (p : Param) → (d : Value) →
    (v.resolve p = some d ↔ Resolves p v d)
  | .scalar t k s, p, d => by
    constructor
    · intro h
      obtain ⟨head, kind, k', rfl, hk, rfl⟩ := Value.resolve_scalar_eq_some h
      cases kind with
      | scalar asked =>
        obtain ⟨hreads, rfl⟩ := Option.ite_some_none_eq_some.1 hk
        exact .typed hreads
      | any =>
        cases hk
        exact .any
      | array => cases hk
      | unknown _ => cases hk
    · intro h
      cases h with
      | typed hreads =>
        rw [Value.resolve, Value.coerce, Kind.coerce, if_pos hreads]
        rfl
      | any => rfl
  | .array t vs, p, d => by
    cases p with
    | scalar head kind =>
      constructor
      · intro h
        cases h
      · intro h
        cases h
    | array head ps => exact resolve_iff_of_items (resolve_iff_of_mem vs)

/-- All arguments are read by the rules. -/
theorem resolve_iff_of_mem : (vs : List Value) → ∀ v ∈ vs, ∀ p d,
    v.resolve p = some d ↔ Resolves p v d
  | [] => by simp
  | v :: vs => List.forall_mem_cons.2 ⟨resolve_eq_some_iff v, resolve_iff_of_mem vs⟩

end

/-- **Arguments are bound by the rules, and only by them**: a list of them is
resolved to items if and only if the rules give these items. -/
theorem resolveList_eq_some_iff :
    resolveList ps vs = some items ↔ Binds Resolves ps vs items := by
  constructor
  · intro h
    exact (binds_of_resolveList h).imp fun v _ p d => (resolve_eq_some_iff v p d).1
  · intro h
    exact resolveList_of_binds (h.imp fun v _ p d => (resolve_eq_some_iff v p d).2)

end Param

end CommandScript
