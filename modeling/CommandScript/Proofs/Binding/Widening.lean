import CommandScript.Proofs.Binding.Detach
import CommandScript.Proofs.Number.Integral
import Mathlib.Order.Defs.PartialOrder

/-!
# Wider parameters

Kinds are ordered by what they accept: an integer is a float, and every scalar
is a string. A signature widens to another that asks for the same arguments, by
the same names and with the same defaults, and for wider kinds of them. It then
accepts no call that the wider one does not, and what the two make of a call
differs in kinds alone (`Signature.resolve_of_widensTo`): each argument goes to
the same place in both, and where it goes it can be read.
-/

namespace CommandScript

/-! ## Lists that are related -/

section Related

variable {α β γ : Type} {R : α → β → Prop} {xs : List α} {ys : List β} {x : α} {y : β} {i : Nat}

/-- What stands at an index has its counterpart there. -/
theorem exists_getElem?_of_forall₂ (h : List.Forall₂ R xs ys) (hx : xs[i]? = some x) :
    ∃ y, ys[i]? = some y ∧ R x y := by
  induction h generalizing i with
  | nil => cases hx
  | cons hhead _ ih =>
    cases i with
    | zero =>
      cases hx
      exact ⟨_, rfl, hhead⟩
    | succ i => exact ih hx

/-- What related members have in common, the lists have. -/
theorem map_eq_map_of_forall₂ {f : α → γ} {g : β → γ} (hfg : ∀ x y, R x y → f x = g y)
    (h : List.Forall₂ R xs ys) : xs.map f = ys.map g := by
  rw [← List.forall₂_eq_eq_eq, List.forall₂_map_left_iff, List.forall₂_map_right_iff]
  exact h.imp hfg

theorem forall₂_set (h : List.Forall₂ R xs ys) (hxy : R x y) (i : Nat) :
    List.Forall₂ R (xs.set i x) (ys.set i y) := by
  induction h generalizing i with
  | nil => exact .nil
  | cons hhead htail ih =>
    cases i with
    | zero => exact .cons hxy htail
    | succ i => exact .cons hhead (ih i)

end Related

/-! ## Wider kinds -/

namespace Kind

/-- **A kind and a wider one.** -/
inductive WidensTo : Kind → Kind → Prop
  | refl (k : Kind) : WidensTo k k
  | float : WidensTo int float
  | string (k : Kind) : WidensTo k string
  | any (k : Kind) : WidensTo k any
  | unknown (name : String) (k : Kind) : WidensTo (unknown name) k

theorem WidensTo.trans {k l m : Kind} (hkl : WidensTo k l) (hlm : WidensTo l m) :
    WidensTo k m := by
  cases hlm with
  | refl => exact hkl
  | string => exact .string k
  | any => exact .any k
  | float =>
    cases hkl with
    | refl => exact .float
    | unknown name => exact .unknown name _
  | unknown name =>
    cases hkl with
    | refl => exact .unknown name m
    | unknown name' => exact .unknown name' m

instance : Preorder Kind where
  le := WidensTo
  le_refl := .refl
  le_trans _ _ _ := .trans

/-- **A wider kind accepts more.** -/
theorem accepts_of_le {k l : Kind} {text : String} (hle : k ≤ l) (h : k.accepts text = true) :
    l.accepts text = true := by
  cases hle with
  | refl => exact h
  | float => exact Number.Binary64.read_isSome_of_readInteger h
  | string => rfl
  | any => rfl
  | unknown => cases h

end Kind

/-! ## Trees that differ in kinds -/

/-- **A value that is another but for its kinds**: shape, names, texts and
places are the same. -/
inductive Value.Retyped : Value → Value → Prop
  | scalar (t : Tag) (k k' : ScalarKind) (s : String) : Retyped (.scalar t k s) (.scalar t k' s)
  | array (t : Tag) {vs ws : List Value} :
      List.Forall₂ Retyped vs ws → Retyped (.array t vs) (.array t ws)

mutual

theorem Value.Retyped.refl : (v : Value) → v.Retyped v
  | .scalar t k s => .scalar t k k s
  | .array t vs => .array t (forall₂_retyped_refl vs)

theorem Value.forall₂_retyped_refl : (vs : List Value) → List.Forall₂ Value.Retyped vs vs
  | [] => .nil
  | v :: vs => .cons (Value.Retyped.refl v) (forall₂_retyped_refl vs)

end

/-! ## Wider parameters -/

/-- **A parameter and a wider one**, of the same name and default: the scalar
asked for is of a wider kind, and so are those inside an array. -/
inductive Param.WidensTo : Param → Param → Prop
  | scalar {head head' : ParamHead} {kind kind' : Kind} :
      head.name = head'.name → head.default = head'.default → kind ≤ kind' →
      WidensTo (.scalar head kind) (.scalar head' kind')
  | array {head head' : ParamHead} {ps qs : List Param} :
      head.name = head'.name → head.default = head'.default → List.Forall₂ WidensTo ps qs →
      WidensTo (.array head ps) (.array head' qs)

/-- A signature and one whose parameters are as wide, one by one. -/
def Signature.WidensTo (s s' : Signature) : Prop :=
  List.Forall₂ Param.WidensTo s.params s'.params

variable {p q : Param} {ps qs : List Param} {b b' : Binding} {i : Nat} {d e v : Value}
  {vs items : List Value}

theorem Param.WidensTo.name_eq (h : p.WidensTo q) : p.name = q.name := by
  cases h with
  | scalar hname _ _ => exact hname
  | array hname _ _ => exact hname

theorem Param.WidensTo.default?_eq (h : p.WidensTo q) : p.default? = q.default? := by
  cases h with
  | scalar _ hdefault _ => exact hdefault
  | array _ hdefault _ => exact hdefault

/-! ## Binding to wider parameters -/

/-- **Bindings that differ in kinds**: the same places are taken. -/
structure Binding.Retyped (b b' : Binding) : Prop where
  /-- What is bound differs in kinds alone. -/
  slots : List.Forall₂ (Option.Rel Value.Retyped) b.slots b'.slots
  /-- As many arguments came without a name. -/
  next : b.next = b'.next

namespace Binding.Retyped

theorem empty (h : List.Forall₂ Param.WidensTo ps qs) :
    (Binding.empty ps).Retyped (Binding.empty qs) := by
  refine ⟨?_, rfl⟩
  unfold Binding.empty
  rw [List.forall₂_map_left_iff, List.forall₂_map_right_iff]
  exact h.imp fun _ _ _ => .none

/-- **An argument goes to the same place.** -/
theorem target_eq (h : b.Retyped b') (hps : List.Forall₂ Param.WidensTo ps qs)
    (label : Option String) : b.target ps label = b'.target qs label := by
  cases label with
  | none =>
    have hfilled : (b.slots.drop b.next).map Option.isSome =
        (b'.slots.drop b'.next).map Option.isSome := by
      rw [h.next]
      refine map_eq_map_of_forall₂ (fun slot slot' hslot => ?_) (List.forall₂_drop _ h.slots)
      cases hslot <;> rfl
    have hany (slots : List (Option Value)) :
        slots.any Option.isSome = (slots.map Option.isSome).any id := by
      rw [List.any_map]
      rfl
    unfold Binding.target
    dsimp only
    rw [hany, hany, hfilled, h.next]
  | some name =>
    have hnames : ps.map Param.name = qs.map Param.name :=
      map_eq_map_of_forall₂ (fun _ _ => Param.WidensTo.name_eq) hps
    have hfind (ps : List Param) : (ps.findIdx? fun p => Text.sameName p.name name) =
        (ps.map Param.name).findIdx? fun n => Text.sameName n name := by
      rw [List.findIdx?_map]
      rfl
    unfold Binding.target
    dsimp only
    rw [hfind, hfind, hnames]

/-- A place that is free in one is free in the other. -/
theorem getElem?_of_free (h : b.Retyped b') (hfree : b.slots[i]? = some none) :
    b'.slots[i]? = some none := by
  obtain ⟨slot, hslot, hsame⟩ := exists_getElem?_of_forall₂ h.slots hfree
  cases hsame
  exact hslot

theorem bind (h : b.Retyped b') (hde : d.Retyped e) (i : Nat) (label : Option String) :
    (b.bind i label d).Retyped (b'.bind i label e) := by
  refine ⟨forall₂_set h.slots (.some hde) i, ?_⟩
  unfold Binding.bind
  dsimp only
  rw [h.next]

/-- **Both are completed alike**, with the same defaults. -/
theorem complete {slots slots' : List (Option Value)}
    (h : List.Forall₂ (Option.Rel Value.Retyped) slots slots')
    (hps : List.Forall₂ Param.WidensTo ps qs) (hitems : Binding.complete slots ps = some items) :
    ∃ items', Binding.complete slots' qs = some items' ∧
      List.Forall₂ Value.Retyped items items' := by
  induction h generalizing ps qs items with
  | nil =>
    cases hitems
    exact ⟨[], rfl, .nil⟩
  | @cons slot slot' slots slots' hslot _ ih =>
    cases hps with
    | nil =>
      cases hitems
      exact ⟨[], rfl, .nil⟩
    | @cons p q ps qs hp hps =>
      rw [Binding.complete] at hitems ⊢
      split at hitems
      · rename_i v vs hv hvs
        cases hitems
        obtain ⟨ws, hws, hsame⟩ := ih hps hvs
        have hfirst : ∃ w, slot'.or q.default? = some w ∧ v.Retyped w := by
          cases hslot with
          | none => exact ⟨v, hp.default?_eq ▸ hv, .refl v⟩
          | some hdw =>
            cases hv
            exact ⟨_, rfl, hdw⟩
        obtain ⟨w, hw, hvw⟩ := hfirst
        rw [hw, hws]
        exact ⟨w :: ws, rfl, .cons hvw hsame⟩
      · cases hitems

end Binding.Retyped

/-- If arguments are bound to the one as to the other, they are completed as
well. -/
theorem Param.resolveList_of_bound (hps : List.Forall₂ Param.WidensTo ps qs)
    (hbound : ∀ c, Value.resolveAll ps (.empty ps) vs = some c →
      ∃ c', Value.resolveAll qs (.empty qs) vs = some c' ∧ c.Retyped c')
    (h : resolveList ps vs = some items) :
    ∃ items', resolveList qs vs = some items' ∧ List.Forall₂ Value.Retyped items items' := by
  obtain ⟨c, hc, hcomplete⟩ := Option.bind_eq_some_iff.1 h
  obtain ⟨c', hc', hsame⟩ := hbound c hc
  obtain ⟨items', hitems', hall⟩ := Binding.Retyped.complete hsame.slots hps hcomplete
  exact ⟨items', Option.bind_eq_some_iff.2 ⟨c', hc', hitems'⟩, hall⟩

namespace Value

/-- **A scalar is read as the wider kind.** -/
theorem resolve_scalar_of_widensTo {t : Tag} {k : ScalarKind} {s : String} (hpq : p.WidensTo q)
    (h : (scalar t k s).resolve p = some d) :
    ∃ e, (scalar t k s).resolve q = some e ∧ d.Retyped e := by
  obtain ⟨head, kind, k', rfl, hk, rfl⟩ := resolve_scalar_eq_some h
  cases hpq with
  | @scalar _ head' _ kind' hname _ hle =>
    have haccepts : kind.accepts s = true := by
      rw [← Kind.coerce_isSome k, hk]
      rfl
    have hread : (kind'.coerce k s).isSome = true := by
      rw [Kind.coerce_isSome]
      exact Kind.accepts_of_le hle haccepts
    obtain ⟨k'', hk''⟩ := Option.isSome_iff_exists.1 hread
    refine ⟨scalar ⟨some head'.name, t.position⟩ k'' s, ?_, ?_⟩
    · rw [resolve, coerce, hk'']
      rfl
    · rw [hname]
      exact .scalar _ _ _ _

mutual

/-- **What a parameter takes, a wider one takes**, and makes the same of it but
for kinds. -/
theorem resolve_of_widensTo : (v : Value) → ∀ {p q : Param} {d : Value}, p.WidensTo q →
    v.resolve p = some d → ∃ e, v.resolve q = some e ∧ d.Retyped e
  | .scalar t k s, _, _, _, hpq, h => resolve_scalar_of_widensTo hpq h
  | .array t vs, p, q, d, hpq, h => by
    cases hpq with
    | scalar => cases h
    | @array head head' ps qs hname _ hps =>
      rw [resolve_array, Option.map_eq_some_iff] at h
      obtain ⟨items, hitems, rfl⟩ := h
      obtain ⟨items', hitems', hall⟩ := Param.resolveList_of_bound hps
        (fun _ => resolveAll_of_widensTo vs hps (.empty hps)) hitems
      refine ⟨array ⟨some head'.name, t.position⟩ items', ?_, ?_⟩
      · rw [resolve_array, hitems']
        rfl
      · rw [hname]
        exact .array _ hall

/-- **Arguments that are bound to parameters are bound to wider ones.** -/
theorem resolveAll_of_widensTo : (vs : List Value) → ∀ {ps qs : List Param} {b b' c : Binding},
    List.Forall₂ Param.WidensTo ps qs → b.Retyped b' → resolveAll ps b vs = some c →
    ∃ c', resolveAll qs b' vs = some c' ∧ c.Retyped c'
  | [], _, _, _, _, _, _, hsame, h => by
    cases h
    exact ⟨_, rfl, hsame⟩
  | v :: vs, ps, qs, b, b', c, hps, hsame, h => by
    obtain ⟨i, p, d, htarget, hp, hfree, hd, hrest⟩ := Param.resolveAll_cons_eq_some h
    obtain ⟨q, hq, hpq⟩ := exists_getElem?_of_forall₂ hps hp
    obtain ⟨e, he, hde⟩ := resolve_of_widensTo v hpq hd
    rw [hsame.target_eq hps] at htarget
    rw [resolveAll_cons_of_target htarget hq (hsame.getElem?_of_free hfree) he]
    exact resolveAll_of_widensTo vs hps (hsame.bind hde i v.name) hrest

end

end Value

namespace Signature

variable {s s' : Signature} {arguments : Value}

/-- **A call that a signature accepts, a wider one accepts**, and makes the same
of it but for kinds. -/
theorem resolve_of_widensTo (h : s.WidensTo s') (hv : s.resolve arguments = some v) :
    ∃ w, s'.resolve arguments = some w ∧ v.Retyped w := by
  cases arguments with
  | scalar _ _ _ => cases hv
  | array t vs =>
    rw [resolve, Option.map_eq_some_iff] at hv
    obtain ⟨items, hitems, rfl⟩ := hv
    obtain ⟨items', hitems', hsame⟩ := Param.resolveList_of_bound h
      (fun _ => Value.resolveAll_of_widensTo vs h (.empty h)) hitems
    refine ⟨.list items' t.position, ?_, .array _ hsame⟩
    rw [resolve, hitems']
    rfl

/-- What accepts a call is no narrower than what does not. -/
theorem not_widensTo_of_resolve (hv : s.resolve arguments = some v)
    (hnone : s'.resolve arguments = none) : ¬ s.WidensTo s' := by
  intro h
  obtain ⟨w, hw, -⟩ := resolve_of_widensTo h hv
  rw [hnone] at hw
  cases hw

end Signature

end CommandScript
