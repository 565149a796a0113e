import CommandScript.Proofs.Signature.Default

/-!
# Typed arguments

What a handler may rely on: an argument tree that conforms to the parameters
it was resolved for (`Conforms`). Each item carries the name of its
parameter, a scalar is of the kind asked for and its text can be read as
that, and an array conforms to the parameters of its own. Defaults conform
because they are settled, and everything else because it was read as its
parameter asks (`conforms_of_resolve`). Nothing conforms where a name of no
type stands, and so a parameter with such a name inside it resolves nothing
(`resolve_eq_none_of_mentions`).
-/

namespace CommandScript

namespace Value

/-! ## Scalars that can be read -/

/-- **A scalar of a kind** whose text can be read as it. -/
def IsRead (v : Value) (k : ScalarKind) : Prop :=
  v.kind = .scalar k ∧
    match k with
    | .string => True
    | .int => v.int?.isSome = true
    | .float => v.float?.isSome = true
    | .bool => v.bool?.isSome = true

/-- **What can stand where a kind is asked for**: a scalar of that kind, and
any scalar under `any`. -/
def HasKind (v : Value) : Kind → Prop
  | .scalar k => v.IsRead k
  | .any => ∃ k, v.IsRead k
  | .array => False
  | .unknown _ => False

/-- A value whose scalars can be read as the kinds they have, all the way
down. -/
inductive Legible : Value → Prop
  | scalar {t : Tag} {k : ScalarKind} {s : String} :
      k.reads s = true → Legible (scalar t k s)
  | array {t : Tag} {vs : List Value} : (∀ v ∈ vs, Legible v) → Legible (array t vs)

variable {t : Tag} {k : ScalarKind} {s : String}

theorem isRead_scalar (h : k.reads s = true) : (scalar t k s).IsRead k := by
  refine ⟨rfl, ?_⟩
  cases k with
  | string => trivial
  | _ => exact h

/-- **A scalar read as a kind is one of the kind**, whatever it was before. -/
theorem hasKind_of_coerce {kind : Kind} {k' : ScalarKind} (hk : k.reads s = true)
    (h : kind.coerce k s = some k') : (scalar t k' s).HasKind kind := by
  cases kind with
  | scalar asked =>
    have hcoerce : (if asked.reads s = true then some asked else none) = some k' := h
    split at hcoerce
    · rename_i hreads
      cases hcoerce
      exact isRead_scalar hreads
    · cases hcoerce
  | any =>
    obtain rfl : k = k' := Option.some.inj h
    exact ⟨k, isRead_scalar hk⟩
  | array => cases h
  | unknown _ => cases h

/-- The kind that a printed scalar shows is one that its text can be read
as. -/
theorem reads_shownKind (k : ScalarKind) (s : String) : (shownKind k s).reads s = true := by
  unfold shownKind
  split
  · rfl
  · exact ScalarKind.reads_ofText s

end Value

namespace Param

/-! ## Trees that conform -/

/-- **A value that conforms to a parameter**: under its name, and of the kind
it asks for or, item by item, of what the parameters inside it ask for. -/
inductive Conforms : Param → Value → Prop
  | scalar {head : ParamHead} {kind : Kind} {v : Value} :
      v.name = some head.name → v.HasKind kind → Conforms (.scalar head kind) v
  | array {head : ParamHead} {ps : List Param} {t : Tag} {items : List Value} :
      t.name = some head.name → List.Forall₂ Conforms ps items →
      Conforms (.array head ps) (.array t items)

variable {p : Param} {ps : List Param} {d v : Value} {vs items : List Value} {n : String}

/-- A settled default conforms. -/
theorem conforms_of_settled (h : Settled p d) : Conforms p d := by
  induction h with
  | scalar hk _ => exact .scalar rfl (Value.hasKind_of_coerce (Value.reads_shownKind _ _) hk)
  | array hlen _ ih => exact .array rfl (forall₂_iff_getElem?.2 ⟨hlen, ih⟩)

/-- **What a value resolves to conforms**, however its arguments were passed
and whichever were left out. -/
theorem conforms_of_resolve (hv : v.Legible) : ∀ {p : Param} {d : Value}, Sound p →
    v.resolve p = some d → Conforms p d := by
  induction hv with
  | scalar hk =>
    intro p d _ h
    obtain ⟨head, kind, k', rfl, hcoerce, rfl⟩ := Value.resolve_scalar_eq_some h
    exact .scalar rfl (Value.hasKind_of_coerce hk hcoerce)
  | array _ ih =>
    intro p d hp h
    obtain ⟨head, ps, items, rfl, hitems, rfl⟩ := Value.resolve_array_eq_some h
    cases hp with
    | array _ hps =>
      refine .array rfl (forall₂_of_resolveList (fun v hv q hq e he => ih v hv (hps q hq) he)
        (fun q hq e he => ?_) hitems)
      exact conforms_of_settled ((hps q hq).settled he)

/-- The items of a call conform to the parameters. -/
theorem conforms_of_resolveList (hvs : ∀ v ∈ vs, v.Legible) (hps : ∀ p ∈ ps, Sound p)
    (h : resolveList ps vs = some items) : List.Forall₂ Conforms ps items :=
  forall₂_of_resolveList (fun v hv _ hp _ hd => conforms_of_resolve (hvs v hv) (hps _ hp) hd)
    (fun p hp _ hd => conforms_of_settled ((hps p hp).settled hd)) h

/-! ## Names of no type -/

/-- A parameter asks, itself or somewhere inside it, for a name that no type
has. -/
inductive Mentions (n : String) : Param → Prop
  | scalar {head : ParamHead} : Mentions n (.scalar head (.unknown n))
  | array {head : ParamHead} {ps : List Param} {p : Param} :
      p ∈ ps → Mentions n p → Mentions n (.array head ps)

/-- Where each parameter has an item, and one can have none, there are no
items. -/
theorem resolveList_eq_none (hp : p ∈ ps) (hnone : ∀ v : Value, v.resolve p = none)
    (hdefault : p.default? = none) (vs : List Value) : resolveList ps vs = none := by
  cases h : resolveList ps vs with
  | none => rfl
  | some items =>
    have hall : List.Forall₂ (fun q _ => q ≠ p) ps items := by
      refine forall₂_of_resolveList (fun v _ q _ d hd => ?_) (fun q _ d hd => ?_) h
      · rintro rfl
        rw [hnone v] at hd
        cases hd
      · rintro rfl
        rw [hdefault] at hd
        cases hd
    obtain ⟨i, hi⟩ := List.mem_iff_getElem?.1 hp
    obtain ⟨hlen, hitems⟩ := forall₂_iff_getElem?.1 hall
    have hlt : i < items.length := by
      have hbound := (List.getElem?_eq_some_iff.1 hi).1
      omega
    exact absurd rfl (hitems i p items[i] hi (List.getElem?_eq_getElem hlt))

/-- A parameter that resolves nothing has no default. -/
theorem default?_eq_none (hs : Sound p) (hnone : ∀ v : Value, v.resolve p = none) :
    p.default? = none := by
  cases hd : p.default? with
  | none => rfl
  | some d =>
    have hself := resolve_reread (hs.settled hd)
    rw [hnone] at hself
    cases hself

/-- **A name of no type resolves nothing**, at whatever depth it stands. -/
theorem resolve_eq_none_of_mentions (h : Mentions n p) (hs : Sound p) (v : Value) :
    v.resolve p = none := by
  induction h generalizing v with
  | scalar => cases v <;> rfl
  | @array head ps p hp _ ih =>
    cases hs with
    | array _ hps =>
      have hnone : ∀ u : Value, u.resolve p = none := ih (hps p hp)
      cases v with
      | scalar _ _ _ => rfl
      | array t vs =>
        rw [Value.resolve_array, resolveList_eq_none hp hnone (default?_eq_none (hps p hp) hnone)]
        rfl

end Param

namespace Signature

/-- **Arguments that conform to a signature**: an array with one item for each
parameter, in order. -/
def Conforms (s : Signature) (v : Value) : Prop :=
  ∃ t items, v = .array t items ∧ List.Forall₂ Param.Conforms s.params items

/-- The signature asks somewhere for a name that no type has. -/
def Mentions (s : Signature) (n : String) : Prop :=
  ∃ p ∈ s.params, p.Mentions n

variable {s : Signature} {v arguments : Value} {n : String}

theorem conforms_of_resolve (hs : ∀ p ∈ s.params, p.Sound) (ha : arguments.Legible)
    (h : s.resolve arguments = some v) : s.Conforms v := by
  cases ha with
  | scalar _ => cases h
  | array hvs =>
    rw [resolve, Option.map_eq_some_iff] at h
    obtain ⟨items, hitems, rfl⟩ := h
    exact ⟨_, items, rfl, Param.conforms_of_resolveList hvs hs hitems⟩

theorem resolve_eq_none_of_mentions (hs : ∀ p ∈ s.params, p.Sound) (h : s.Mentions n)
    (arguments : Value) : s.resolve arguments = none := by
  obtain ⟨p, hp, hm⟩ := h
  have hnone := Param.resolve_eq_none_of_mentions hm (hs p hp)
  cases arguments with
  | scalar _ _ _ => rfl
  | array t vs =>
    rw [resolve, Param.resolveList_eq_none hp hnone (Param.default?_eq_none (hs p hp) hnone)]
    rfl

end Signature

end CommandScript
