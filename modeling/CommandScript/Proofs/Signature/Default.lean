import CommandScript.Proofs.Binding.Resolve
import CommandScript.Proofs.Text.Word

/-!
# Defaults

A default is a literal read against its parameter: its scalars have the kinds
asked for, its items have found their parameters, and items left out have
been filled in. Such a default is settled (`Param.Settled`). Its printed form
is a literal again, in which kinds show as quotes only and items stand in
order (`Value.reread`), and reading that against the parameter gives the
default back (`resolve_reread`). Whatever a literal resolves to is settled,
as long as the defaults filled in are (`settled_of_resolve`).
-/

namespace CommandScript

namespace Value

/-- **A value as a literal gives it**: without places, every scalar a word of
the kind its text has or a quoted text. -/
inductive IsLiteral : Value → Prop
  | word {n : Option String} {w : String} :
      Text.IsRun w.toList → IsLiteral (scalar ⟨n, .synthetic⟩ (ScalarKind.ofText w) w)
  | quoted {n : Option String} {q : String} :
      '"' ∉ q.toList → IsLiteral (scalar ⟨n, .synthetic⟩ .string q)
  | array {n : Option String} {vs : List Value} :
      (∀ v ∈ vs, IsLiteral v) → IsLiteral (array ⟨n, .synthetic⟩ vs)

/-- The name of a literal does not matter. -/
theorem IsLiteral.rename {v : Value} {n : Option String} (h : v.IsLiteral) :
    (v.rename n).IsLiteral := by
  cases h with
  | word hw => exact .word hw
  | quoted hq => exact .quoted hq
  | array hvs => exact .array hvs

/-- The kind that the printed form of a scalar shows: a quoted text is a
string, and a bare one has the kind of a word. -/
def shownKind (k : ScalarKind) (s : String) : ScalarKind :=
  if k = .string then .string else ScalarKind.ofText s

mutual

/-- **The literal that the printed form of a default is read as.** -/
def reread : Value → Value
  | scalar _ k s => scalar ⟨none, .synthetic⟩ (shownKind k s) s
  | array _ vs => array ⟨none, .synthetic⟩ (rereadAll vs)

/-- The items of a default, read again. -/
def rereadAll : List Value → List Value
  | [] => []
  | v :: vs => reread v :: rereadAll vs

end

theorem rereadAll_eq_map (vs : List Value) : rereadAll vs = vs.map reread := by
  induction vs with
  | nil => rfl
  | cons v vs ih => rw [rereadAll, ih, List.map_cons]

/-- What is printed without names is read without names. -/
theorem name_reread (v : Value) : v.reread.name = none := by
  cases v <;> rfl

end Value

namespace Param

/-- **A settled default**: what some literal resolves to at the parameter, and
what its own printed form resolves to. -/
inductive Settled : Param → Value → Prop
  | scalar {h : ParamHead} {kind : Kind} {k : ScalarKind} {s : String} :
      kind.coerce (Value.shownKind k s) s = some k → '"' ∉ s.toList →
      Settled (.scalar h kind) (.scalar ⟨some h.name, .synthetic⟩ k s)
  | array {h : ParamHead} {ps : List Param} {items : List Value} :
      items.length = ps.length →
      (∀ (i : Nat) (p : Param) (v : Value), ps[i]? = some p → items[i]? = some v → Settled p v) →
      Settled (.array h ps) (.array ⟨some h.name, .synthetic⟩ items)

/-- **A parameter with settled defaults**, its own and those of the parameters
inside it. -/
inductive Sound : Param → Prop
  | scalar {h : ParamHead} {k : Kind} :
      (∀ d, h.default = some d → Settled (.scalar h k) d) → Sound (.scalar h k)
  | array {h : ParamHead} {ps : List Param} :
      (∀ d, h.default = some d → Settled (.array h ps) d) → (∀ p ∈ ps, Sound p) →
      Sound (.array h ps)

variable {p : Param} {ps : List Param} {d v : Value} {items : List Value}

/-- The default of a parameter does not matter to what is settled there. -/
theorem settled_withDefault {w : Value} (h : Settled p d) : Settled (p.withDefault w) d := by
  cases h with
  | @scalar h kind k s hk hq =>
    exact Settled.scalar (h := { h with default := some w }) hk hq
  | @array h ps items hlen hitems =>
    exact Settled.array (h := { h with default := some w }) hlen hitems

theorem Sound.settled (h : Sound p) (hd : p.default? = some d) : Settled p d := by
  cases h with
  | scalar hdef => exact hdef d hd
  | array hdef _ => exact hdef d hd

/-- A parameter takes a settled default. -/
theorem Sound.withDefault (h : Sound p) (hd : Settled p d) : Sound (p.withDefault d) := by
  cases h with
  | scalar hdef =>
    refine .scalar fun e he => ?_
    cases he
    exact settled_withDefault hd
  | array hdef hps =>
    refine .array (fun e he => ?_) hps
    cases he
    exact settled_withDefault hd

/-- Each item of a settled array is settled at some parameter. -/
theorem exists_param_of_mem (hlen : items.length = ps.length) (hv : v ∈ items) :
    ∃ (i : Nat) (p : Param), ps[i]? = some p ∧ items[i]? = some v := by
  obtain ⟨i, hi⟩ := List.mem_iff_getElem?.1 hv
  have hlt : i < ps.length := by
    have := (List.getElem?_eq_some_iff.1 hi).1
    omega
  exact ⟨i, ps[i], List.getElem?_eq_getElem hlt, hi⟩

/-- A settled default has no places. -/
theorem Settled.detach (h : Settled p d) : d.detach = d := by
  induction h with
  | scalar => rfl
  | @array h ps items hlen _ ih =>
    have hitems : items.map Value.detach = items.map id := by
      refine List.map_congr_left fun v hv => ?_
      obtain ⟨i, p, hp, hi⟩ := exists_param_of_mem hlen hv
      exact ih i p v hp hi
    rw [Value.detach, Value.detachAll_eq_map, hitems, List.map_id]

/-- A bare scalar of a settled default is a run. -/
theorem isRun_of_coerce {kind : Kind} {k : ScalarKind} {s : String}
    (h : kind.coerce (Value.shownKind k s) s = some k) (hk : k ≠ .string) :
    Text.IsRun s.toList := by
  have hreads : k.reads s = true := by
    cases kind with
    | scalar k' =>
      change (if k'.reads s = true then some k' else none) = some k at h
      split at h
      · rename_i hr
        cases h
        exact hr
      · cases h
    | any =>
      have hkind : ScalarKind.ofText s = k := by
        change some (Value.shownKind k s) = some k at h
        unfold Value.shownKind at h
        rw [if_neg hk] at h
        exact Option.some.inj h
      rw [← hkind]
      exact ScalarKind.reads_ofText s
    | _ => cases h
  exact ScalarKind.isRun_of_reads hreads hk

/-! ## What a literal resolves to -/

/-- A scalar literal that is read as a kind shows that kind. -/
theorem coerce_shownKind {kind : Kind} {k k' : ScalarKind} {s : String}
    (hlit : k = .string ∨ k = ScalarKind.ofText s) (h : kind.coerce k s = some k') :
    kind.coerce (Value.shownKind k' s) s = some k' := by
  cases kind with
  | scalar _ => exact h
  | any =>
    obtain rfl : k = k' := Option.some.inj h
    change some (Value.shownKind k s) = some k
    unfold Value.shownKind
    by_cases hk : k = .string
    · rw [if_pos hk, hk]
    · rw [if_neg hk, hlit.resolve_left hk]
  | _ => cases h

/-- **What a literal resolves to is settled**, if the defaults of the
parameter are. -/
theorem settled_of_resolve (hv : v.IsLiteral) : ∀ {p : Param} {d : Value}, Sound p →
    v.resolve p = some d → Settled p d := by
  induction hv with
  | word hw =>
    intro p d _ h
    obtain ⟨head, kind, k, rfl, hk, rfl⟩ := Value.resolve_scalar_eq_some h
    exact .scalar (coerce_shownKind (.inr rfl) hk) hw.quote_notMem
  | quoted hq =>
    intro p d _ h
    obtain ⟨head, kind, k, rfl, hk, rfl⟩ := Value.resolve_scalar_eq_some h
    exact .scalar (coerce_shownKind (.inl rfl) hk) hq
  | array _ ih =>
    intro p d hp h
    obtain ⟨head, ps, items, rfl, hitems, rfl⟩ := Value.resolve_array_eq_some h
    cases hp with
    | array _ hps =>
      have hall : List.Forall₂ Settled ps items :=
        forall₂_of_resolveList (fun v hv q hq e he => ih v hv (hps q hq) he)
          (fun q hq e he => (hps q hq).settled he) hitems
      obtain ⟨hlen, hvals⟩ := forall₂_iff_getElem?.1 hall
      exact .array hlen hvals

/-! ## What a printed default resolves to -/

/-- **A printed default is read as the default.** -/
theorem resolve_reread (h : Settled p d) : d.reread.resolve p = some d := by
  induction h with
  | @scalar h kind k s hk _ =>
    rw [Value.reread, Value.resolve, Value.coerce, hk]
    rfl
  | @array h ps items hlen _ ih =>
    have hitems : resolveList ps (items.map Value.reread) = some items :=
      resolveList_map Value.name_reread (forall₂_iff_getElem?.2 ⟨hlen, ih⟩)
    rw [Value.reread, Value.rereadAll_eq_map, Value.resolve_array, hitems]
    rfl

end Param

end CommandScript
