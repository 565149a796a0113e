import CommandScript.Proofs.Signature.Compiled

/-!
# Defaults passed explicitly

A default is stored with names, but those stand where order alone would do:
without them it resolves to itself (`resolve_withoutNames`). And where
defaults come last, the parameters that a call by order leaves out are those
at its end, so passing their defaults explicitly comes to the same as leaving
them out (`resolve_append_omitted`).
-/

namespace CommandScript

namespace Value

mutual

/-- The value without its name and the names inside it. -/
def withoutNames : Value → Value
  | scalar t k s => scalar { t with name := none } k s
  | array t vs => array { t with name := none } (withoutNamesAll vs)

/-- The values without names. -/
def withoutNamesAll : List Value → List Value
  | [] => []
  | v :: vs => withoutNames v :: withoutNamesAll vs

end

theorem withoutNamesAll_eq_map (vs : List Value) : withoutNamesAll vs = vs.map withoutNames := by
  induction vs with
  | nil => rfl
  | cons v vs ih => rw [withoutNamesAll, ih, List.map_cons]

theorem name_withoutNames (v : Value) : v.withoutNames.name = none := by
  cases v <;> rfl

/-- **A value that no script wrote**: neither it nor anything inside it has a
place. -/
inductive IsSynthetic : Value → Prop
  | scalar {t : Tag} {k : ScalarKind} {s : String} :
      t.position = .synthetic → IsSynthetic (scalar t k s)
  | array {t : Tag} {vs : List Value} :
      t.position = .synthetic → (∀ v ∈ vs, IsSynthetic v) → IsSynthetic (array t vs)

end Value

namespace Param

open Signature (DefaultsLast)

variable {p : Param} {ps : List Param} {d : Value} {vs : List Value}

/-! ## Settled defaults -/

/-- A settled default has no places. -/
theorem Settled.isSynthetic (h : Settled p d) : d.IsSynthetic := by
  induction h with
  | scalar => exact .scalar rfl
  | array hlen _ ih =>
    refine .array rfl fun v hv => ?_
    obtain ⟨i, p, hp, hi⟩ := exists_param_of_mem hlen hv
    exact ih i p v hp hi

/-- A settled default has the name of its parameter. -/
theorem Settled.name (h : Settled p d) : d.name = some p.name := by
  cases h <;> rfl

/-- What a scalar is read as from its printed form, it is read as from
itself. -/
theorem coerce_of_shownKind {kind : Kind} {k : ScalarKind} {s : String}
    (h : kind.coerce (Value.shownKind k s) s = some k) : kind.coerce k s = some k := by
  cases kind with
  | any => rfl
  | _ => exact h

/-- **A settled default needs no names**: by order alone it resolves to
itself. -/
theorem resolve_withoutNames (h : Settled p d) : d.withoutNames.resolve p = some d := by
  induction h with
  | scalar hk _ =>
    rw [Value.withoutNames, Value.resolve, Value.coerce, coerce_of_shownKind hk]
    rfl
  | @array h ps items hlen _ ih =>
    have hitems : resolveList ps (items.map Value.withoutNames) = some items :=
      resolveList_map Value.name_withoutNames (forall₂_iff_getElem?.2 ⟨hlen, ih⟩)
    rw [Value.withoutNames, Value.withoutNamesAll_eq_map, Value.resolve_array, hitems]
    rfl

/-! ## Mandatory and optional parameters -/

/-- No parameter before the first with a default has one. -/
theorem isOptional_of_mem_take (ps : List Param) :
    ∀ p ∈ ps.take (requiredCount ps), p.isOptional = false := by
  have htake : ps.take (requiredCount ps) = ps.takeWhile fun p => !p.isOptional := by
    have hleft : (ps.takeWhile (fun p => !p.isOptional) ++
        ps.dropWhile fun p => !p.isOptional).take (requiredCount ps) =
          ps.takeWhile fun p => !p.isOptional := List.take_left
    rwa [List.takeWhile_append_dropWhile] at hleft
  intro p hp
  rw [htake] at hp
  simpa using List.all_eq_true.1 List.all_takeWhile p hp

/-- **Where defaults come last, all parameters behind the mandatory ones are
optional.** -/
theorem isOptional_of_mem_drop (h : DefaultsLast ps) :
    ∀ p ∈ ps.drop (requiredCount ps), p.isOptional = true := by
  induction ps with
  | nil => simp
  | cons q qs ih =>
    obtain ⟨hbehind, hqs⟩ := List.pairwise_cons.1 h
    intro p hp
    unfold requiredCount at hp
    cases hq : q.isOptional with
    | true =>
      rw [List.takeWhile_cons_of_neg (by simp [hq])] at hp
      rcases List.mem_cons.1 hp with rfl | hp
      · exact hq
      · exact hbehind p hp hq
    | false =>
      rw [List.takeWhile_cons_of_pos (by simp [hq])] at hp
      exact ih hqs p hp

/-! ## Calls by order -/

/-- What completes a call with `n` arguments: the defaults of the parameters
behind those, without names. -/
def omitted (ps : List Param) (n : Nat) : List Value :=
  (ps.drop n).filterMap fun p => p.default?.map Value.withoutNames

/-- The defaults of optional parameters. -/
theorem exists_defaults (h : ∀ p ∈ ps, p.isOptional = true) :
    ∃ ds, List.Forall₂ (fun p d => p.default? = some d) ps ds ∧
      ps.filterMap (fun p => p.default?.map Value.withoutNames) = ds.map Value.withoutNames := by
  induction ps with
  | nil => exact ⟨[], .nil, rfl⟩
  | cons p ps ih =>
    obtain ⟨ds, hds, hmap⟩ := ih fun q hq => h q (List.mem_cons_of_mem _ hq)
    obtain ⟨d, hd⟩ := Option.isSome_iff_exists.1 (h p List.mem_cons_self)
    refine ⟨d :: ds, .cons hd hds, ?_⟩
    have hfirst : p.default?.map Value.withoutNames = some d.withoutNames := by
      rw [hd]
      rfl
    rw [List.filterMap_cons, hmap, List.map_cons]
    simp only [hfirst]

/-- Arguments without names fill the first parameters. -/
theorem resolveAll_inOrder_eq_some {b : Binding} {n : Nat} {done : List Value}
    (hvs : ∀ v ∈ vs, v.name = none) (hlen : done.length + vs.length + n = ps.length)
    (h : Value.resolveAll ps (inOrder done (vs.length + n)) vs = some b) :
    ∃ items, items.length = done.length + vs.length ∧ b = inOrder items n := by
  induction vs generalizing done with
  | nil =>
    rw [List.length_nil, Nat.zero_add] at h
    cases h
    exact ⟨done, rfl, rfl⟩
  | cons v vs ih =>
    rw [List.length_cons] at hlen h
    have hlt : done.length < ps.length := by omega
    have hn : vs.length + 1 + n = vs.length + n + 1 := by omega
    rw [hn, resolveAll_inOrder_cons (List.getElem?_eq_getElem hlt) (hvs v List.mem_cons_self),
      Option.bind_eq_some_iff] at h
    obtain ⟨d, -, hrest⟩ := h
    have hsum : (done ++ [d]).length + vs.length + n = ps.length := by
      rw [List.length_append, List.length_singleton]
      omega
    obtain ⟨items, hitems, rfl⟩ := ih (fun u hu => hvs u (List.mem_cons_of_mem _ hu)) hsum hrest
    refine ⟨items, ?_, rfl⟩
    rw [hitems, List.length_append, List.length_singleton, List.length_cons]
    omega

/-- Slots without arguments are completed with the defaults behind them. -/
theorem complete_defaults {items ds : List Value}
    (h : List.Forall₂ (fun p d => p.default? = some d) (ps.drop items.length) ds)
    (hle : items.length ≤ ps.length) :
    Binding.complete (items.map some ++ List.replicate ds.length none) ps = some (items ++ ds) := by
  induction items generalizing ps with
  | nil =>
    rw [List.length_nil, List.drop_zero] at h
    induction h with
    | nil => rfl
    | @cons p d ps ds hd _ ih =>
      rw [List.map_nil, List.nil_append, List.nil_append] at ih ⊢
      rw [List.length_cons, List.replicate_succ, Binding.complete, hd, ih (Nat.zero_le _)]
      rfl
  | cons v items ih =>
    cases ps with
    | nil => cases hle
    | cons p ps =>
      rw [List.map_cons, List.cons_append, Binding.complete, ih h (Nat.le_of_succ_le_succ hle)]
      rfl

/-- **Passing the defaults of what is left out changes nothing**, in a call by
order with no fewer arguments than are mandatory. -/
theorem resolveList_append_omitted (hps : ∀ p ∈ ps, Sound p) (hlast : DefaultsLast ps)
    (hvs : ∀ v ∈ vs, v.name = none) (hmin : requiredCount ps ≤ vs.length)
    (hmax : vs.length ≤ ps.length) :
    resolveList ps (vs ++ omitted ps vs.length) = resolveList ps vs := by
  have hoptional : ∀ p ∈ ps.drop vs.length, p.isOptional = true := by
    intro p hp
    refine isOptional_of_mem_drop hlast p ?_
    rw [← Nat.add_sub_cancel' hmin, ← List.drop_drop] at hp
    exact List.mem_of_mem_drop hp
  obtain ⟨ds, hds, homitted⟩ := exists_defaults hoptional
  have hcount : vs.length + ds.length = ps.length := by
    have hlen := hds.length_eq
    rw [List.length_drop] at hlen
    omega
  have hempty : Binding.empty ps = inOrder [] (vs.length + ds.length) := by
    rw [empty_eq_inOrder, hcount]
  unfold resolveList omitted
  rw [resolveAll_append, homitted, hempty]
  -- the arguments of both calls are bound alike, so only what follows them matters
  cases hbound : Value.resolveAll ps (inOrder [] (vs.length + ds.length)) vs with
  | none => rfl
  | some b =>
    have hsum : ([] : List Value).length + vs.length + ds.length = ps.length := by
      rw [List.length_nil, Nat.zero_add, hcount]
    obtain ⟨items, hitems, rfl⟩ := resolveAll_inOrder_eq_some hvs hsum hbound
    rw [List.length_nil, Nat.zero_add] at hitems
    rw [← hitems] at hds
    have hself : List.Forall₂ (fun p v => v.withoutNames.resolve p = some v)
        (ps.drop items.length) ds := by
      have hsound : ∀ p ∈ ps.drop items.length, p.Sound :=
        fun p hp => hps p (List.mem_of_mem_drop hp)
      have hboth := (List.forall₂_and_left (p := Param.Sound) _ _).2 ⟨hsound, hds⟩
      exact hboth.imp fun p d hd => resolve_withoutNames (hd.1.settled hd.2)
    have hrest := resolveAll_inOrder_map Value.name_withoutNames hself
    rw [Option.bind_some, Option.bind_some, hrest, Option.bind_some, slots_inOrder_zero,
      complete_map_some (by rw [List.length_append, hitems, hcount])]
    exact (complete_defaults hds (by omega)).symm

end Param

/-- **Passing the defaults of what is left out changes nothing**, in a call by
order. -/
theorem Signature.resolve_append_omitted {s : Signature} {vs : List Value}
    (hps : ∀ p ∈ s.params, p.Sound) (hlast : DefaultsLast s.params)
    (hvs : ∀ v ∈ vs, v.name = none) (hmin : s.required ≤ vs.length) (hmax : vs.length ≤ s.arity)
    (t : Tag) :
    s.resolve (.array t (vs ++ Param.omitted s.params vs.length)) = s.resolve (.array t vs) := by
  rw [resolve, resolve, Param.resolveList_append_omitted hps hlast hvs hmin hmax]

end CommandScript
