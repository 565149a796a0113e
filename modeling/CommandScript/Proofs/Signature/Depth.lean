import CommandScript.Proofs.Signature.Derivation
import CommandScript.Proofs.Signature.Spelling

/-!
# The depth of parameters

How many arrays stand inside one another in what a parameter asks for, those
of named types among them (`Param.depth`). The parentheses of a text are
limited, but a named type opens none: what derives in so much room nests as
deep as the room and the types together (`depth_of_isParam`). A default is no
deeper than the parameter it is for (`Param.Settled.nesting_le`).
-/

namespace CommandScript

namespace Param

mutual

/-- **The number of arrays inside one another** in what a parameter asks
for. -/
def depth : Param → Nat
  | scalar _ _ => 0
  | array _ ps => depths ps + 1

/-- The number of arrays inside one another in what parameters ask for. -/
def depths : List Param → Nat
  | [] => 0
  | p :: ps => max (depth p) (depths ps)

end

variable {p : Param} {ps qs : List Param} {d : Value} {n : Nat}

theorem depths_le_iff : depths ps ≤ n ↔ ∀ p ∈ ps, p.depth ≤ n := by
  induction ps with
  | nil => simp [depths]
  | cons p ps ih => rw [depths, Nat.max_le, ih, List.forall_mem_cons]

theorem depth_le_depths (hp : p ∈ ps) : p.depth ≤ depths ps :=
  depths_le_iff.1 (Nat.le_refl _) p hp

@[simp] theorem depth_withDefault (p : Param) (d : Value) : (p.withDefault d).depth = p.depth := by
  cases p with
  | scalar _ _ => rfl
  | array _ _ => rw [withDefault, depth, depth]

/-- **A settled default is no deeper than its parameter.** -/
theorem Settled.nesting_le (h : Settled p d) : Signature.valueNesting d ≤ p.depth := by
  induction h with
  | scalar => exact Nat.le_refl 0
  | @array h ps items hlen _ ih =>
    rw [Signature.valueNesting, depth]
    refine Nat.succ_le_succ (Signature.valuesNesting_le_iff.2 fun v hv => ?_)
    obtain ⟨i, p, hp, hi⟩ := exists_param_of_mem hlen hv
    exact Nat.le_trans (ih i p v hp hi) (depth_le_depths (List.mem_of_getElem? hp))

end Param

namespace Signature

variable {types : NamedTypes} {n limit : Nat} {ts : List Token} {d : Declaration}
  {ds : List Declaration} {p : Param}

/-- Types whose overloads nest less than a limit. -/
def ShallowTypes (types : NamedTypes) (limit : Nat) : Prop :=
  ∀ w overloads, types w = some overloads → ∀ s ∈ overloads, Param.depths s.params < limit

/-- A default does not change what a declaration stands for. -/
theorem Declaration.exists_shape (hp : p ∈ d.alternatives types) :
    ∃ q ∈ d.shapes types, p.depth = q.depth := by
  obtain ⟨q, hq, hgive⟩ := List.mem_filterMap.1 hp
  refine ⟨q, hq, ?_⟩
  cases hd : d.default? with
  | none =>
    rw [hd] at hgive
    cases hgive
    rfl
  | some v =>
    rw [hd] at hgive
    obtain ⟨e, -, rfl⟩ := Option.map_eq_some_iff.1 hgive
    exact Param.depth_withDefault q _

/-- A word asks for an array only where it names a type. -/
theorem Declaration.depth_of_mem_named (htypes : ShallowTypes types limit) {type name : String}
    (hp : p ∈ named types type name) : p.depth ≤ limit := by
  rw [named] at hp
  split at hp
  · obtain rfl := List.mem_singleton.1 hp
    exact Nat.zero_le _
  · split at hp
    · rename_i overloads hget
      obtain ⟨s, hs, rfl⟩ := List.mem_map.1 hp
      exact htypes type overloads hget s hs
    · obtain rfl := List.mem_singleton.1 hp
      exact Nat.zero_le _

mutual

/-- **What a declaration asks for nests as deep as its parentheses and the
types together.** -/
theorem depth_of_isParam (htypes : ShallowTypes types limit) :
    ∀ {n : Nat} {ts : List Token} {d : Declaration}, IsParam n ts d →
      ∀ p ∈ d.shapes types, p.depth ≤ n + limit
  | _, _, _, .word _ _, p, hp => by
    rw [Declaration.shapes] at hp
    exact Nat.le_trans (Declaration.depth_of_mem_named htypes hp) (Nat.le_add_left _ _)
  | _, _, _, .array hinner _ _, p, hp => by
    rw [Declaration.shapes] at hp
    obtain ⟨ps, hps, rfl⟩ := List.mem_map.1 hp
    have hdepth := Param.depths_le_iff.2 (depth_of_isParams htypes hinner ps hps)
    rw [Param.depth]
    omega

/-- What declarations ask for nests as deep as their parentheses and the types
together. -/
theorem depth_of_isParams (htypes : ShallowTypes types limit) :
    ∀ {n : Nat} {ts : List Token} {ds : List Declaration}, IsParams n ts ds →
      ∀ ps ∈ Declaration.expand types ds, ∀ p ∈ ps, p.depth ≤ n + limit
  | _, _, _, .nil _, ps, hps => by
    rw [Declaration.expand] at hps
    obtain rfl := List.mem_singleton.1 hps
    simp
  | _, _, _, .cons _ hd hds, ps, hps => by
    rw [Declaration.expand_cons] at hps
    obtain ⟨p, hp, hps⟩ := List.mem_flatMap.1 hps
    obtain ⟨tail, htail, rfl⟩ := List.mem_map.1 hps
    obtain ⟨q, hq, hsame⟩ := Declaration.exists_shape hp
    refine List.forall_mem_cons.2 ⟨?_, depth_of_isParams htypes hds tail htail⟩
    rw [hsame]
    exact depth_of_isParam htypes hd q hq

end

/-- **What a signature asks for** nests at most `maxNesting` arrays around
what a type names. -/
theorem depth_of_isSignature (htypes : ShallowTypes types limit) (h : IsSignature ts ds) :
    ∀ ps ∈ Declaration.expand types ds, Param.depths ps ≤ maxNesting + limit := by
  intro ps hps
  refine Param.depths_le_iff.2 ?_
  cases h with
  | bare hds => exact depth_of_isParams htypes hds ps hps
  | wrapped hds => exact depth_of_isParams htypes hds ps hps

end Signature

end CommandScript
