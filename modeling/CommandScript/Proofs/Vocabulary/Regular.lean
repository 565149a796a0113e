import CommandScript.Proofs.Binding.Explicit
import CommandScript.Proofs.Signature.RoundTrip

/-!
# Parameter lists at every depth

A signature has parameter lists inside it: those of arrays, and those that
named types stand for, which were read when the types were registered. All
of them are regular (`Regular`): mandatory parameters come first, and a
default is a value without places, under the name of its parameter, that
resolves to itself by order alone. So a call by order may leave defaults out
or pass them, with the same result (`regular_of_parse`).
-/

namespace CommandScript

namespace Signature

/-- **A parameter list inside another**: the list itself, or one inside the
parameters of an array in it. -/
inductive Within : List Param → List Param → Prop
  | self {ps : List Param} : Within ps ps
  | inside {ps inner qs : List Param} {head : ParamHead} :
      .array head inner ∈ ps → Within inner qs → Within ps qs

/-- **A regular parameter list.** -/
structure Regular (ps : List Param) : Prop where
  /-- Behind a parameter with a default, all have one. -/
  defaultsLast : DefaultsLast ps
  /-- The required parameters are mandatory. -/
  mandatory : ∀ p ∈ ps.take (Param.requiredCount ps), p.isOptional = false
  /-- The others may be left out. -/
  optional : ∀ p ∈ ps.drop (Param.requiredCount ps), p.isOptional = true
  /-- No script wrote a default. -/
  synthetic : ∀ p ∈ ps, ∀ d, p.default? = some d → d.IsSynthetic
  /-- A default has the name of its parameter. -/
  named : ∀ p ∈ ps, ∀ d, p.default? = some d → d.name = some p.name
  /-- A default resolves to itself, by order alone. -/
  fixed : ∀ p ∈ ps, ∀ d, p.default? = some d → d.withoutNames.resolve p = some d

variable {types : NamedTypes} {ps qs : List Param}

theorem regular_of_sound (hps : ∀ p ∈ ps, p.Sound) (hlast : DefaultsLast ps) : Regular ps where
  defaultsLast := hlast
  mandatory := Param.isOptional_of_mem_take ps
  optional := Param.isOptional_of_mem_drop hlast
  synthetic p hp _ hd := ((hps p hp).settled hd).isSynthetic
  named p hp _ hd := ((hps p hp).settled hd).name
  fixed p hp _ hd := Param.resolve_withoutNames ((hps p hp).settled hd)

/-- Parameters with settled defaults have such parameters inside. -/
theorem Within.sound (h : Within ps qs) (hps : ∀ p ∈ ps, p.Sound) : ∀ p ∈ qs, p.Sound := by
  induction h with
  | self => exact hps
  | inside hmem _ ih =>
    cases hps _ hmem with
    | array _ hinner => exact ih hinner

/-- Defaults come last in the parameter lists inside compiled parameters, if
they do in those of the types. -/
theorem Within.defaultsLast
    (htypes : ∀ w overloads, types w = some overloads → ∀ s ∈ overloads, ∀ qs,
      Within s.params qs → DefaultsLast qs)
    (h : Within ps qs) (hps : ∀ p ∈ ps, Compiled types p) (hlast : DefaultsLast ps) :
    DefaultsLast qs := by
  induction h with
  | self => exact hlast
  | inside hmem hwithin ih =>
    -- the list inside is that of a type or was read with the array
    cases hps _ hmem with
    | named _ _ _ hw hs _ _ => exact htypes _ _ hw _ hs _ hwithin
    | array _ hinner hinnerLast _ => exact ih hinner hinnerLast

end Signature

namespace TypeTable

open Signature (Within Regular DefaultsLast)

variable {t : TypeTable} {source : String} {signatures : List Signature} {s : Signature}

/-- What is read against a table of types has settled defaults, and they come
last at every depth. -/
theorem Built.ordered (ht : t.Built) : ∀ w overloads, t.get? w = some overloads →
    ∀ s ∈ overloads, (∀ p ∈ s.params, p.Sound) ∧
      ∀ qs, Within s.params qs → DefaultsLast qs := by
  refine ht.forall_overloads fun htypes hparse s hs => ?_
  have hsound : Signature.SoundTypes _ := fun w overloads hw s hs => (htypes w overloads hw s hs).1
  obtain ⟨hcompiled, hlast⟩ := Signature.compiled_of_parse hsound hparse s hs
  refine ⟨fun p hp => (hcompiled p hp).sound, fun qs hqs => ?_⟩
  exact hqs.defaultsLast (fun w overloads hw s hs => (htypes w overloads hw s hs).2) hcompiled hlast

/-- **Every parameter list of a compiled signature is regular**, at whatever
depth it stands and whatever type it comes from. A call by order may
therefore leave defaults out or pass them. -/
theorem Built.regular_of_parse (ht : t.Built) (h : t.parse source = .ok signatures)
    (hs : s ∈ signatures) :
    (∀ ps, Within s.params ps → Regular ps) ∧
      ∀ (tag : Tag) (vs : List Value), (∀ v ∈ vs, v.name = none) → s.required ≤ vs.length →
        vs.length ≤ s.arity →
        s.resolve (.array tag (vs ++ Param.omitted s.params vs.length)) =
          s.resolve (.array tag vs) := by
  obtain ⟨hcompiled, hlast⟩ := Signature.compiled_of_parse ht.soundTypes h s hs
  have hsound : ∀ p ∈ s.params, p.Sound := fun p hp => (hcompiled p hp).sound
  constructor
  · intro ps hps
    have hpsLast : DefaultsLast ps :=
      hps.defaultsLast (fun w overloads hw s hs => (ht.ordered w overloads hw s hs).2)
        hcompiled hlast
    exact Signature.regular_of_sound (hps.sound hsound) hpsLast
  · intro tag vs hvs hmin hmax
    exact Signature.resolve_append_omitted hsound hlast hvs hmin hmax tag

theorem regular_of_parse_pointCall :
    points.parse "point p = (7), any \"q r\" = red" = .ok [pointCall] ∧
      Regular [.scalar { name := "x" } .int,
        .scalar { name := "y", default := some (.scalar ⟨some "y", .synthetic⟩ .int "0") } .int] ∧
      pointCall.resolve (.list (Param.omitted pointCall.params 0)) =
        pointCall.resolve (.list []) := by
  have hparse : points.parse "point p = (7), any \"q r\" = red" = .ok [pointCall] :=
    eq_ok_of_toOption (by decide +kernel)
  obtain ⟨hregular, hcall⟩ :=
    Built.regular_of_parse built_points hparse (s := pointCall) List.mem_cons_self
  have hinner := hregular _ (.inside List.mem_cons_self .self)
  exact ⟨hparse, hinner, hcall ⟨none, .synthetic⟩ [] (by simp) (by decide) (by decide)⟩

end TypeTable

end CommandScript
