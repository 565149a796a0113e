import CommandScript.Handler
import CommandScript.Proofs.Binding.Conforms
import CommandScript.Proofs.Signature.RoundTrip
import CommandScript.Proofs.Statement.Reachable
import CommandScript.Statement.Source

/-!
# Handlers receive typed arguments

The signatures that commands have come from texts that are read against a
table of types, or belong to the command that includes scripts; the calls
come from the scanner. Whatever such a signature makes of such a call
conforms to it (`resolve_conforms`), since its defaults are settled and the
scanner gives no scalar a kind that its text does not allow.
-/

namespace CommandScript

/-- The scanner builds values whose scalars can be read as their kinds. -/
theorem Scanner.composable_legible : Composable Value.Legible where
  word text _ _ := .scalar (ScalarKind.reads_ofText text)
  quoted _ _ _ := .scalar rfl
  array _ _ h := .array h

/-- The parameters of the command that includes scripts have settled
defaults. -/
theorem Handler.sound_loadSignature : ∀ p ∈ loadSignature.params, p.Sound := by
  have hshare : Param.Settled (.scalar { name := "share_temporary" } .bool)
      ((Value.word "false").rename (some "share_temporary")) :=
    .scalar (by decide +kernel) (by decide)
  have hpath : Param.Sound (.scalar { name := "path" } .string) :=
    .scalar fun d hd => by cases hd
  have hoption : Param.Sound (.scalar { name := "share_temporary" } .bool) :=
    .scalar fun d hd => by cases hd
  exact List.forall_mem_cons.2
    ⟨hpath, List.forall_mem_cons.2 ⟨hoption.withDefault hshare, by simp⟩⟩

namespace TypeTable

variable {t : TypeTable} {s : Signature}

/-- **The signatures that commands may have**: those that a text stands for
among the types, and the one of the command that includes scripts. -/
def Offers (t : TypeTable) (s : Signature) : Prop :=
  s = Handler.loadSignature ∨
    ∃ source signatures, t.parse source = .ok signatures ∧ s ∈ signatures

/-- What commands ask for has settled defaults. -/
theorem Built.sound_of_offers (ht : t.Built) (hs : t.Offers s) : ∀ p ∈ s.params, p.Sound := by
  rcases hs with rfl | ⟨source, signatures, hparse, hmem⟩
  · exact Handler.sound_loadSignature
  · exact fun p hp => ((Signature.compiled_of_parse ht.soundTypes hparse s hmem).1 p hp).sound

/-- **Handlers receive typed arguments.** What a signature makes of a scanned
call conforms to it: one item for each parameter, under its name, of the kind
or of the parameters it asks for. A signature that somewhere asks for a name
of no type makes nothing of any call. -/
theorem Built.resolve_conforms (ht : t.Built) (hs : t.Offers s) :
    (∀ made : Statement, made.IsScanned → ∀ v, s.resolve made.arguments = some v → s.Conforms v) ∧
      ∀ n, s.Mentions n → ∀ arguments, s.resolve arguments = none := by
  have hsound := ht.sound_of_offers hs
  constructor
  · intro made hmade v hv
    have hlegible : made.arguments.Legible := hmade.arguments Scanner.composable_legible
    exact Signature.conforms_of_resolve hsound hlegible hv
  · intro n hn
    exact Signature.resolve_eq_none_of_mentions hsound hn

/-- A call with a point whose coordinates are named. -/
def pointMove : Statement :=
  ⟨"move", ⟨1, 1⟩,
    .list [.list [(Value.word "3" ⟨1, 10⟩).rename (some "Y"),
      (Value.word "-1" ⟨1, 16⟩).rename (some "x")] ⟨1, 6⟩] ⟨1, 6⟩⟩

/-- What becomes of it: coordinates in order, and a default. -/
def pointMoved : Value :=
  .list [.array ⟨some "p", ⟨1, 6⟩⟩
      [.scalar ⟨some "x", ⟨1, 16⟩⟩ .int "-1", .scalar ⟨some "y", ⟨1, 10⟩⟩ .int "3"],
    .scalar ⟨some "q r", .synthetic⟩ .string "red"] ⟨1, 6⟩

/-- A signature with a name of no type in an array. -/
def hueCall : Signature :=
  ⟨[.array { name := "a" } [.scalar { name := "h" } (.unknown "hue")],
    .scalar { name := "n", default := some ((Value.word "1").rename (some "n")) } .int]⟩

theorem resolve_conforms_pointMove :
    points.Offers pointCall ∧ pointMove.IsScanned ∧
      pointCall.resolve pointMove.arguments = some pointMoved ∧ pointCall.Conforms pointMoved ∧
      points.Offers hueCall ∧ hueCall.resolve pointMove.arguments = none := by
  have hpoint : points.parse "point p = (7), any \"q r\" = red" = .ok [pointCall] :=
    eq_ok_of_toOption (by decide +kernel)
  have hhue : points.parse "(hue h) a, int n = 1" = .ok [hueCall] :=
    eq_ok_of_toOption (by decide +kernel)
  have hscan : Statement.readAll "move (Y: 3, x: -1);" = .ok [pointMove] :=
    eq_ok_of_toOption (by decide +kernel)
  have hresolve : pointCall.resolve pointMove.arguments = some pointMoved := by decide +kernel
  have hpointOffer : points.Offers pointCall := .inr ⟨_, _, hpoint, List.mem_cons_self⟩
  have hhueOffer : points.Offers hueCall := .inr ⟨_, _, hhue, List.mem_cons_self⟩
  have hscanned : pointMove.IsScanned :=
    Statement.isScanned_of_readAll hscan _ List.mem_cons_self
  have hmentions : hueCall.Mentions "hue" :=
    ⟨_, List.mem_cons_self, .array List.mem_cons_self .scalar⟩
  have hconforms := (Built.resolve_conforms built_points hpointOffer).1 _ hscanned _ hresolve
  have hnone := (Built.resolve_conforms built_points hhueOffer).2 _ hmentions
  exact ⟨hpointOffer, hscanned, hresolve, hconforms, hhueOffer, hnone _⟩

end TypeTable

end CommandScript
