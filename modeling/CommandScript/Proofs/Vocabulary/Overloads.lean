import CommandScript.Proofs.Binding.Widening
import CommandScript.Proofs.Vocabulary.Dispatch

/-!
# Overloads in order

Of several overloads the first that accepts a call takes it, among those of one
command and among the candidates of a table. Since a wider overload accepts what
a narrower one does, the one that takes a call has no wider one before it
(`Signature.resolve_widens`), and an overload behind a wider one is never
reached.
-/

namespace CommandScript

variable {η : Type} {s : Signature} {ss : List Signature} {arguments v : Value} {i : Nat}
  {c : Command η} {call : Call η}

/-- **The first overload that accepts a call**: none before it does. -/
theorem Signature.resolveFirst_eq_some (h : resolveFirst arguments ss = some (i, v)) :
    ∃ s, ss[i]? = some s ∧ s.resolve arguments = some v ∧
      ∀ w ∈ ss.take i, w.resolve arguments = none := by
  induction ss generalizing i with
  | nil => cases h
  | cons s ss ih =>
    rw [resolveFirst] at h
    cases hs : s.resolve arguments with
    | some u =>
      rw [hs] at h
      cases h
      exact ⟨s, rfl, hs, fun w hw => absurd hw List.not_mem_nil⟩
    | none =>
      rw [hs, Option.map_eq_some_iff] at h
      obtain ⟨⟨j, u⟩, hrest, hr⟩ := h
      cases hr
      obtain ⟨s', hs', hv, hnone⟩ := ih hrest
      refine ⟨s', hs', hv, List.forall_mem_cons.2 ⟨hs, hnone⟩⟩

namespace Command

/-- **The call of a command** is that of its first overload that accepts it. -/
theorem callFrom_eq_some {n : Nat} (h : c.callFrom arguments n ss = some call) :
    ∃ i, Signature.resolveFirst arguments ss = some (i, call.arguments) ∧ call.index = n + i ∧
      ss[i]? = some call.signature ∧ call.handler = c.handler := by
  induction ss generalizing n with
  | nil => cases h
  | cons s ss ih =>
    rw [callFrom] at h
    rw [Signature.resolveFirst]
    cases hs : s.resolve arguments with
    | some u =>
      rw [hs] at h
      cases h
      exact ⟨0, rfl, rfl, rfl, rfl⟩
    | none =>
      rw [hs] at h
      obtain ⟨i, hfirst, hindex, hs', hhandler⟩ := ih h
      refine ⟨i + 1, ?_, ?_, hs', hhandler⟩
      · dsimp only
        rw [hfirst]
        rfl
      · rw [hindex]
        omega

/-- A command without a call has no overload that accepts it. -/
theorem resolve_eq_none_of_call? (h : c.call? arguments = none) :
    ∀ w ∈ c.signatures, w.resolve arguments = none := by
  have hanswer := c.answer_callFrom arguments c.signatures 0
  rw [← call?, h] at hanswer
  exact List.findSome?_eq_none_iff.1 (Option.map_eq_none_iff.1 hanswer.symm)

end Command

/-- **Widening only ever accepts more, and a wider overload leaves nothing to
those behind it.** A call that a signature accepts is accepted by a wider one,
which makes the same of it but for kinds. So where overloads are tried in order,
those of one command or those of the commands that a call may go to, the one
that takes the call has no wider one before it. -/
theorem Signature.resolve_widens :
    (∀ s s' : Signature, s.WidensTo s' → ∀ arguments v, s.resolve arguments = some v →
        ∃ w, s'.resolve arguments = some w ∧ v.Retyped w) ∧
      (∀ arguments ss i v, resolveFirst arguments ss = some (i, v) →
        ∃ s, ss[i]? = some s ∧ s.resolve arguments = some v ∧
          ∀ w ∈ ss.take i, ¬ s.WidensTo w) ∧
      ∀ {η : Type} (t : CommandTable η) name arguments mode call,
        t.resolve name arguments mode = .ok call →
          ∃ (before : List (Command η)) (c : Command η) (behind : List (Command η)),
            t.candidates name mode = before ++ c :: behind ∧ call.handler = c.handler ∧
            c.signatures[call.index]? = some call.signature ∧
            call.signature.resolve arguments = some call.arguments ∧
            ∀ w ∈ before.flatMap Command.signatures ++ c.signatures.take call.index,
              ¬ call.signature.WidensTo w := by
  refine ⟨fun s s' h arguments v hv => resolve_of_widensTo h hv, fun arguments ss i v h => ?_,
    fun t name arguments mode call h => ?_⟩
  · obtain ⟨s, hs, hv, hnone⟩ := resolveFirst_eq_some h
    exact ⟨s, hs, hv, fun w hw => not_widensTo_of_resolve hv (hnone w hw)⟩
  · obtain ⟨before, c, behind, hcandidates, hcall, hbefore⟩ :=
      List.findSome?_eq_some_iff.1 (CommandTable.resolve_eq_ok_iff.1 h)
    obtain ⟨i, hfirst, hindex, hs, hhandler⟩ := Command.callFrom_eq_some hcall
    obtain rfl : i = call.index := by omega
    obtain ⟨s, hs', hv, hnone⟩ := resolveFirst_eq_some hfirst
    obtain rfl : s = call.signature := Option.some.inj (hs'.symm.trans hs)
    refine ⟨before, c, behind, hcandidates, hhandler, hs, hv, fun w hw => ?_⟩
    refine not_widensTo_of_resolve hv ?_
    rcases List.mem_append.1 hw with hw | hw
    · obtain ⟨d, hd, hwd⟩ := List.mem_flatMap.1 hw
      exact Command.resolve_eq_none_of_call? (hbefore d hd) w hwd
    · exact hnone w hw

namespace Signature

/-- Moves by whole steps, with a flag in an array. -/
def moveBySteps : Signature :=
  ⟨[.scalar { name := "distance" } .int,
    .array { name := "options" } [.scalar { name := "relative" } .bool]]⟩

/-- Moves by any distance, with a text for the flag. -/
def moveByDistance : Signature :=
  ⟨[.scalar { name := "distance" } .float,
    .array { name := "options" } [.scalar { name := "relative" } .string]]⟩

/-- A move by the lowest of all integers, with zeros before it. -/
def moveCall : Value :=
  .list [(Value.list [.word "TRUE"]).rename (some "options"),
    (Value.word "-0009223372036854775808").rename (some "distance")]

/-- A move that goes to the wider of two overloads, which comes first. -/
theorem resolve_widens_move :
    moveBySteps.WidensTo moveByDistance ∧
      (∃ v w, moveBySteps.resolve moveCall = some v ∧ moveByDistance.resolve moveCall = some w ∧
        v.Retyped w) ∧
      (resolveFirst moveCall [moveByDistance, moveBySteps]).map Prod.fst = some 0 := by
  have hoption : Param.WidensTo (.scalar { name := "relative" } .bool)
      (.scalar { name := "relative" } .string) := .scalar rfl rfl (.string _)
  have hmove : moveBySteps.WidensTo moveByDistance :=
    .cons (.scalar rfl rfl .float) (.cons (.array rfl rfl (.cons hoption .nil)) .nil)
  have hsome : (moveBySteps.resolve moveCall).isSome = true := by decide +kernel
  obtain ⟨v, hv⟩ := Option.isSome_iff_exists.1 hsome
  obtain ⟨w, hw, hsame⟩ := resolve_widens.1 _ _ hmove _ _ hv
  exact ⟨hmove, ⟨v, w, hv, hw, hsame⟩, by decide +kernel⟩

end Signature

end CommandScript
