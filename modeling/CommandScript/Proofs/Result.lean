/-!
# Steps in a row

The scanner and the interpreter are made of steps that change a state and may
fail, and a step that fails keeps the state it failed in. What two of them do
in a row is read off here.
-/

namespace CommandScript

variable {ε σ α β : Type} {s t : σ}

/-- The state in which a step ends, whether or not it fails. -/
def last (out : EStateM.Result ε σ α) : σ :=
  match out with
  | .ok _ t => t
  | .error _ t => t

/-- Two steps in a row: the second starts in the state the first leaves. -/
theorem bind_eq (x : EStateM ε σ α) (f : α → EStateM ε σ β) (s : σ) :
    (x >>= f) s =
      match x s with
      | .ok a t => f a t
      | .error e t => .error e t := by
  change EStateM.bind x f s = _
  unfold EStateM.bind
  cases x s <;> rfl

/-- A step that asks for the state is given it. -/
theorem get_bind_eq (f : σ → EStateM ε σ α) (s : σ) :
    ((get : EStateM ε σ σ) >>= f) s = f s s := rfl

/-- Two steps succeed together exactly when each does. -/
theorem bind_eq_ok_iff {x : EStateM ε σ α} {f : α → EStateM ε σ β} {b : β} :
    (x >>= f) s = .ok b t ↔ ∃ a u, x s = .ok a u ∧ f a u = .ok b t := by
  rw [bind_eq]
  constructor
  · intro h
    cases hx : x s with
    | ok a u =>
      rw [hx] at h
      exact ⟨a, u, rfl, h⟩
    | error e u =>
      rw [hx] at h
      cases h
  · rintro ⟨a, u, hx, hf⟩
    rw [hx]
    exact hf

/-- A step, and a given answer. -/
theorem bind_pure_eq_ok_iff {x : EStateM ε σ Unit} {a b : α} :
    (x >>= fun _ => pure a) s = .ok b t ↔ x s = .ok () t ∧ a = b := by
  rw [bind_eq_ok_iff]
  constructor
  · rintro ⟨u, w, hx, ha⟩
    cases ha
    exact ⟨hx, rfl⟩
  · rintro ⟨hx, rfl⟩
    exact ⟨(), t, hx, rfl⟩

/-- **How a step ends**: with an answer and in a state that are one thing, or
with a fault and in a state that are another. -/
def Ends (out : EStateM.Result ε σ α) (Q : α → σ → Prop) (E : ε → σ → Prop) : Prop :=
  match out with
  | .ok a t => Q a t
  | .error e t => E e t

variable {Q : α → σ → Prop} {E : ε → σ → Prop}

/-- What holds of the state in which a step ends, whether or not it fails. -/
theorem ends_last_iff {out : EStateM.Result ε σ α} {P : σ → Prop} :
    Ends out (fun _ t => P t) (fun _ t => P t) ↔ P (last out) := by
  cases out <;> exact Iff.rfl

/-- Where nothing is asked of faults, answers decide. -/
theorem Ends.of_ok {out : EStateM.Result ε σ α} (h : ∀ a t, out = .ok a t → Q a t) :
    Ends out Q fun _ _ => True := by
  cases out with
  | ok a t => exact h a t rfl
  | error e t => trivial

theorem Ends.bind {x : EStateM ε σ α} {f : α → EStateM ε σ β} {R : β → σ → Prop}
    (h : Ends (x s) Q E) (hf : ∀ a t, Q a t → Ends (f a t) R E) : Ends ((x >>= f) s) R E := by
  rw [bind_eq]
  cases hx : x s with
  | ok a t =>
    rw [hx] at h
    exact hf a t h
  | error e t =>
    rw [hx] at h
    exact h

theorem Ends.mono {out : EStateM.Result ε σ α} {R : α → σ → Prop} {F : ε → σ → Prop}
    (h : Ends out Q E) (hQ : ∀ a t, Q a t → R a t) (hE : ∀ e t, E e t → F e t) :
    Ends out R F := by
  cases out with
  | ok a t => exact hQ a t h
  | error e t => exact hE e t h

/-- What is said of the answer is so of the answer that is given. -/
theorem Ends.ok {out : EStateM.Result ε σ α} {a : α} {t : σ} (h : Ends out Q E)
    (hout : out = .ok a t) : Q a t := by
  rw [hout] at h
  exact h

/-- A step that ends in some way, and does so with these outcomes. -/
theorem Ends.with_eq {out : EStateM.Result ε σ α} (h : Ends out Q E) :
    Ends out (fun a t => out = .ok a t ∧ Q a t) fun e t => out = .error e t ∧ E e t := by
  cases out with
  | ok a t => exact ⟨rfl, h⟩
  | error e t => exact ⟨rfl, h⟩

/-- A text is read where there is an answer, for a fault has none. -/
theorem eq_ok_of_toOption {x : Except ε α} {a : α} (h : x.toOption = some a) : x = .ok a := by
  cases x with
  | error e => cases h
  | ok b =>
    cases h
    rfl

end CommandScript
