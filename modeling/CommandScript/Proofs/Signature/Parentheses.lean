import CommandScript.Signature.Parser

/-!
# Parentheses of a signature

Tokens between parentheses, and tokens whose parentheses match: those add so
many to the depth of what they stand in, and leave what was open before them
open (`Balanced`).
-/

namespace CommandScript

namespace Signature

/-- Lists of tokens with commas between. -/
def commaTokens (tss : List (List Token)) : List Token :=
  (tss.flatMap fun ts => .comma :: ts).tail

/-- Tokens between parentheses. -/
def parenTokens (ts : List Token) : List Token :=
  .openParen :: (ts ++ [.closeParen])

theorem parenTokens_append (ts us : List Token) :
    parenTokens ts ++ us = .openParen :: (ts ++ .closeParen :: us) := by
  unfold parenTokens
  rw [List.cons_append, List.append_assoc]
  rfl

theorem length_parenTokens (ts : List Token) : (parenTokens ts).length = ts.length + 2 := by
  unfold parenTokens
  simp

/-- **What is written with commas between**: nothing, or one thing behind a
comma or no comma, and others behind it. -/
theorem commaTokens_induction {α : Type} {f : α → List Token} {P : List α → List Token → Prop}
    (hnil : P [] [])
    (hcons : ∀ {cs : List Token} {x : α} {xs : List α} {ts : List Token},
      cs = [] ∨ cs = [.comma] → P xs ts → P (x :: xs) (cs ++ (f x ++ ts)))
    (xs : List α) : P xs (commaTokens (xs.map f)) := by
  have hall : ∀ xs : List α, P xs ((xs.map f).flatMap fun ts => .comma :: ts) := by
    intro xs
    induction xs with
    | nil => exact hnil
    | cons x xs ih => exact hcons (.inr rfl) ih
  cases xs with
  | nil => exact hnil
  | cons x xs => exact hcons (.inl rfl) (hall xs)

/-- The most parentheses that are open at once, so many of them before the
tokens. -/
def depth : Nat → List Token → Nat
  | d, [] => d
  | d, .openParen :: ts => depth (d + 1) ts
  | d, .closeParen :: ts => max d (depth (d - 1) ts)
  | d, _ :: ts => depth d ts

/-- **The depth of parentheses in a written signature**, those inside quotes
left out. A text without tokens has none. -/
def nesting (source : String) : Nat :=
  match tokens source with
  | .ok toks => depth 0 (toks.map Placed.token)
  | .error _ => 0

/-- `closesLast`, on tokens without columns. -/
def closes : Nat → List Token → Bool
  | _, [] => false
  | d, .openParen :: ts => closes (d + 1) ts
  | 0, .closeParen :: ts => ts.isEmpty
  | d + 1, .closeParen :: ts => closes d ts
  | d, _ :: ts => closes d ts

theorem closesLast_eq (toks : List Placed) (d : Nat) :
    closesLast d toks = closes d (toks.map Placed.token) := by
  induction toks generalizing d with
  | nil => rfl
  | cons tok toks ih =>
    obtain ⟨token, column⟩ := tok
    cases token with
    | closeParen =>
      cases d with
      | zero => cases toks <;> rfl
      | succ d => exact ih d
    | openParen => exact ih (d + 1)
    | _ => cases d <;> exact ih _

/-- What is open before tokens is open at once. -/
theorem le_depth (ts : List Token) (d : Nat) : d ≤ depth d ts := by
  induction ts generalizing d with
  | nil => exact Nat.le_refl d
  | cons t ts ih =>
    cases t with
    | openParen => exact Nat.le_trans (Nat.le_succ d) (ih (d + 1))
    | closeParen => exact Nat.le_max_left _ _
    | _ => exact ih d

/-- **Tokens with matching parentheses**, so many of them open at once. -/
structure Balanced (n : Nat) (ts : List Token) : Prop where
  /-- The tokens add to the depth of no others. -/
  depth (d : Nat) (rest : List Token) : depth d (ts ++ rest) = max (d + n) (depth d rest)
  /-- What closes behind the tokens is what was open before. -/
  closes (d : Nat) (rest : List Token) : closes d (ts ++ rest) = closes d rest

variable {n m : Nat} {ts us : List Token}

namespace Balanced

theorem nil : Balanced 0 [] where
  depth d rest := (Nat.max_eq_right (le_depth rest d)).symm
  closes _ _ := rfl

/-- A token that is no parenthesis. -/
theorem cons {t : Token} (ho : t ≠ .openParen) (hc : t ≠ .closeParen) (h : Balanced n ts) :
    Balanced n (t :: ts) where
  depth d rest := by
    rw [← h.depth d rest]
    cases t with
    | openParen => exact absurd rfl ho
    | closeParen => exact absurd rfl hc
    | _ => rfl
  closes d rest := by
    rw [← h.closes d rest]
    cases t with
    | openParen => exact absurd rfl ho
    | closeParen => exact absurd rfl hc
    | _ => cases d <;> rfl

theorem append (h : Balanced n ts) (h' : Balanced m us) : Balanced (max n m) (ts ++ us) where
  depth d rest := by
    rw [List.append_assoc, h.depth, h'.depth]
    omega
  closes d rest := by rw [List.append_assoc, h.closes, h'.closes]

/-- Parentheses around. -/
theorem parens (h : Balanced n ts) : Balanced (n + 1) (parenTokens ts) where
  depth d rest := by
    have hopen : Signature.depth d (parenTokens ts ++ rest) =
        Signature.depth (d + 1) (ts ++ .closeParen :: rest) := by
      rw [parenTokens_append]
      rfl
    have hclose : Signature.depth (d + 1) (.closeParen :: rest) =
        max (d + 1) (Signature.depth d rest) := rfl
    rw [hopen, h.depth, hclose]
    omega
  closes d rest := by
    have hopen : Signature.closes d (parenTokens ts ++ rest) =
        Signature.closes (d + 1) (ts ++ .closeParen :: rest) := by
      rw [parenTokens_append]
      rfl
    rw [hopen, h.closes]
    rfl

/-- A parenthesis that closes behind balanced tokens closes with the last
token exactly where nothing comes behind it. -/
theorem closes_closeParen (h : Balanced n ts) (us : List Token) :
    Signature.closes 0 (ts ++ .closeParen :: us) = us.isEmpty := by
  rw [h.closes]
  rfl

/-- Commas between. -/
theorem commas {α : Type} {xs : List α} {f : α → List Token} {depthOf : α → Nat} :
    (∀ x ∈ xs, Balanced (depthOf x) (f x)) →
      Balanced ((xs.map depthOf).foldr max 0) (commaTokens (xs.map f)) := by
  refine commaTokens_induction (f := f)
    (P := fun xs ts => (∀ x ∈ xs, Balanced (depthOf x) (f x)) →
      Balanced ((xs.map depthOf).foldr max 0) ts)
    (fun _ => nil) (fun {cs x xs ts} hcs ih h => ?_) xs
  obtain ⟨hx, hxs⟩ := List.forall_mem_cons.1 h
  rcases hcs with rfl | rfl
  · exact hx.append (ih hxs)
  · exact (hx.append (ih hxs)).cons (by simp) (by simp)

end Balanced

end Signature

end CommandScript
