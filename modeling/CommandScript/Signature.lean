import CommandScript.Text.Alphanumeric
import CommandScript.Value

/-!
# Signatures

A signature is what one overload of a command asks for: parameters in order,
each a scalar of some kind or an array with parameters of its own. A
parameter with a default may be left out. The printed form is the one that
signatures are written in, with defaults in positional form.
-/

namespace CommandScript

/-- What scalar and array parameters have in common. -/
structure ParamHead where
  /-- The name of the parameter. -/
  name : String
  /-- The value of an argument that is left out. -/
  default : Option Value := none
  /-- The named type that the parameter was declared with. -/
  typeName : Option String := none
deriving DecidableEq, Inhabited

/-- A parameter. -/
inductive Param where
  /-- Asks for a scalar. -/
  | scalar (head : ParamHead) (kind : Kind)
  /-- Asks for an array that meets these parameters. -/
  | array (head : ParamHead) (params : List Param)
deriving Inhabited

/-- The parameters of one overload. -/
structure Signature where
  /-- The parameters, in order. -/
  params : List Param := []

namespace Param

/-! ## Parts -/

/-- Name, default and named type of the parameter. -/
def head : Param → ParamHead
  | scalar h _ => h
  | array h _ => h

/-- The name of the parameter. -/
def name (p : Param) : String :=
  p.head.name

/-- The value of an argument that is left out. -/
def default? (p : Param) : Option Value :=
  p.head.default

/-- Whether the argument may be left out. -/
def isOptional (p : Param) : Bool :=
  p.default?.isSome

/-- What the parameter asks for, all arrays being alike. -/
def kind : Param → Kind
  | scalar _ k => k
  | array _ _ => .array

/-- The parameter with this default. -/
def withDefault (p : Param) (v : Value) : Param :=
  match p with
  | scalar h k => scalar { h with default := some v } k
  | array h ps => array { h with default := some v } ps

/-- The number of parameters before the first with a default. -/
def requiredCount (params : List Param) : Nat :=
  (params.takeWhile fun p => !p.isOptional).length

/-! ## Equality -/

mutual

/-- Parameters are equal when names, defaults, named types and what they ask
for are. -/
def decEq : (p q : Param) → Decidable (p = q)
  | scalar h k, scalar h' k' =>
    if e : h = h' ∧ k = k' then isTrue (by obtain ⟨rfl, rfl⟩ := e; rfl)
    else isFalse (fun e' => e (by cases e'; exact ⟨rfl, rfl⟩))
  | array h ps, array h' ps' =>
    match decEqAll ps ps' with
    | isTrue hp =>
      if e : h = h' then isTrue (by rw [e, hp]) else isFalse (fun e' => e (by cases e'; rfl))
    | isFalse hp => isFalse (fun e => hp (by cases e; rfl))
  | scalar _ _, array _ _ => isFalse nofun
  | array _ _, scalar _ _ => isFalse nofun

/-- Lists of parameters are equal when their members are, in order. -/
def decEqAll : (ps qs : List Param) → Decidable (ps = qs)
  | [], [] => isTrue rfl
  | p :: ps, q :: qs =>
    match decEq p q, decEqAll ps qs with
    | isTrue h, isTrue hs => isTrue (by rw [h, hs])
    | isFalse h, _ => isFalse (fun e => h (by cases e; rfl))
    | _, isFalse hs => isFalse (fun e => hs (by cases e; rfl))
  | [], _ :: _ => isFalse nofun
  | _ :: _, [] => isFalse nofun

end

instance : DecidableEq Param := decEq

/-! ## Printing -/

/-- A parameter name: bare if it is a word, and otherwise in quotes. -/
def nameText (name : String) : String :=
  if name ≠ "" ∧ name.toList.all Text.isWordChar then name else "\"" ++ name ++ "\""

mutual

/-- A default, its items in order and without their names: they stand in the
order of the parameters they are for. -/
def defaultText : Value → String
  | .scalar _ .string s => "\"" ++ s ++ "\""
  | .scalar _ _ s => s
  | .array _ vs => "(" ++ ", ".intercalate (defaultTexts vs) ++ ")"

/-- The items of a default. -/
def defaultTexts : List Value → List String
  | [] => []
  | v :: vs => defaultText v :: defaultTexts vs

end

theorem defaultTexts_eq_map (vs : List Value) : defaultTexts vs = vs.map defaultText := by
  induction vs with
  | nil => rfl
  | cons v vs ih => simp [defaultTexts, ih]

/-- The default after its equals sign, or nothing. -/
def defaultClause : Option Value → String
  | none => ""
  | some v => " = " ++ defaultText v

mutual

/-- **The parameter as a signature writes it**: type, name and default. A
named type is written by its name. -/
def render : Param → String
  | scalar h k => (h.typeName.getD k.name) ++ " " ++ nameText h.name ++ defaultClause h.default
  | array h ps =>
    (match h.typeName with
      | some t => t
      | none => "(" ++ ", ".intercalate (renderAll ps) ++ ")") ++
      " " ++ nameText h.name ++ defaultClause h.default

/-- The parameters in order. -/
def renderAll : List Param → List String
  | [] => []
  | p :: ps => render p :: renderAll ps

end

theorem renderAll_eq_map (ps : List Param) : renderAll ps = ps.map render := by
  induction ps with
  | nil => rfl
  | cons p ps ih => simp [renderAll, ih]

end Param

namespace Signature

instance : DecidableEq Signature := fun s t =>
  match decEq s.params t.params with
  | isTrue h => isTrue (by cases s; cases t; cases h; rfl)
  | isFalse h => isFalse (fun e => h (by rw [e]))

/-- The number of parameters before the first with a default. -/
def required (s : Signature) : Nat :=
  Param.requiredCount s.params

/-- The number of parameters. -/
def arity (s : Signature) : Nat :=
  s.params.length

/-- **The signature as it is written**, in parentheses. -/
def render (s : Signature) : String :=
  "(" ++ ", ".intercalate (s.params.map Param.render) ++ ")"

end Signature

end CommandScript
