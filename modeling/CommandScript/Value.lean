import CommandScript.Kind
import CommandScript.Position

/-!
# Values

An argument is a tree: scalars at the leaves, each a text with the kind it
is read as, and arrays of values above them. Every value may carry the name
it was passed under, and knows the place where it starts. The printed form
quotes exactly the scalars of kind `string`, so that reading it back gives
the same kinds.
-/

namespace CommandScript

/-- What scalars and arrays have in common. -/
structure Tag where
  /-- The name the value was passed under. -/
  name : Option String := none
  /-- Where the value starts. -/
  position : Position := .synthetic
deriving DecidableEq, Inhabited

/-- An argument value. -/
inductive Value where
  /-- A text and the kind it is read as. -/
  | scalar (tag : Tag) (kind : ScalarKind) (text : String)
  /-- Values in order. -/
  | array (tag : Tag) (items : List Value)
deriving Inhabited

namespace Value

/-! ## Building -/

/-- A bare word: its kind is the most specific one its text allows. -/
def word (text : String) (position : Position := .synthetic) : Value :=
  scalar ⟨none, position⟩ (ScalarKind.ofText text) text

/-- A quoted text: a string, whatever it looks like. -/
def quoted (text : String) (position : Position := .synthetic) : Value :=
  scalar ⟨none, position⟩ .string text

/-- Values in order, without a name. -/
def list (items : List Value) (position : Position := .synthetic) : Value :=
  array ⟨none, position⟩ items

/-! ## Parts -/

/-- Name and place of the value. -/
def tag : Value → Tag
  | scalar t _ _ => t
  | array t _ => t

/-- The name the value was passed under. -/
def name (v : Value) : Option String :=
  v.tag.name

/-- Where the value starts. -/
def position (v : Value) : Position :=
  v.tag.position

/-- The kind of the value. -/
def kind : Value → Kind
  | scalar _ k _ => .scalar k
  | array _ _ => .array

/-- The text of a scalar. -/
def text? : Value → Option String
  | scalar _ _ s => some s
  | array _ _ => none

/-- The items of an array. -/
def items? : Value → Option (List Value)
  | scalar _ _ _ => none
  | array _ vs => some vs

/-- The number of items; a scalar has none. -/
def size (v : Value) : Nat :=
  (v.items?.getD []).length

/-- The item at an index. -/
def item? (v : Value) (index : Nat) : Option Value :=
  (v.items?.getD [])[index]?

/-- Whether a value was passed under a name, ignoring case. -/
def isNamed (name : String) (v : Value) : Bool :=
  v.name.any (Text.sameName · name)

/-- The first item of that name, ignoring case. -/
def named? (v : Value) (name : String) : Option Value :=
  (v.items?.getD []).find? (isNamed name)

/-- Whether an item of the array carries a name. -/
def hasNames (v : Value) : Bool :=
  (v.items?.getD []).any fun item => item.name.isSome

/-! ## Readings of a scalar -/

/-- The integer a scalar writes. -/
def int? (v : Value) : Option Int :=
  v.text?.bind Number.readInteger

/-- The number a scalar writes. -/
def float? (v : Value) : Option Number.Binary64 :=
  v.text?.bind Number.Binary64.read

/-- The truth value a scalar writes. -/
def bool? (v : Value) : Option Bool :=
  v.text?.bind Scalar.readBool

/-- Whether the value can stand where a kind is asked for: arrays where
arrays are, and scalars where their text allows it. -/
def fits (v : Value) (kind : Kind) : Bool :=
  match v with
  | scalar _ _ s => kind.accepts s
  | array _ _ => kind == .array

/-- The scalar read as the kind asked for. Arrays are never read as
anything. -/
def coerce (v : Value) (kind : Kind) : Option Value :=
  match v with
  | scalar t k s => (kind.coerce k s).map fun k' => scalar t k' s
  | array _ _ => none

/-! ## Changing -/

/-- The value under another name, or under none. -/
def rename (v : Value) (name : Option String) : Value :=
  match v with
  | scalar t k s => scalar { t with name } k s
  | array t vs => array { t with name } vs

@[simp] theorem name_rename (v : Value) (n : Option String) : (v.rename n).name = n := by
  cases v <;> rfl

@[simp] theorem position_rename (v : Value) (n : Option String) :
    (v.rename n).position = v.position := by
  cases v <;> rfl

@[simp] theorem kind_rename (v : Value) (n : Option String) : (v.rename n).kind = v.kind := by
  cases v <;> rfl

theorem rename_self (v : Value) : v.rename v.name = v := by
  cases v <;> rfl

theorem rename_rename (v : Value) (m n : Option String) : (v.rename m).rename n = v.rename n := by
  cases v <;> rfl

mutual

/-- The value without its places, as one that no script wrote. -/
def detach : Value → Value
  | scalar t k s => scalar { t with position := .synthetic } k s
  | array t vs => array { t with position := .synthetic } (detachAll vs)

/-- The values without their places. -/
def detachAll : List Value → List Value
  | [] => []
  | v :: vs => detach v :: detachAll vs

end

theorem detachAll_eq_map (vs : List Value) : detachAll vs = vs.map detach := by
  induction vs with
  | nil => rfl
  | cons v vs ih => simp [detachAll, ih]

mutual

/-- What has no places loses none. -/
theorem detach_detach : (v : Value) → v.detach.detach = v.detach
  | scalar _ _ _ => rfl
  | array _ vs => by simp [detach, detachAll_detachAll vs]

theorem detachAll_detachAll : (vs : List Value) → detachAll (detachAll vs) = detachAll vs
  | [] => rfl
  | v :: vs => by simp [detachAll, detach_detach v, detachAll_detachAll vs]

end

/-! ## Equality -/

mutual

/-- Values are equal when kinds, texts, items, names and places are. -/
def decEq : (v w : Value) → Decidable (v = w)
  | scalar t k s, scalar t' k' s' =>
    if h : t = t' ∧ k = k' ∧ s = s' then isTrue (by obtain ⟨rfl, rfl, rfl⟩ := h; rfl)
    else isFalse (fun e => h (by cases e; exact ⟨rfl, rfl, rfl⟩))
  | array t vs, array t' vs' =>
    match decEqAll vs vs' with
    | isTrue hv =>
      if h : t = t' then isTrue (by rw [h, hv]) else isFalse (fun e => h (by cases e; rfl))
    | isFalse hv => isFalse (fun e => hv (by cases e; rfl))
  | scalar _ _ _, array _ _ => isFalse nofun
  | array _ _, scalar _ _ _ => isFalse nofun

/-- Lists of values are equal when their members are, in order. -/
def decEqAll : (vs ws : List Value) → Decidable (vs = ws)
  | [], [] => isTrue rfl
  | v :: vs, w :: ws =>
    match decEq v w, decEqAll vs ws with
    | isTrue h, isTrue hs => isTrue (by rw [h, hs])
    | isFalse h, _ => isFalse (fun e => h (by cases e; rfl))
    | _, isFalse hs => isFalse (fun e => hs (by cases e; rfl))
  | [], _ :: _ => isFalse nofun
  | _ :: _, [] => isFalse nofun

end

instance : DecidableEq Value := decEq

/-! ## Printing -/

/-- The name before a printed value. -/
def labelText : Option String → String
  | none => ""
  | some name => name ++ ": "

mutual

/-- The value as a script writes it, without its name. -/
def literal : Value → String
  | scalar _ .string s => "\"" ++ s ++ "\""
  | scalar _ _ s => s
  | array _ vs => "(" ++ ", ".intercalate (literals vs) ++ ")"

/-- The values in order, each under its name. -/
def literals : List Value → List String
  | [] => []
  | v :: vs => (labelText v.name ++ literal v) :: literals vs

end

/-- **The value as a script writes it**, under its name. -/
def render (v : Value) : String :=
  labelText v.name ++ v.literal

theorem literals_eq_map (vs : List Value) : literals vs = vs.map render := by
  induction vs with
  | nil => rfl
  | cons v vs ih => simp [literals, ih, render]

@[simp] theorem literal_rename (v : Value) (n : Option String) :
    (v.rename n).literal = v.literal := by
  cases v with
  | scalar t k s => cases k <;> rfl
  | array t vs => simp [rename, literal]

end Value

end CommandScript
