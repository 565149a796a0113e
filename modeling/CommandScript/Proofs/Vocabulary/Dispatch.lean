import CommandScript.Vocabulary.CommandTable
import Mathlib.Logic.Relation

/-!
# What a call depends on

A call goes to the first overload that accepts it of the commands that it may
go to, and no other command of the table has a say: others may come, go and
move about (`Edit`). Commands registered later come last, so that they answer
only the calls that nobody answered before. And a command is no more than its
overloads in order, so that it may as well be two. All of this is read off the
list of candidates, on which `resolve` depends alone (`resolve_congr`).
-/

namespace CommandScript

variable {η : Type}

/-- What a caller sees of a call: the handler and the arguments for it. -/
def Call.answer (call : Call η) : η × Value :=
  (call.handler, call.arguments)

/-- Whether a call of a name may go to the command in a mode. -/
def Command.mayAnswer (c : Command η) (name : String) (mode : Int) : Bool :=
  c.isValidIn mode && c.isNamed name

/-- The overloads of a command answer in order, whatever they are counted
from. -/
theorem Command.answer_callFrom (c : Command η) (arguments : Value) :
    ∀ (signatures : List Signature) (index : Nat),
      (c.callFrom arguments index signatures).map Call.answer =
        (signatures.findSome? fun s => s.resolve arguments).map (Prod.mk c.handler) := by
  intro signatures
  induction signatures with
  | nil => exact fun _ => rfl
  | cons s rest ih =>
    intro index
    rw [callFrom, List.findSome?_cons]
    cases hs : s.resolve arguments with
    | some v => rfl
    | none => exact ih (index + 1)

namespace CommandTable

variable {t u : CommandTable η} {name : String} {arguments : Value} {mode : Int} {c : Command η}
  {cs ds before behind : List (Command η)}

/-- What a call comes to: an answer, or a diagnostic. -/
def outcome (t : CommandTable η) (name : String) (arguments : Value) (mode : Int) :
    Except Diagnostic (η × Value) :=
  (t.resolve name arguments mode).map Call.answer

/-- The table with more commands, registered one after the other. -/
def registerAll (t : CommandTable η) (cs : List (Command η)) : CommandTable η :=
  cs.foldl register t

/-- The forms of the overloads of commands. -/
def forms (cs : List (Command η)) : List String :=
  cs.flatMap fun c => c.signatures.map Signature.render

/-- **A command that has no say** in a call: it has another name, or it may not
be used in the mode and another of the name may. -/
def Idle (name : String) (mode : Int) (others : List (Command η)) (c : Command η) : Prop :=
  c.isNamed name = false ∨
    c.isValidIn mode = false ∧ ∃ d ∈ others, d.isNamed name = true ∧ d.isValidIn mode = true

/-- **Changes to a table that a call does not notice**: commands without a say
come, go and move about. -/
inductive Edit (name : String) (mode : Int) : List (Command η) → List (Command η) → Prop
  | insert {before behind : List (Command η)} {c : Command η} :
      Idle name mode (before ++ behind) c →
      Edit name mode (before ++ behind) (before ++ c :: behind)
  | remove {before behind : List (Command η)} {c : Command η} :
      Idle name mode (before ++ behind) c →
      Edit name mode (before ++ c :: behind) (before ++ behind)
  | move {before behind before' behind' : List (Command η)} {c : Command η} :
      Idle name mode (before ++ behind) c → before ++ behind = before' ++ behind' →
      Edit name mode (before ++ c :: behind) (before' ++ c :: behind')

/-! ## Candidates -/

theorem candidates_eq (cs : List (Command η)) (name : String) (mode : Int) :
    candidates ⟨cs⟩ name mode = cs.filter fun c => c.mayAnswer name mode :=
  List.filter_filter

/-- Of commands that are candidates alike, all are or none is. -/
theorem candidates_of_alike {alike : Bool} (h : ∀ d ∈ ds, d.mayAnswer name mode = alike) :
    candidates ⟨ds⟩ name mode = if alike then ds else [] := by
  rw [candidates_eq, List.filter_congr h]
  cases alike with
  | true => exact List.filter_eq_self.2 fun _ _ => rfl
  | false => exact List.filter_eq_nil_iff.2 fun _ _ => Bool.false_ne_true

theorem candidates_append (cs ds : List (Command η)) (name : String) (mode : Int) :
    candidates ⟨cs ++ ds⟩ name mode = candidates ⟨cs⟩ name mode ++ candidates ⟨ds⟩ name mode := by
  rw [candidates_eq, candidates_eq, candidates_eq, List.filter_append]

theorem commands_registerAll (cs : List (Command η)) :
    ∀ t : CommandTable η, (t.registerAll cs).commands = t.commands ++ cs := by
  induction cs with
  | nil => exact fun t => (List.append_nil _).symm
  | cons c cs ih =>
    intro t
    change ((t.register c).registerAll cs).commands = _
    rw [ih, register]
    exact List.append_assoc _ _ _

/-- Where a command may be called, there is one of the name. -/
theorem contains_of_candidates (h : t.candidates name mode ≠ []) : t.contains name = true := by
  unfold contains
  cases hlookup : t.lookup name with
  | nil =>
    unfold candidates at h
    rw [hlookup] at h
    exact absurd rfl h
  | cons c cs => rfl

/-- **A call depends on its candidates**, and where there are none on whether
a command has the name. -/
theorem resolve_congr (hcontains : t.contains name = u.contains name)
    (hcandidates : t.candidates name mode = u.candidates name mode) :
    t.resolve name arguments mode = u.resolve name arguments mode := by
  unfold resolve
  rw [hcontains, hcandidates]

/-- Where there are candidates, they decide. -/
theorem resolve_of_candidates (h : t.candidates name mode ≠ []) :
    t.resolve name arguments mode =
      match (t.candidates name mode).findSome? fun c => c.call? arguments with
      | some call => .ok call
      | none => .error ⟨.noMatchingOverload name (forms (t.candidates name mode)), none⟩ := by
  unfold resolve
  rw [contains_of_candidates h, List.isEmpty_eq_false_iff.2 h]
  rfl

/-- **A call is answered** by the first candidate that accepts it. -/
theorem resolve_eq_ok_iff {call : Call η} :
    t.resolve name arguments mode = .ok call ↔
      ((t.candidates name mode).findSome? fun c => c.call? arguments) = some call := by
  by_cases h : t.candidates name mode = []
  · rw [h]
    constructor
    · intro hok
      unfold resolve at hok
      rw [h] at hok
      split at hok <;> cases hok
    · intro hnone
      cases hnone
  · rw [resolve_of_candidates h]
    cases (t.candidates name mode).findSome? fun c => c.call? arguments with
    | none => simp
    | some made => simp

/-- **A call fails for want of an overload** when there are candidates and none
accepts it. -/
theorem resolve_eq_noMatching_iff {d : Diagnostic} {n : String} {listed : List String} :
    t.resolve name arguments mode = .error d ∧ d.cause = .noMatchingOverload n listed ↔
      t.candidates name mode ≠ [] ∧
        ((t.candidates name mode).findSome? fun c => c.call? arguments) = none ∧
        n = name ∧ listed = forms (t.candidates name mode) ∧
        d = ⟨.noMatchingOverload n listed, none⟩ := by
  constructor
  · rintro ⟨h, hcause⟩
    by_cases hne : t.candidates name mode = []
    · unfold resolve at h
      rw [hne] at h
      split at h
      · cases h
        cases hcause
      · cases h
        cases hcause
    · rw [resolve_of_candidates hne] at h
      cases hfind : (t.candidates name mode).findSome? fun c => c.call? arguments with
      | some made =>
        rw [hfind] at h
        cases h
      | none =>
        rw [hfind] at h
        cases h
        cases hcause
        exact ⟨hne, rfl, rfl, rfl, rfl⟩
  · rintro ⟨hne, hfind, rfl, rfl, rfl⟩
    rw [resolve_of_candidates hne, hfind]
    exact ⟨rfl, rfl⟩

/-! ## Commands without a say -/

/-- A command without a say is no candidate. -/
theorem Idle.candidates (h : Idle name mode (before ++ behind) c) :
    candidates ⟨before ++ c :: behind⟩ name mode = candidates ⟨before ++ behind⟩ name mode := by
  have hc : c.mayAnswer name mode = false := by
    unfold Command.mayAnswer
    rcases h with h | ⟨h, -⟩
    · rw [h, Bool.and_false]
    · rw [h, Bool.false_and]
  rw [candidates_eq, candidates_eq, List.filter_append, List.filter_append, List.filter_cons, hc]
  rfl

/-- A command without a say makes no name known. -/
theorem Idle.contains (h : Idle name mode (before ++ behind) c) :
    contains ⟨before ++ c :: behind⟩ name = contains ⟨before ++ behind⟩ name := by
  rcases h with h | ⟨hc, d, hd, hname, hmode⟩
  · unfold CommandTable.contains lookup
    rw [List.filter_append, List.filter_append, List.filter_cons, h]
    rfl
  · have hmem : d ∈ CommandTable.candidates ⟨before ++ behind⟩ name mode := by
      rw [candidates_eq, List.mem_filter, Command.mayAnswer, hname, hmode]
      exact ⟨hd, rfl⟩
    have hne := List.ne_nil_of_mem hmem
    have hidle : Idle name mode (before ++ behind) c := .inr ⟨hc, d, hd, hname, hmode⟩
    have hall : CommandTable.candidates ⟨before ++ c :: behind⟩ name mode ≠ [] := by
      rw [hidle.candidates]
      exact hne
    rw [contains_of_candidates hne, contains_of_candidates hall]

/-- **A command without a say changes no outcome.** -/
theorem Idle.resolve (h : Idle name mode (before ++ behind) c) :
    resolve ⟨before ++ c :: behind⟩ name arguments mode =
      resolve ⟨before ++ behind⟩ name arguments mode :=
  resolve_congr h.contains h.candidates

/-- **No change of the kind is noticed.** -/
theorem Edit.resolve (h : Edit name mode cs ds) :
    resolve ⟨cs⟩ name arguments mode = resolve ⟨ds⟩ name arguments mode := by
  cases h with
  | insert hidle => exact hidle.resolve.symm
  | remove hidle => exact hidle.resolve
  | move hidle hrest =>
    rw [hidle.resolve]
    rw [hrest] at hidle ⊢
    exact hidle.resolve.symm

/-- Nor are many. -/
theorem resolve_of_edits (h : Relation.ReflTransGen (Edit name mode) cs ds) :
    resolve ⟨cs⟩ name arguments mode = resolve ⟨ds⟩ name arguments mode := by
  induction h with
  | refl => rfl
  | tail _ hedit ih => exact ih.trans hedit.resolve

/-! ## Commands registered later -/

theorem candidates_registerAll (t : CommandTable η) (cs : List (Command η)) (name : String)
    (mode : Int) :
    (t.registerAll cs).candidates name mode =
      t.candidates name mode ++ candidates ⟨cs⟩ name mode := by
  have htable : t.registerAll cs = ⟨t.commands ++ cs⟩ :=
    congrArg CommandTable.mk (commands_registerAll cs t)
  rw [htable, candidates_append]

/-- **A call that is answered stays so.** -/
theorem resolve_registerAll_of_ok {call : Call η} (h : t.resolve name arguments mode = .ok call)
    (cs : List (Command η)) : (t.registerAll cs).resolve name arguments mode = .ok call := by
  rw [resolve_eq_ok_iff] at h ⊢
  rw [candidates_registerAll, List.findSome?_append, h]
  rfl

/-- **A call without an overload** goes to the commands registered later, and
the forms of theirs are listed behind the others. -/
theorem resolve_registerAll_of_noMatching {d : Diagnostic} {n : String} {listed : List String}
    (h : t.resolve name arguments mode = .error d) (hcause : d.cause = .noMatchingOverload n listed)
    (cs : List (Command η)) :
    (∃ c ∈ candidates ⟨cs⟩ name mode, ∃ call, c.call? arguments = some call ∧
        (t.registerAll cs).resolve name arguments mode = .ok call) ∨
      (t.registerAll cs).resolve name arguments mode =
        .error ⟨.noMatchingOverload n (listed ++ forms (candidates ⟨cs⟩ name mode)), none⟩ := by
  obtain ⟨hne, hfind, rfl, rfl, rfl⟩ := resolve_eq_noMatching_iff.1 ⟨h, hcause⟩
  have hall := candidates_registerAll t cs n mode
  have hcandidates : (t.registerAll cs).candidates n mode ≠ [] := by
    rw [hall]
    exact List.append_ne_nil_of_left_ne_nil hne _
  have hfindAll : ((t.registerAll cs).candidates n mode).findSome? (fun c => c.call? arguments) =
      (candidates ⟨cs⟩ n mode).findSome? fun c => c.call? arguments := by
    rw [hall, List.findSome?_append, hfind, Option.none_or]
  cases hlater : (candidates ⟨cs⟩ n mode).findSome? fun c => c.call? arguments with
  | some call =>
    obtain ⟨c, hc, hcall⟩ := List.exists_of_findSome?_eq_some hlater
    exact .inl ⟨c, hc, call, hcall, resolve_eq_ok_iff.2 (hfindAll.trans hlater)⟩
  | none =>
    refine .inr ?_
    rw [resolve_of_candidates hcandidates, hfindAll, hlater, hall, forms, List.flatMap_append]
    rfl

/-! ## A command in two -/

/-- The first answer of commands. -/
def answer? (arguments : Value) (cs : List (Command η)) : Option (η × Value) :=
  cs.findSome? fun c => (c.call? arguments).map Call.answer

/-- **What a call comes to**, by the commands of the name and the candidates
among them: their first answer, if there are any. -/
theorem outcome_eq (t : CommandTable η) (name : String) (arguments : Value) (mode : Int) :
    t.outcome name arguments mode =
      if (t.lookup name).isEmpty then .error ⟨.unknownCommand name, none⟩
      else if (t.candidates name mode).isEmpty then .error ⟨.wrongMode name mode, none⟩
      else
        match answer? arguments (t.candidates name mode) with
        | some answer => .ok answer
        | none => .error ⟨.noMatchingOverload name (forms (t.candidates name mode)), none⟩ := by
  have hmap : ((t.candidates name mode).findSome? fun c => c.call? arguments).map Call.answer =
      answer? arguments (t.candidates name mode) := List.map_findSome?
  unfold outcome resolve contains
  rw [Bool.not_not, ← hmap]
  cases (t.lookup name).isEmpty with
  | true => rfl
  | false =>
    cases (t.candidates name mode).isEmpty with
    | true => rfl
    | false => cases (t.candidates name mode).findSome? fun c => c.call? arguments <;> rfl

/-- **Commands may stand in for others** that are found and answer alike. -/
theorem outcome_replace (before behind ms ns : List (Command η))
    (hlookup : lookup ⟨ms⟩ name = [] ↔ lookup ⟨ns⟩ name = [])
    (hempty : candidates ⟨ms⟩ name mode = [] ↔ candidates ⟨ns⟩ name mode = [])
    (hforms : forms (candidates ⟨ms⟩ name mode) = forms (candidates ⟨ns⟩ name mode))
    (hanswer : answer? arguments (candidates ⟨ms⟩ name mode) =
      answer? arguments (candidates ⟨ns⟩ name mode)) :
    outcome ⟨before ++ (ms ++ behind)⟩ name arguments mode =
      outcome ⟨before ++ (ns ++ behind)⟩ name arguments mode := by
  have hall (ks : List (Command η)) : lookup ⟨before ++ (ks ++ behind)⟩ name =
      lookup ⟨before⟩ name ++ (lookup ⟨ks⟩ name ++ lookup ⟨behind⟩ name) := by
    unfold lookup
    rw [List.filter_append, List.filter_append]
  unfold forms at hforms
  unfold answer? at hanswer
  rw [outcome_eq, outcome_eq]
  simp only [hall, candidates_append, List.isEmpty_iff, List.append_eq_nil_iff, forms, answer?,
    List.flatMap_append, List.findSome?_append, hlookup, hempty, hforms, hanswer]

/-- The overloads of a command answer as those of two commands do, one behind
the other. -/
theorem answer?_of_append (c : Command η) {xs ys : List Signature} (h : c.signatures = xs ++ ys)
    (arguments : Value) :
    answer? arguments [{ c with signatures := xs }, { c with signatures := ys }] =
      answer? arguments [c] := by
  simp only [answer?, Command.call?, Command.answer_callFrom, List.findSome?_cons,
    List.findSome?_nil, h, List.findSome?_append]
  cases xs.findSome? fun s => s.resolve arguments <;> rfl

/-- **A command may as well be two**, with the first and the last of its
overloads: every call comes to the same. -/
theorem outcome_split (before behind : List (Command η)) {c : Command η} {xs ys : List Signature}
    (h : c.signatures = xs ++ ys) (name : String) (arguments : Value) (mode : Int) :
    outcome ⟨before ++ { c with signatures := xs } :: { c with signatures := ys } :: behind⟩
        name arguments mode =
      outcome ⟨before ++ c :: behind⟩ name arguments mode := by
  -- both commands are found where the one was
  have hnamed (zs : List Signature) : ({ c with signatures := zs } : Command η).isNamed name =
      c.isNamed name := rfl
  have hlookup : lookup ⟨[{ c with signatures := xs }, { c with signatures := ys }]⟩ name = [] ↔
      lookup ⟨[c]⟩ name = [] := by
    simp only [lookup, List.filter_cons, List.filter_nil, hnamed]
    cases c.isNamed name <;> simp
  have hone := candidates_of_alike (List.forall_mem_singleton.2 (Eq.refl (c.mayAnswer name mode)))
  have htwo : candidates ⟨[{ c with signatures := xs }, { c with signatures := ys }]⟩ name mode =
      if c.mayAnswer name mode then _ else [] :=
    candidates_of_alike (List.forall_mem_cons.2 ⟨rfl, List.forall_mem_singleton.2 rfl⟩)
  refine outcome_replace before behind [_, _] [_] hlookup ?_ ?_ ?_ <;>
    rw [hone, htwo] <;> cases c.mayAnswer name mode
  · simp
  · simp
  · rfl
  · simp [forms, h]
  · rfl
  · exact answer?_of_append c h arguments

/-- **A call depends on the commands that it may go to, in order**, and a table
that grows answers as it did. Commands without a say may come, go and move
about unnoticed. Commands registered later leave every answer as it is, and a
call that found no overload goes to the first of them that accepts it, or
fails as before with their forms listed behind the others. And a command may as
well be registered in two parts, one behind the other. -/
theorem resolve_conservative (t : CommandTable η) (name : String) (arguments : Value)
    (mode : Int) :
    (∀ ds, Relation.ReflTransGen (Edit name mode) t.commands ds →
        resolve ⟨ds⟩ name arguments mode = t.resolve name arguments mode) ∧
      (∀ cs, (∀ call, t.resolve name arguments mode = .ok call →
          (t.registerAll cs).resolve name arguments mode = .ok call) ∧
        ∀ d n listed, t.resolve name arguments mode = .error d →
          d.cause = .noMatchingOverload n listed →
            (∃ c ∈ candidates ⟨cs⟩ name mode, ∃ call, c.call? arguments = some call ∧
                (t.registerAll cs).resolve name arguments mode = .ok call) ∨
              (t.registerAll cs).resolve name arguments mode =
                .error
                  ⟨.noMatchingOverload n (listed ++ forms (candidates ⟨cs⟩ name mode)), none⟩) ∧
      ∀ before behind (c : Command η) xs ys, t.commands = before ++ c :: behind →
        c.signatures = xs ++ ys →
          outcome ⟨before ++ { c with signatures := xs } :: { c with signatures := ys } :: behind⟩
              name arguments mode =
            t.outcome name arguments mode := by
  refine ⟨fun ds hds => (resolve_of_edits hds).symm, fun cs => ⟨fun call hcall => ?_, ?_⟩, ?_⟩
  · exact resolve_registerAll_of_ok hcall cs
  · exact fun d n listed hd hcause => resolve_registerAll_of_noMatching hd hcause cs
  · intro before behind c xs ys ht h
    obtain ⟨commands⟩ := t
    obtain rfl : commands = before ++ c :: behind := ht
    exact outcome_split before behind h name arguments mode

/-- Sets a tile to a number or to whether it is there. -/
def tile : Command String where
  name := "tile"
  modes := [1]
  signatures := [⟨[.scalar { name := "value" } .int]⟩, ⟨[.scalar { name := "value" } .bool]⟩]
  handler := "set"

/-- Names a tile, in another mode. -/
def nameTile : Command String where
  name := "Tile"
  modes := [2]
  signatures := [⟨[.scalar { name := "value" } .string]⟩]
  handler := "name"

/-- Moves a tile. -/
def moveTile : Command String where
  name := "Tile"
  modes := []
  signatures := [⟨[.scalar { name := "x" } .int, .scalar { name := "y" } .int]⟩]
  handler := "move"

/-- Paints a tile. -/
def paintTile : Command String where
  name := "Tile"
  modes := [1, 2]
  signatures := [⟨[.scalar { name := "color" } .string]⟩]
  handler := "paint"

/-- Lights a lamp. -/
def lamp : Command String where
  name := "lamp"
  modes := []
  signatures := [⟨[]⟩]
  handler := "light"

/-- A tile that is there is set among lamps, beside a command of its name for
another mode, and by a command in two parts. A red tile is not, until it can be
painted; before that, all forms that the mode allows are listed. -/
theorem resolve_conservative_tile :
    resolve ⟨[lamp, nameTile, tile]⟩ "TILE" (.list [.word "true"]) 1 =
        resolve ⟨[tile]⟩ "TILE" (.list [.word "true"]) 1 ∧
      (∃ call, resolve ⟨[tile]⟩ "TILE" (.list [.word "true"]) 1 = .ok call ∧
        (registerAll ⟨[tile]⟩ [lamp]).resolve "TILE" (.list [.word "true"]) 1 = .ok call) ∧
      (∃ call, paintTile.call? (.list [.word "red"]) = some call ∧
        (registerAll ⟨[tile]⟩ [nameTile, moveTile, paintTile]).resolve "TILE"
          (.list [.word "red"]) 1 = .ok call) ∧
      (registerAll ⟨[tile]⟩ [nameTile, moveTile]).resolve "TILE" (.list [.word "red"]) 1 =
        .error ⟨.noMatchingOverload "TILE" ["(int value)", "(bool value)", "(int x, int y)"],
          none⟩ ∧
      outcome ⟨[{ tile with signatures := tile.signatures.take 1 },
          { tile with signatures := tile.signatures.drop 1 }]⟩ "TILE" (.list [.word "true"]) 1 =
        outcome ⟨[tile]⟩ "TILE" (.list [.word "true"]) 1 := by
  have h := resolve_conservative ⟨[tile]⟩ "TILE" (.list [.word "true"]) 1
  have hred := resolve_conservative ⟨[tile]⟩ "TILE" (.list [.word "red"]) 1
  have hname : Idle "TILE" 1 ([] ++ [tile]) nameTile :=
    .inr ⟨by decide, tile, List.mem_singleton_self _, by decide, by decide⟩
  have hlamp : Idle "TILE" 1 ([] ++ [nameTile, tile]) lamp := .inl (by decide)
  have hsome : candidates ⟨[tile]⟩ "TILE" 1 ≠ [] := List.cons_ne_nil _ _
  have hnone : ((candidates ⟨[tile]⟩ "TILE" 1).findSome?
      fun c => c.call? (.list [.word "red"])) = none :=
    Option.not_isSome_iff_eq_none.1 (by decide +kernel)
  have hforms : forms (candidates ⟨[tile]⟩ "TILE" 1) = ["(int value)", "(bool value)"] := by
    decide +kernel
  obtain ⟨hd, hcause⟩ := resolve_eq_noMatching_iff.2 ⟨hsome, hnone, rfl, rfl, rfl⟩
  rw [hforms] at hcause
  have hmoves : moveTile.call? (.list [.word "red"]) = none :=
    Option.not_isSome_iff_eq_none.1 (by decide +kernel)
  refine ⟨h.1 _ (.tail (.single (.insert hname)) (.insert hlamp)), ?_, ?_, ?_,
    h.2.2 [] [] tile _ _ rfl rfl⟩
  · have hfound : (resolve ⟨[tile]⟩ "TILE" (.list [.word "true"]) 1).toOption.isSome = true := by
      decide +kernel
    cases hcall : resolve ⟨[tile]⟩ "TILE" (.list [.word "true"]) 1 with
    | error d =>
      rw [hcall] at hfound
      cases hfound
    | ok call => exact ⟨call, rfl, (h.2.1 [lamp]).1 call hcall⟩
  · have hfound : ((registerAll ⟨[tile]⟩ [nameTile, moveTile, paintTile]).resolve "TILE"
        (.list [.word "red"]) 1).toOption.isSome = true := by decide +kernel
    have hcandidates : candidates ⟨[nameTile, moveTile, paintTile]⟩ "TILE" 1 =
        [moveTile, paintTile] := rfl
    rcases (hred.2.1 _).2 _ _ _ hd hcause with ⟨c, hc, call, hcall, hok⟩ | hfails
    · rw [hcandidates] at hc
      rcases List.mem_cons.1 hc with rfl | hc
      · rw [hmoves] at hcall
        cases hcall
      · obtain rfl := List.mem_singleton.1 hc
        exact ⟨call, hcall, hok⟩
    · rw [hfails] at hfound
      cases hfound
  · have hcandidates : candidates ⟨[nameTile, moveTile]⟩ "TILE" 1 = [moveTile] := rfl
    have hmove : forms [moveTile] = ["(int x, int y)"] := by decide +kernel
    rcases (hred.2.1 [nameTile, moveTile]).2 _ _ _ hd hcause with ⟨c, hc, call, hcall, -⟩ | hfails
    · rw [hcandidates, List.mem_singleton] at hc
      rw [hc, hmoves] at hcall
      cases hcall
    · rw [hcandidates, hmove] at hfails
      exact hfails

end CommandTable

end CommandScript
