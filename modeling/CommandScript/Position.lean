/-!
# Positions

A place in a script: a line and a column, both counted from one, the column
in characters. Line zero marks a value that no script wrote.
-/

namespace CommandScript

/-- A line and a column. -/
structure Position where
  /-- The line, from one; zero for what no script wrote. -/
  line : Nat := 0
  /-- The column, from one. -/
  column : Nat := 0
deriving DecidableEq, Inhabited

namespace Position

/-- Where numbering of lines and columns stops: the largest 32-bit number. -/
def last : Nat := 0xFFFFFFFF

/-- The number of the line or column with `index` others before it. -/
def ordinal (index : Nat) : Nat :=
  min (index + 1) last

/-- The place of values that no script wrote. -/
def synthetic : Position := {}

/-- Whether this is a place outside every script. -/
def isSynthetic (p : Position) : Bool :=
  p.line == 0

/-- The first place of a script. -/
def start : Position := ⟨1, 1⟩

/-- The next column of the same line. -/
def next (p : Position) : Position :=
  { p with column := p.column + 1 }

/-- Reading order: by line, then by column. -/
instance : Ord Position where
  compare p q := (compare p.line q.line).then (compare p.column q.column)

/-- The written form `line:column`. -/
def text (p : Position) : String :=
  toString p.line ++ ":" ++ toString p.column

theorem ordinal_pos (index : Nat) : 0 < ordinal index := by
  have h : 0 < last := by decide
  unfold ordinal
  omega

theorem ordinal_of_lt {index : Nat} (h : index < last) : ordinal index = index + 1 := by
  unfold ordinal
  omega

theorem ordinal_mono {i j : Nat} (h : i ≤ j) : ordinal i ≤ ordinal j := by
  unfold ordinal
  omega

end Position

end CommandScript
