import Unbound.Source.Span

/-!
# Lines and columns

The line of a byte offset is found by binary search, the column by counting the characters since the
line began. The text need not be the one the table was built from: where the line start or the
offset cuts a character or lies outside the text, the column is one.

`position?` is undefined where a step leaves 32 bits; `position` goes on with the largest number.
-/

set_option autoImplicit false

namespace Unbound

/-- A place in a text, in lines and in characters of the line, both from one. -/
@[ext] structure Position where
  line : Nat
  column : Nat
deriving DecidableEq, Repr, Inhabited

namespace Position

instance : LE Position where
  le left right := left.line < right.line ∨ left.line = right.line ∧ left.column ≤ right.column

instance (left right : Position) : Decidable (left ≤ right) :=
  inferInstanceAs (Decidable
    (left.line < right.line ∨ left.line = right.line ∧ left.column ≤ right.column))

def origin : Position := ⟨1, 1⟩

theorem le_iff {left right : Position} :
    left ≤ right ↔
      left.line < right.line ∨ left.line = right.line ∧ left.column ≤ right.column := Iff.rfl

theorem le_refl (position : Position) : position ≤ position :=
  Or.inr ⟨rfl, Nat.le_refl position.column⟩

theorem le_trans {first second third : Position} (earlier : first ≤ second)
    (later : second ≤ third) : first ≤ third := by
  rw [le_iff] at *
  omega

theorem le_total (left right : Position) : left ≤ right ∨ right ≤ left := by
  rw [le_iff, le_iff]
  omega

theorem le_antisymm {left right : Position} (forward : left ≤ right) (backward : right ≤ left) :
    left = right := by
  rw [le_iff] at *
  apply Position.ext
  · omega
  · omega

end Position

/-- The number, from one, of the item that has `before` items before it, where the count is cut off
so that the number fits into 32 bits. -/
def ordinal (before : Nat) : Nat := min before (maxWord - 1) + 1

def addWords? (left right : Nat) : Option Nat :=
  if left + right ≤ maxWord then some (left + right) else none

def subtractWords? (left right : Nat) : Option Nat :=
  if right ≤ left then some (left - right) else none

/-- The same number, in 32 bits all the way. Only a count that does not fit into them is cut off:
the largest one that does stays what it is, and leaves no room for one more. -/
def ordinal? (before : Nat) : Option Nat :=
  addWords? (if before ≤ maxWord then before else maxWord - 1) 1

theorem ordinal?_eq (before : Nat) :
    ordinal? before = if before = maxWord then none else some (ordinal before) := by
  rw [ordinal?, addWords?, ordinal, maxWord]
  by_cases largest : before = 4294967295
  · rw [if_pos largest, if_neg (by split <;> omega)]
  · rw [if_neg largest, if_pos (by split <;> omega)]
    apply congrArg some
    split <;> omega

namespace Text

/-- The offset just past every line feed, in order, for characters that begin at `offset`.
Found starts are collected in `found`. -/
def lineStartsFrom (offset : Nat) (found : Array UInt32) : List Char → Array UInt32
  | [] => found
  | character :: rest =>
      let next := offset + character.utf8Size
      lineStartsFrom next
        (if character = '\n' then found.push (min next maxWord).toUInt32 else found) rest

/-- What remains after exactly `count` bytes, or nothing when these bytes end within a character
or past the last one. -/
def dropBytes? : List Char → Nat → Option (List Char)
  | characters, 0 => some characters
  | [], _ + 1 => none
  | character :: rest, count + 1 =>
      if character.utf8Size ≤ count + 1 then dropBytes? rest (count + 1 - character.utf8Size)
      else none

def countCharacters? (counted : Nat) : List Char → Nat → Option Nat
  | _, 0 => some counted
  | [], _ + 1 => none
  | character :: rest, count + 1 =>
      if character.utf8Size ≤ count + 1 then
        countCharacters? (counted + 1) rest (count + 1 - character.utf8Size)
      else none

/-- The number of characters between two byte offsets of a text, provided that both are character
boundaries of it. -/
def charactersBetween? (text : String) (start stop : Nat) : Option Nat := do
  let rest ← dropBytes? text.toList start
  countCharacters? 0 rest (stop - start)

/-- The number of characters between the start of a line and an offset, as far as the text reaches,
and zero where one of the two is no character boundary of it. -/
def charactersSince (text : String) (lineStart offset : Nat) : Nat :=
  let stop := max (min offset text.utf8ByteSize) lineStart
  (charactersBetween? text lineStart stop).getD 0

def column (text : String) (lineStart offset : Nat) : Nat :=
  ordinal (charactersSince text lineStart offset)

def column? (text : String) (lineStart offset : Nat) : Option Nat :=
  ordinal? (charactersSince text lineStart offset)

end Text

structure LineTable where
  starts : Array UInt32
deriving DecidableEq, Repr

namespace LineTable

/-- The first line begins at offset zero, every other one just past a line feed. -/
def ofText (text : String) : LineTable :=
  ⟨Text.lineStartsFrom 0 #[0] text.toList⟩

/-- The number of lines, where a line feed at the very end begins an empty last line. -/
def lineCount (table : LineTable) : Nat := table.starts.size

/-- For entries in ascending order, the first index in `low, …, high` whose entry lies past
`offset`, on condition that all entries below `low` do not and all from `high` on do. -/
def firstPast (starts : Array UInt32) (offset : UInt32) (low high : Nat) : Nat :=
  if low < high then
    let middle := low + (high - low) / 2
    match starts[middle]? with
    | some start =>
        if start ≤ offset then firstPast starts offset (middle + 1) high
        else firstPast starts offset low middle
    | none => low
  else low
termination_by high - low

/-- The index of the last line that begins at or before `offset`. -/
def lineIndex (table : LineTable) (offset : UInt32) : Nat :=
  firstPast table.starts offset 0 table.starts.size - 1

def line (table : LineTable) (offset : UInt32) : Nat := ordinal (table.lineIndex offset)

def position (table : LineTable) (text : String) (offset : UInt32) : Position :=
  let line := table.line offset
  let lineStart := (table.starts[line - 1]?).getD 0
  ⟨line, Text.column text lineStart.toNat offset.toNat⟩

def line? (table : LineTable) (offset : UInt32) : Option Nat := ordinal? (table.lineIndex offset)

/-- The position of an offset on the line with the given index, in 32 bits all the way. -/
def positionOn? (table : LineTable) (text : String) (index : Nat) (offset : UInt32) :
    Option Position := do
  let line ← ordinal? index
  let before ← subtractWords? line 1
  let lineStart := (table.starts[before]?).getD 0
  let column ← Text.column? text lineStart.toNat offset.toNat
  return ⟨line, column⟩

def position? (table : LineTable) (text : String) (offset : UInt32) : Option Position :=
  table.positionOn? text (table.lineIndex offset) offset

/-- Taking one away from a number that was counted from one is always possible. -/
theorem positionOn?_eq (table : LineTable) (text : String) (index : Nat) (offset : UInt32) :
    table.positionOn? text index offset =
      let lineStart := (table.starts[ordinal index - 1]?).getD 0
      if index = maxWord then none
      else (Text.column? text lineStart.toNat offset.toNat).map (⟨ordinal index, ·⟩) := by
  have positive : 1 ≤ ordinal index := Nat.succ_pos _
  rw [positionOn?, ordinal?_eq]
  split
  case isTrue => rfl
  case isFalse =>
    rw [Option.bind_eq_bind, Option.bind_some, subtractWords?, if_pos positive, Option.bind_some,
      Option.map_eq_bind]
    rfl

theorem position_eq_of_position?_eq_some {table : LineTable} {text : String} {offset : UInt32}
    {found : Position} (defined : table.position? text offset = some found) :
    table.position text offset = found := by
  rw [position?, positionOn?_eq] at defined
  dsimp only at defined
  split at defined
  case isTrue => cases defined
  case isFalse =>
    obtain ⟨column, counted, rfl⟩ := Option.map_eq_some_iff.mp defined
    rw [Text.column?, ordinal?_eq] at counted
    split at counted
    case isTrue => cases counted
    case isFalse =>
      cases counted
      rfl

end LineTable

end Unbound
