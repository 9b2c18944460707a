import Mathlib.Data.List.Induction
import Unbound.Source.Position

/-!
# Positions read off the text

A position is what one counts while reading the text. `LineTable.position` finds the same by binary
search and by decoding one line, as long as the text is shorter than 32 bits can count.
-/

set_option autoImplicit false

namespace Unbound

namespace Position

def advance (position : Position) (character : Char) : Position :=
  if character = '\n' then ⟨position.line + 1, 1⟩ else ⟨position.line, position.column + 1⟩

def after (characters : List Char) : Position := characters.foldl advance origin

theorem after_concat (characters : List Char) (character : Char) :
    after (characters ++ [character]) = (after characters).advance character := by
  rw [after, List.foldl_append]
  rfl

theorem le_advance (position : Position) (character : Char) :
    position ≤ position.advance character := by
  rw [advance, le_iff]
  split
  case isTrue => exact Or.inl (Nat.lt_succ_self position.line)
  case isFalse => exact Or.inr ⟨rfl, Nat.le_succ position.column⟩

theorem after_le_after_append (first second : List Char) :
    after first ≤ after (first ++ second) := by
  induction second using List.reverseRecOn with
  | nil =>
      rw [List.append_nil]
      exact le_refl _
  | append_singleton second character induction =>
      rw [← List.append_assoc, after_concat]
      exact le_trans induction (le_advance _ _)

end Position

namespace Text

def byteSize : List Char → Nat
  | [] => 0
  | character :: rest => character.utf8Size + byteSize rest

@[simp] theorem byteSize_append (first second : List Char) :
    byteSize (first ++ second) = byteSize first + byteSize second := by
  induction first with
  | nil => exact (Nat.zero_add _).symm
  | cons character first induction =>
      rw [List.cons_append, byteSize, induction, byteSize, Nat.add_assoc]

theorem utf8ByteSize_eq (text : String) : text.utf8ByteSize = byteSize text.toList := by
  have ofList : ∀ characters : List Char,
      (String.ofList characters).utf8ByteSize = byteSize characters := by
    intro characters
    induction characters with
    | nil => rfl
    | cons character rest induction =>
        rw [String.ofList_cons, String.utf8ByteSize_append, String.utf8ByteSize_singleton,
          induction]
        rfl
  rw [← ofList, String.ofList_toList]

theorem length_le_byteSize (characters : List Char) :
    characters.length ≤ byteSize characters := by
  induction characters with
  | nil => exact Nat.le_refl 0
  | cons character rest induction =>
      have positive := character.utf8Size_pos
      rw [List.length_cons, byteSize]
      omega

theorem eq_nil_of_byteSize_eq_zero {characters : List Char} (none : byteSize characters = 0) :
    characters = [] := by
  have short := length_le_byteSize characters
  rw [none] at short
  exact List.length_eq_zero_iff.mp (Nat.le_zero.mp short)

theorem byteSize_cons_eq_succ (character : Char) (rest : List Char) :
    ∃ count, byteSize (character :: rest) = count + 1 ∧ character.utf8Size ≤ count + 1 ∧
      count + 1 - character.utf8Size = byteSize rest := by
  have positive := character.utf8Size_pos
  refine ⟨character.utf8Size - 1 + byteSize rest, ?_, ?_, ?_⟩
  · rw [byteSize]
    omega
  · omega
  · omega

theorem dropBytes?_append (before after : List Char) :
    dropBytes? (before ++ after) (byteSize before) = some after := by
  induction before with
  | nil =>
      cases after with
      | nil => rfl
      | cons character rest => rfl
  | cons character before induction =>
      obtain ⟨count, total, fits, rest⟩ := byteSize_cons_eq_succ character before
      rw [total, List.cons_append, dropBytes?, if_pos fits, rest, induction]

theorem countCharacters?_append (counted : Nat) (before after : List Char) (further : Nat) :
    countCharacters? counted (before ++ after) (byteSize before + further) =
      countCharacters? (counted + before.length) after further := by
  induction before generalizing counted with
  | nil => rw [List.nil_append, byteSize, Nat.zero_add, List.length_nil, Nat.add_zero]
  | cons character before induction =>
      have positive := character.utf8Size_pos
      obtain ⟨count, total⟩ :
          ∃ count, byteSize (character :: before) + further = count + 1 := by
        rw [byteSize]
        exact ⟨character.utf8Size + byteSize before + further - 1, by omega⟩
      have fits : character.utf8Size ≤ count + 1 := by
        rw [← total, byteSize]
        omega
      have rest : count + 1 - character.utf8Size = byteSize before + further := by
        rw [← total, byteSize]
        omega
      rw [total, List.cons_append, countCharacters?, if_pos fits, rest, induction,
        List.length_cons, Nat.add_assoc, Nat.add_comm 1]

theorem countCharacters?_zero (counted : Nat) (characters : List Char) :
    countCharacters? counted characters 0 = some counted := by
  cases characters with
  | nil => rfl
  | cons character rest => rfl

theorem prefix_of_byteSize_le {text first second firstRest secondRest : List Char}
    (firstSplit : text = first ++ firstRest) (secondSplit : text = second ++ secondRest)
    (le : byteSize first ≤ byteSize second) : first <+: second := by
  have firstPrefix : first <+: text := ⟨firstRest, firstSplit.symm⟩
  have secondPrefix : second <+: text := ⟨secondRest, secondSplit.symm⟩
  rcases List.prefix_or_prefix_of_prefix firstPrefix secondPrefix with shorter | longer
  · exact shorter
  · obtain ⟨extra, rfl⟩ := longer
    rw [byteSize_append] at le
    have none : extra = [] := eq_nil_of_byteSize_eq_zero (by omega)
    subst none
    exact ⟨[], by simp only [List.append_nil]⟩

/-- The offset does not cut a character in two. Past the end of the text it stands for the end. -/
def Marks (text : String) (offset : UInt32) : Prop :=
  (String.Pos.Raw.mk offset.toNat).IsValid text ∨ text.utf8ByteSize ≤ offset.toNat

instance (text : String) (offset : UInt32) : Decidable (Marks text offset) :=
  inferInstanceAs (Decidable (_ ∨ _))

theorem exists_split_of_marks {text : String} {offset : UInt32} (marks : Marks text offset) :
    ∃ before after, text.toList = before ++ after ∧
      min offset.toNat text.utf8ByteSize = byteSize before := by
  rcases marks with boundary | past
  · obtain ⟨before, after, split, place⟩ := String.Pos.Raw.isValid_iff_exists_append.mp boundary
    have size : offset.toNat = before.utf8ByteSize := congrArg String.Pos.Raw.byteIdx place
    refine ⟨before.toList, after.toList, ?_, ?_⟩
    · rw [split, String.toList_append]
    · rw [split, String.utf8ByteSize_append, size, ← utf8ByteSize_eq]
      exact Nat.min_eq_left (Nat.le_add_right _ _)
  · refine ⟨text.toList, [], (List.append_nil _).symm, ?_⟩
    rw [Nat.min_eq_right past, utf8ByteSize_eq]

/-- The characters of a text that end at or before an offset, and those after them. -/
structure PartsAt (text : String) (offset : Nat) (before after : List Char) : Prop where
  split : text.toList = before ++ after
  reached : byteSize before ≤ offset
  ahead : ∀ character rest, after = character :: rest →
    offset < byteSize before + character.utf8Size

theorem PartsAt.size_eq {text : String} {offset : Nat} {before after : List Char}
    (parts : PartsAt text offset before after) :
    text.utf8ByteSize = byteSize before + byteSize after := by
  rw [utf8ByteSize_eq, parts.split, byteSize_append]

theorem exists_partsAt (text : String) (offset : Nat) :
    ∃ before after, PartsAt text offset before after := by
  -- The induction is on the characters that may still end before the offset.
  have onward : ∀ after before : List Char, text.toList = before ++ after →
      byteSize before ≤ offset → ∃ before after, PartsAt text offset before after := by
    intro after
    induction after with
    | nil =>
        intro before split reached
        exact ⟨before, [], split, reached, fun _ _ none => nomatch none⟩
    | cons character after induction =>
        intro before split reached
        by_cases fits : byteSize before + character.utf8Size ≤ offset
        · apply induction (before ++ [character])
          · rw [split, List.append_assoc]
            rfl
          · rw [byteSize_append]
            exact fits
        · refine ⟨before, character :: after, split, reached, ?_⟩
          intro other rest same
          cases same
          omega
  exact onward text.toList [] rfl (Nat.zero_le _)

/-- The offset does not cut a character in two if the characters before it take up all bytes before
it, and it does if they do not. -/
theorem PartsAt.marks_iff {text : String} {offset : UInt32} {before after : List Char}
    (parts : PartsAt text offset.toNat before after) :
    Marks text offset ↔ min offset.toNat text.utf8ByteSize = byteSize before := by
  have size := parts.size_eq
  have reached := parts.reached
  constructor
  · intro marks
    obtain ⟨other, rest, split, total⟩ := exists_split_of_marks marks
    have le : byteSize before ≤ byteSize other := by omega
    obtain ⟨extra, rfl⟩ := prefix_of_byteSize_le parts.split split le
    have same : extra ++ rest = after := by
      rw [parts.split, List.append_assoc] at split
      exact (List.append_cancel_left split).symm
    cases extra with
    | nil => rw [total, List.append_nil]
    | cons character extra =>
        have ahead := parts.ahead character (extra ++ rest) same.symm
        rw [byteSize_append, byteSize] at total
        omega
  · intro total
    cases after with
    | nil =>
        rw [byteSize] at size
        exact Or.inr (by omega)
    | cons character rest =>
        have ahead := parts.ahead character rest rfl
        have positive := character.utf8Size_pos
        rw [byteSize] at size
        apply Or.inl
        rw [String.Pos.Raw.isValid_iff_exists_append]
        refine ⟨String.ofList before, String.ofList (character :: rest), ?_, ?_⟩
        · rw [← String.ofList_append, ← parts.split, String.ofList_toList]
        · apply String.Pos.Raw.ext
          change offset.toNat = (String.ofList before).utf8ByteSize
          rw [utf8ByteSize_eq, String.toList_ofList]
          omega

theorem partsAt_of_reached {text : String} {offset : Nat} {before after : List Char}
    (split : text.toList = before ++ after)
    (reached : min offset text.utf8ByteSize = byteSize before) :
    PartsAt text offset before after := by
  have size : text.utf8ByteSize = byteSize before + byteSize after := by
    rw [utf8ByteSize_eq, split, byteSize_append]
  refine ⟨split, by omega, ?_⟩
  intro character rest same
  have positive := character.utf8Size_pos
  rw [same, byteSize] at size
  omega

/-- The offset just past every line feed among characters that begin at `offset`. -/
def lineStarts (offset : Nat) : List Char → List Nat
  | [] => []
  | character :: rest =>
      let next := offset + character.utf8Size
      if character = '\n' then next :: lineStarts next rest else lineStarts next rest

def clamp (offset : Nat) : UInt32 := (min offset maxWord).toUInt32

theorem toNat_clamp {offset : Nat} (fits : offset ≤ maxWord) : (clamp offset).toNat = offset := by
  rw [clamp, Nat.min_eq_left fits, Nat.toUInt32_eq, UInt32.toNat_ofNat']
  unfold maxWord at fits
  omega

theorem toList_lineStartsFrom (offset : Nat) (found : Array UInt32) (characters : List Char) :
    (lineStartsFrom offset found characters).toList =
      found.toList ++ (lineStarts offset characters).map clamp := by
  induction characters generalizing offset found with
  | nil => exact (List.append_nil _).symm
  | cons character rest induction =>
      rw [lineStartsFrom, lineStarts]
      rw [induction]
      split
      case isTrue =>
        rw [Array.toList_push, List.append_assoc, List.map_cons]
        rfl
      case isFalse => rfl

theorem lineStarts_append (offset : Nat) (first second : List Char) :
    lineStarts offset (first ++ second) =
      lineStarts offset first ++ lineStarts (offset + byteSize first) second := by
  induction first generalizing offset with
  | nil => rfl
  | cons character first induction =>
      rw [List.cons_append, lineStarts, lineStarts]
      rw [induction, byteSize, Nat.add_assoc]
      split
      case isTrue => rfl
      case isFalse => rfl

theorem mem_lineStarts {offset start : Nat} {characters : List Char}
    (member : start ∈ lineStarts offset characters) :
    offset < start ∧ start ≤ offset + byteSize characters := by
  induction characters generalizing offset with
  | nil => cases member
  | cons character rest induction =>
      have positive := character.utf8Size_pos
      rw [lineStarts] at member
      rw [byteSize]
      split at member
      case isTrue =>
        rcases List.mem_cons.mp member with here | later
        · omega
        · have bounds := induction later
          omega
      case isFalse =>
        have bounds := induction member
        omega

theorem le_of_mem_lineStarts_cons {offset start : Nat} {character : Char} {rest : List Char}
    (member : start ∈ lineStarts offset (character :: rest)) :
    offset + character.utf8Size ≤ start := by
  rw [lineStarts] at member
  split at member
  case isTrue =>
    rcases List.mem_cons.mp member with here | later
    · exact Nat.le_of_eq here.symm
    · exact Nat.le_of_lt (mem_lineStarts later).1
  case isFalse => exact Nat.le_of_lt (mem_lineStarts member).1

theorem length_lineStarts (offset : Nat) (characters : List Char) :
    (lineStarts offset characters).length = characters.count '\n' := by
  induction characters generalizing offset with
  | nil => rfl
  | cons character rest induction =>
      rw [lineStarts, List.count_cons]
      split
      case isTrue feed => rw [List.length_cons, induction, feed, if_pos (beq_self_eq_true '\n')]
      case isFalse other =>
        have differs : (character == '\n') = false := beq_eq_false_iff_ne.mpr other
        rw [induction, differs]
        rfl

/-- Where the last line of some characters begins, and how the position after them counts from
there. -/
theorem exists_last_line (characters : List Char) :
    ∃ head line, characters = head ++ line ∧
      (0 :: lineStarts 0 characters).getLast? = some (byteSize head) ∧
        Position.after characters =
          ⟨(0 :: lineStarts 0 characters).length, line.length + 1⟩ := by
  induction characters using List.reverseRecOn with
  | nil => exact ⟨[], [], rfl, rfl, rfl⟩
  | append_singleton characters character induction =>
      obtain ⟨head, line, split, last, position⟩ := induction
      rw [lineStarts_append, Nat.zero_add, Position.after_concat, position, Position.advance]
      by_cases feed : character = '\n'
      · subst feed
        have one : lineStarts (byteSize characters) ['\n'] = [byteSize characters + 1] := rfl
        refine ⟨characters ++ ['\n'], [], (List.append_nil _).symm, ?_, ?_⟩
        · rw [one, ← List.cons_append, List.getLast?_concat, byteSize_append]
          rfl
        · rw [one, if_pos rfl, ← List.cons_append, List.length_append]
          rfl
      · have none : lineStarts (byteSize characters) [character] = [] := by
          rw [lineStarts]
          rw [if_neg feed]
          rfl
        refine ⟨head, line ++ [character], ?_, ?_, ?_⟩
        · rw [split, List.append_assoc]
        · rw [none, List.append_nil, last]
        · rw [none, List.append_nil, if_neg feed, List.length_append]
          rfl

theorem charactersBetween?_append {text : String} {head line after : List Char}
    (split : text.toList = head ++ line ++ after) :
    charactersBetween? text (byteSize head) (byteSize (head ++ line)) = some line.length := by
  rw [charactersBetween?, split, List.append_assoc, dropBytes?_append, byteSize_append,
    Nat.add_sub_cancel_left]
  change countCharacters? 0 (line ++ after) (byteSize line + 0) = some line.length
  rw [countCharacters?_append, Nat.zero_add, countCharacters?_zero]

end Text

namespace LineTable

open Text

/-- Where the entries that do not lie past the offset come first, the search finds their number. -/
theorem firstPast_eq {starts : Array UInt32} {offset : UInt32} {pivot : Nat}
    (parted : ∀ index start, starts[index]? = some start → (start ≤ offset ↔ index < pivot))
    (low high : Nat) (lower : low ≤ pivot) (upper : pivot ≤ high) (reach : high ≤ starts.size) :
    firstPast starts offset low high = pivot := by
  fun_induction firstPast starts offset low high with
  | case1 low high open_ middle start found reached induction =>
      have inside := (parted middle start found).mp reached
      exact induction inside upper reach
  | case2 low high open_ middle start found past induction =>
      have outside : pivot ≤ middle :=
        Nat.le_of_not_lt fun inside => past ((parted middle start found).mpr inside)
      exact induction lower outside (by omega)
  | case3 low high open_ middle missing =>
      have bound := Array.getElem?_eq_none_iff.mp missing
      omega
  | case4 low high closed => omega

/-- The entries of the table for the lines that begin within the first part of a text, and those
for the lines that begin within the rest. -/
theorem toList_starts_ofText {text : String} {before after : List Char}
    (split : text.toList = before ++ after) :
    (ofText text).starts.toList =
      (0 :: lineStarts 0 before).map clamp ++ (lineStarts (byteSize before) after).map clamp := by
  rw [ofText, toList_lineStartsFrom, split, lineStarts_append, List.map_append, Nat.zero_add,
    ← List.append_assoc]
  rfl

theorem parted_ofText {text : String} {before after : List Char} {offset : UInt32}
    (parts : PartsAt text offset.toNat before after) (short : text.utf8ByteSize < maxWord)
    (index : Nat) (start : UInt32) (found : (ofText text).starts[index]? = some start) :
    start ≤ offset ↔ index < (0 :: lineStarts 0 before).length := by
  have size := parts.size_eq
  have reached := parts.reached
  rw [← Array.getElem?_toList, toList_starts_ofText parts.split] at found
  rw [UInt32.le_iff_toNat_le]
  by_cases early : index < (0 :: lineStarts 0 before).length
  -- Entries of the first part begin within it, entries of the rest past its next character.
  · have inFirst : index < ((0 :: lineStarts 0 before).map clamp).length := by
      rw [List.length_map]
      exact early
    rw [List.getElem?_append_left inFirst] at found
    obtain ⟨exact, member, rfl⟩ := List.mem_map.mp (List.mem_of_getElem? found)
    have bound : exact ≤ byteSize before := by
      rcases List.mem_cons.mp member with origin | later
      · rw [origin]
        exact Nat.zero_le _
      · have bounds := mem_lineStarts later
        omega
    rw [toNat_clamp (by omega)]
    exact iff_of_true (by omega) early
  · have inSecond : ((0 :: lineStarts 0 before).map clamp).length ≤ index := by
      rw [List.length_map]
      exact Nat.le_of_not_lt early
    rw [List.getElem?_append_right inSecond] at found
    obtain ⟨exact, member, rfl⟩ := List.mem_map.mp (List.mem_of_getElem? found)
    have bounds := mem_lineStarts member
    have past : offset.toNat < exact := by
      cases after with
      | nil => cases member
      | cons character rest =>
          have ahead := parts.ahead character rest rfl
          have next := le_of_mem_lineStarts_cons member
          omega
    rw [toNat_clamp (by omega)]
    exact iff_of_false (by omega) early

theorem lineIndex_ofText {text : String} {before after : List Char} {offset : UInt32}
    (parts : PartsAt text offset.toNat before after) (short : text.utf8ByteSize < maxWord) :
    (ofText text).lineIndex offset = (lineStarts 0 before).length := by
  have count : (0 :: lineStarts 0 before).length ≤ (ofText text).starts.size := by
    rw [← Array.length_toList, toList_starts_ofText parts.split, List.length_append,
      List.length_map]
    exact Nat.le_add_right _ _
  rw [lineIndex, firstPast_eq (parted_ofText parts short) 0 _ (Nat.zero_le _) count
    (Nat.le_refl _)]
  rfl

theorem line_ofText {text : String} {before after : List Char} {offset : UInt32}
    (parts : PartsAt text offset.toNat before after) (short : text.utf8ByteSize < maxWord) :
    (ofText text).line offset = (lineStarts 0 before).length + 1 := by
  have lines : (lineStarts 0 before).length ≤ byteSize before := by
    rw [length_lineStarts]
    exact Nat.le_trans List.count_le_length (length_le_byteSize before)
  have size := parts.size_eq
  rw [LineTable.line, lineIndex_ofText parts short, ordinal, Nat.min_eq_left (by omega)]

theorem getElem?_starts_ofText {text : String} {before after : List Char} {start : Nat}
    (split : text.toList = before ++ after)
    (last : (0 :: lineStarts 0 before).getLast? = some start) :
    (ofText text).starts[(lineStarts 0 before).length]? = some (clamp start) := by
  have inFirst : (lineStarts 0 before).length < ((0 :: lineStarts 0 before).map clamp).length := by
    rw [List.length_map]
    exact Nat.lt_succ_self _
  rw [List.getLast?_eq_getElem?] at last
  change (0 :: lineStarts 0 before)[(lineStarts 0 before).length]? = _ at last
  rw [← Array.getElem?_toList, toList_starts_ofText split, List.getElem?_append_left inFirst,
    List.getElem?_map, last]
  rfl

/-- On every boundary of a text, and past its end, the table gives the position that one counts. -/
theorem position_ofText {text : String} {before after : List Char} {offset : UInt32}
    (split : text.toList = before ++ after) (short : text.utf8ByteSize < maxWord)
    (reached : min offset.toNat text.utf8ByteSize = byteSize before) :
    (ofText text).position text offset = Position.after before := by
  obtain ⟨head, line, parts, last, position⟩ := exists_last_line before
  have size : text.utf8ByteSize = byteSize before + byteSize after := by
    rw [utf8ByteSize_eq, split, byteSize_append]
  have whole : byteSize before = byteSize head + byteSize line := by rw [parts, byteSize_append]
  have lineLength := length_le_byteSize line
  have stop : max (min offset.toNat text.utf8ByteSize) (byteSize head) =
      byteSize (head ++ line) := by
    rw [reached, whole, byteSize_append]
    omega
  have between := charactersBetween?_append (show text.toList = head ++ line ++ after by
    rw [split, parts])
  rw [LineTable.position, position, line_ofText (partsAt_of_reached split reached) short]
  rw [Nat.add_sub_cancel, getElem?_starts_ofText split last, Option.getD_some,
    toNat_clamp (by omega), column, charactersSince, stop, between]
  rw [Option.getD_some, ordinal, Nat.min_eq_left (by omega)]
  rfl

theorem position_le_position {text : String} {earlier later : UInt32}
    (short : text.utf8ByteSize < maxWord) (ordered : earlier ≤ later)
    (earlierMarks : Marks text earlier) (laterMarks : Marks text later) :
    (ofText text).position text earlier ≤ (ofText text).position text later := by
  obtain ⟨before, beforeRest, beforeSplit, beforeSize⟩ := exists_split_of_marks earlierMarks
  obtain ⟨longer, longerRest, longerSplit, longerSize⟩ := exists_split_of_marks laterMarks
  have offsets : earlier.toNat ≤ later.toNat := UInt32.le_iff_toNat_le.mp ordered
  have sizes : byteSize before ≤ byteSize longer := by omega
  obtain ⟨extra, rfl⟩ := prefix_of_byteSize_le beforeSplit longerSplit sizes
  rw [position_ofText beforeSplit short beforeSize, position_ofText longerSplit short longerSize]
  exact Position.after_le_after_append before extra

end LineTable

end Unbound
