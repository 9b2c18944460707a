import Unbound.Proofs.Source.Position

/-!
# Positions in 32 bits

Counts that do not fit are cut off before one is added to them. This leaves one count that is not
cut off and yet too large, the largest number that 32 bits hold.

Where entries are cut off, several are the same, and a binary search may find any of them. What is
shown holds of whatever it finds.
-/

set_option autoImplicit false

namespace Unbound

namespace Text

/-- The text begins with so many characters of one byte that 32 bits can just count them. -/
def FillsWord (text : String) : Prop :=
  ∃ before after, text.toList = before ++ after ∧ before.length = maxWord ∧
    byteSize before = maxWord

theorem FillsWord.le_utf8ByteSize {text : String} (fills : FillsWord text) :
    maxWord ≤ text.utf8ByteSize := by
  obtain ⟨before, after, split, _, size⟩ := fills
  rw [utf8ByteSize_eq, split, byteSize_append, size]
  exact Nat.le_add_right _ _

theorem countCharacters?_eq_some_iff {counted count number : Nat} {characters : List Char} :
    countCharacters? counted characters count = some number ↔
      ∃ before after, characters = before ++ after ∧ byteSize before = count ∧
        counted + before.length = number := by
  constructor
  · intro found
    induction characters generalizing counted count with
    | nil =>
        cases count with
        | zero =>
            cases found
            exact ⟨[], [], rfl, rfl, rfl⟩
        | succ count => cases found
    | cons character rest induction =>
        cases count with
        | zero =>
            cases found
            exact ⟨[], character :: rest, rfl, rfl, rfl⟩
        | succ count =>
            rw [countCharacters?] at found
            split at found
            case isTrue fits =>
              obtain ⟨before, after, split, size, length⟩ := induction found
              refine ⟨character :: before, after, ?_, ?_, ?_⟩
              · rw [split, List.cons_append]
              · rw [byteSize, size]
                omega
              · rw [List.length_cons]
                omega
            case isFalse => cases found
  · intro parts
    obtain ⟨before, after, rfl, rfl, rfl⟩ := parts
    have whole := countCharacters?_append counted before after 0
    rwa [Nat.add_zero, countCharacters?_zero] at whole

theorem dropBytes?_zero (characters : List Char) : dropBytes? characters 0 = some characters := by
  cases characters with
  | nil => rfl
  | cons character rest => rfl

theorem charactersBetween?_le {text : String} {start stop number : Nat}
    (found : charactersBetween? text start stop = some number) : number ≤ stop - start := by
  obtain ⟨rest, _, counted⟩ := Option.bind_eq_some_iff.mp found
  obtain ⟨before, _, _, size, length⟩ := countCharacters?_eq_some_iff.mp counted
  have bound := length_le_byteSize before
  omega

theorem charactersSince_le (text : String) (lineStart offset : Nat) :
    charactersSince text lineStart offset ≤ offset - lineStart := by
  rw [charactersSince]
  cases found : charactersBetween? text lineStart _ with
  | none => exact Nat.zero_le _
  | some number =>
      have bound := charactersBetween?_le found
      rw [Option.getD_some]
      omega

/-- Only from the very beginning of a text to the last offset can there be so many characters. -/
theorem charactersSince_eq_maxWord_iff {text : String} {lineStart : Nat} {offset : UInt32} :
    charactersSince text lineStart offset.toNat = maxWord ↔
      lineStart = 0 ∧ offset.toNat = maxWord ∧ FillsWord text := by
  have last : offset.toNat ≤ maxWord := Nat.le_of_lt_succ offset.toNat_lt
  have positive : 0 < maxWord := by decide
  constructor
  · intro many
    have bound := charactersSince_le text lineStart offset.toNat
    have start : lineStart = 0 := by omega
    subst start
    have stop : offset.toNat = maxWord := by omega
    refine ⟨rfl, stop, ?_⟩
    rw [charactersSince] at many
    cases found : charactersBetween? text 0 (max (min offset.toNat text.utf8ByteSize) 0) with
    | none =>
        rw [found, Option.getD_none] at many
        omega
    | some number =>
        rw [found, Option.getD_some] at many
        obtain ⟨rest, whole, counted⟩ := Option.bind_eq_some_iff.mp found
        rw [dropBytes?_zero] at whole
        cases whole
        obtain ⟨before, after, split, size, length⟩ := countCharacters?_eq_some_iff.mp counted
        have least := length_le_byteSize before
        exact ⟨before, after, split, by omega, by omega⟩
  · intro all
    obtain ⟨rfl, stop, before, after, split, length, size⟩ := all
    have reached : max (min offset.toNat text.utf8ByteSize) 0 = byteSize before := by
      rw [utf8ByteSize_eq, split, byteSize_append]
      omega
    have fromStart : text.toList = [] ++ before ++ after := split
    have counted := charactersBetween?_append fromStart
    rw [charactersSince, reached]
    change (charactersBetween? text 0 (byteSize before)).getD 0 = maxWord
    rw [List.nil_append] at counted
    exact length ▸ congrArg (Option.getD · 0) counted

theorem toNat_clamp_eq (offset : Nat) : (clamp offset).toNat = min offset maxWord := by
  rw [clamp, Nat.toUInt32_eq, UInt32.toNat_ofNat', maxWord]
  omega

theorem clamp_le_clamp {earlier later : Nat} (ordered : earlier ≤ later) :
    clamp earlier ≤ clamp later := by
  rw [UInt32.le_iff_toNat_le, toNat_clamp_eq, toNat_clamp_eq]
  omega

/-- Every line begins later than the one before it. -/
theorem pairwise_lineStarts (offset : Nat) (characters : List Char) :
    (lineStarts offset characters).Pairwise (· < ·) := by
  induction characters generalizing offset with
  | nil => exact List.Pairwise.nil
  | cons character rest induction =>
      rw [lineStarts]
      split
      case isTrue =>
        apply List.pairwise_cons.mpr
        exact ⟨fun start member => (mem_lineStarts member).1, induction _⟩
      case isFalse => exact induction _

theorem le_of_getElem?_lineStarts {offset index start : Nat} {characters : List Char}
    (found : (lineStarts offset characters)[index]? = some start) : offset + index < start := by
  induction characters generalizing offset index with
  | nil => cases found
  | cons character rest induction =>
      have positive := character.utf8Size_pos
      rw [lineStarts] at found
      split at found
      case isTrue =>
        cases index with
        | zero =>
            cases found
            omega
        | succ index =>
            have later := induction found
            omega
      case isFalse =>
        have later := induction found
        omega

end Text

namespace LineTable

open Text

variable {table : LineTable} {text tableText : String} {offset start : UInt32} {index : Nat}

/-! ### The entries of a table -/

theorem toList_starts_eq (text : String) :
    (ofText text).starts.toList = (0 :: lineStarts 0 text.toList).map clamp := by
  rw [toList_starts_ofText (List.append_nil text.toList).symm]
  exact List.append_nil _

theorem lineCount_ofText (text : String) :
    (ofText text).lineCount = text.toList.count '\n' + 1 := by
  rw [lineCount, ← Array.length_toList, toList_starts_eq, List.length_map, List.length_cons,
    length_lineStarts]

theorem first_start (text : String) : (ofText text).starts[0]? = some 0 := by
  rw [← Array.getElem?_toList, toList_starts_eq]
  rfl

theorem ascending_starts (text : String) : (ofText text).starts.toList.Pairwise (· ≤ ·) := by
  rw [toList_starts_eq, List.pairwise_map]
  have strict : (0 :: lineStarts 0 text.toList).Pairwise (· < ·) :=
    List.pairwise_cons.mpr ⟨fun _ member => (mem_lineStarts member).1, pairwise_lineStarts _ _⟩
  exact strict.imp fun earlier => clamp_le_clamp (Nat.le_of_lt earlier)

/-- A line has at least one byte for each line before it. -/
theorem min_le_start (found : (ofText text).starts[index]? = some start) :
    min index maxWord ≤ start.toNat := by
  rw [← Array.getElem?_toList, toList_starts_eq, List.getElem?_map] at found
  obtain ⟨first, exactly, rfl⟩ := Option.map_eq_some_iff.mp found
  rw [toNat_clamp_eq]
  cases index with
  | zero => omega
  | succ index =>
      have later := le_of_getElem?_lineStarts exactly
      omega

/-! ### What a search finds -/

/-- What a binary search may find as the line of an offset: any entry that equals it, or, where none
does, the entry before the place at which it would have to be put. -/
inductive Locates (table : LineTable) (offset : UInt32) : Nat → Prop
  | exactly {index : Nat} (found : table.starts[index]? = some offset) :
      table.Locates offset index
  | between {place : Nat} (missing : offset ∉ table.starts) (inside : place ≤ table.starts.size)
      (parted : ∀ index start, table.starts[index]? = some start →
        (start < offset ↔ index < place)) :
      table.Locates offset (place - 1)

theorem exists_parting {starts : List UInt32} (ascending : starts.Pairwise (· ≤ ·))
    (offset : UInt32) :
    ∃ pivot ≤ starts.length, ∀ index start, starts[index]? = some start →
      (start ≤ offset ↔ index < pivot) := by
  induction starts with
  | nil => exact ⟨0, Nat.le_refl _, fun _ _ none => nomatch none⟩
  | cons first starts induction =>
      obtain ⟨later, further⟩ := List.pairwise_cons.mp ascending
      by_cases reached : first ≤ offset
      · obtain ⟨pivot, inside, parted⟩ := induction further
        refine ⟨pivot + 1, Nat.succ_le_succ inside, ?_⟩
        intro index start found
        cases index with
        | zero =>
            cases found
            exact iff_of_true reached (Nat.succ_pos pivot)
        | succ index => exact (parted index start found).trans Nat.succ_lt_succ_iff.symm
      · refine ⟨0, Nat.zero_le _, ?_⟩
        intro index start found
        apply iff_of_false _ (Nat.not_lt_zero index)
        intro early
        apply reached
        rcases List.mem_cons.mp (List.mem_of_getElem? found) with same | member
        · exact same ▸ early
        · exact UInt32.le_trans (later start member) early

/-- The last of the entries before the division equals the offset, if any entry does. -/
theorem getElem?_of_parted {starts : List UInt32} {pivot : Nat}
    (ascending : starts.Pairwise (· ≤ ·)) (inside : pivot ≤ starts.length)
    (parted : ∀ index start, starts[index]? = some start → (start ≤ offset ↔ index < pivot))
    (member : offset ∈ starts) : starts[pivot - 1]? = some offset := by
  obtain ⟨place, bound, same⟩ := List.mem_iff_getElem.mp member
  have found : starts[place]? = some offset := List.getElem?_eq_some_iff.mpr ⟨bound, same⟩
  have early := (parted place offset found).mp (UInt32.le_refl offset)
  rcases Nat.lt_or_eq_of_le (Nat.le_sub_one_of_lt early) with before | last
  · have finalBound : pivot - 1 < starts.length := by omega
    have final := List.getElem?_eq_getElem finalBound
    have reached := (parted _ _ final).mpr (by omega)
    have ordered := List.pairwise_iff_getElem.mp ascending place (pivot - 1) bound finalBound before
    rw [same] at ordered
    rw [final, UInt32.le_antisymm reached ordered]
  · rw [← last, found]

theorem locates_lineIndex (text : String) (offset : UInt32) :
    (ofText text).Locates offset ((ofText text).lineIndex offset) := by
  have ascending := ascending_starts text
  obtain ⟨pivot, inside, partedList⟩ := exists_parting ascending offset
  have parted : ∀ index start, (ofText text).starts[index]? = some start →
      (start ≤ offset ↔ index < pivot) := by
    intro index start found
    exact partedList index start (Array.getElem?_toList.trans found)
  have bound : pivot ≤ (ofText text).starts.size := inside
  have searched : (ofText text).lineIndex offset = pivot - 1 := by
    rw [lineIndex, firstPast_eq parted 0 _ (Nat.zero_le _) bound (Nat.le_refl _)]
  rw [searched]
  by_cases member : offset ∈ (ofText text).starts
  · apply Locates.exactly
    rw [← Array.getElem?_toList]
    exact getElem?_of_parted ascending inside partedList (Array.mem_toList_iff.mpr member)
  · apply Locates.between member bound
    intro place start found
    rw [← parted place start found, UInt32.lt_iff_le_and_ne]
    apply and_iff_left
    intro same
    exact member (same ▸ Array.mem_of_getElem? found)

theorem Locates.exists_start (located : (ofText text).Locates offset index) :
    ∃ start, (ofText text).starts[index]? = some start ∧ start ≤ offset := by
  cases located with
  | exactly found => exact ⟨offset, found, UInt32.le_refl offset⟩
  | @between place missing inside parted =>
      have first := first_start text
      have differs : 0 ≠ offset := fun same => missing (same ▸ Array.mem_of_getElem? first)
      have positive : 0 < place :=
        (parted 0 0 first).mp (UInt32.lt_iff_le_and_ne.mpr ⟨UInt32.zero_le, differs⟩)
      have bound : place - 1 < (ofText text).starts.size := by omega
      have here := Array.getElem?_eq_getElem bound
      have earlier := (parted _ _ here).mpr (by omega)
      exact ⟨_, here, UInt32.le_of_lt earlier⟩

theorem Locates.index_lt (located : (ofText text).Locates offset index) :
    index < (ofText text).lineCount := by
  obtain ⟨start, found, _⟩ := located.exists_start
  exact (Array.getElem?_eq_some_iff.mp found).choose

theorem Locates.min_le_offset (located : (ofText text).Locates offset index) :
    min index maxWord ≤ offset.toNat := by
  obtain ⟨start, found, reached⟩ := located.exists_start
  exact Nat.le_trans (min_le_start found) (UInt32.le_iff_toNat_le.mp reached)

/-- At the last offset there is, the line is the last one, or the search stopped at an earlier entry
that was cut off. -/
theorem Locates.found_or_last (located : (ofText text).Locates offset index)
    (last : offset.toNat = maxWord) :
    (ofText text).starts[index]? = some offset ∨ index + 1 = (ofText text).lineCount := by
  have inside := located.index_lt
  cases located with
  | exactly found => exact .inl found
  | @between place missing bound parted =>
      right
      rw [lineCount] at inside ⊢
      have final : (ofText text).starts.size - 1 < (ofText text).starts.size := by omega
      have here := Array.getElem?_eq_getElem final
      have word := ((ofText text).starts[(ofText text).starts.size - 1]).toNat_lt
      have early : (ofText text).starts[(ofText text).starts.size - 1] < offset := by
        apply UInt32.lt_iff_le_and_ne.mpr
        constructor
        · rw [UInt32.le_iff_toNat_le, last]
          exact Nat.le_of_lt_succ word
        · intro same
          exact missing (same ▸ Array.mem_of_getElem? here)
      have before := (parted _ _ here).mp early
      omega

theorem Locates.eq_zero_iff (located : (ofText text).Locates offset index)
    (last : offset.toNat = maxWord) : index = 0 ↔ (ofText text).lineCount = 1 := by
  have inside := located.index_lt
  constructor
  · intro first
    subst first
    rcases located.found_or_last last with found | final
    · rw [first_start] at found
      cases found
      exact absurd last (by decide)
    · exact final.symm
  · intro single
    omega

/-! ### Where a position is undefined -/

theorem lineStart_eq_zero_iff (inside : index < (ofText text).lineCount)
    (small : index ≠ maxWord) :
    (((ofText text).starts[ordinal index - 1]?).getD 0).toNat = 0 ↔ index = 0 := by
  rw [ordinal, Nat.add_sub_cancel]
  have bound : min index (maxWord - 1) < (ofText text).starts.size :=
    Nat.lt_of_le_of_lt (Nat.min_le_left _ _) inside
  have found := Array.getElem?_eq_getElem bound
  have later := min_le_start found
  rw [found, Option.getD_some]
  constructor
  · intro zero
    rw [zero, maxWord] at later
    omega
  · intro first
    subst first
    have same : (ofText text).starts[min 0 (maxWord - 1)]? = some 0 := first_start text
    rw [found] at same
    rw [Option.some.inj same]
    rfl

theorem positionOn?_eq_none_iff (located : (ofText tableText).Locates offset index) :
    (ofText tableText).positionOn? text index offset = none ↔
      offset.toNat = maxWord ∧
        (index = maxWord ∨ (ofText tableText).lineCount = 1 ∧ FillsWord text) := by
  rw [positionOn?_eq]
  dsimp only
  split
  case isTrue largest =>
    have reached := located.min_le_offset
    have word := offset.toNat_lt
    rw [largest, Nat.min_self] at reached
    refine iff_of_true rfl ⟨?_, .inl largest⟩
    exact Nat.le_antisymm (Nat.le_of_lt_succ word) reached
  case isFalse small =>
    rw [Option.map_eq_none_iff, column?, ordinal?_eq, ite_eq_left_iff]
    simp only [reduceCtorEq, imp_false, not_not]
    rw [charactersSince_eq_maxWord_iff, lineStart_eq_zero_iff located.index_lt small]
    constructor
    · intro all
      obtain ⟨first, last, fills⟩ := all
      exact ⟨last, .inr ⟨(located.eq_zero_iff last).mp first, fills⟩⟩
    · intro all
      obtain ⟨last, largest | ⟨single, fills⟩⟩ := all
      · exact absurd largest small
      · exact ⟨(located.eq_zero_iff last).mpr single, last, fills⟩

theorem ordinal_le_maxWord (before : Nat) : ordinal before ≤ maxWord := by
  rw [ordinal, maxWord]
  omega

theorem ordinal_le_of_lt {before count : Nat} (inside : before < count) :
    ordinal before ≤ count := by
  rw [ordinal]
  omega

theorem bounds_of_positionOn?_eq_some {found : Position}
    (inside : index < (ofText tableText).lineCount)
    (defined : (ofText tableText).positionOn? text index offset = some found) :
    ordinal? index = some found.line ∧ 1 ≤ found.line ∧
      found.line ≤ (ofText tableText).lineCount ∧ found.line ≤ maxWord ∧
        1 ≤ found.column ∧ found.column ≤ maxWord := by
  rw [positionOn?_eq] at defined
  dsimp only at defined
  split at defined
  case isTrue => cases defined
  case isFalse small =>
    obtain ⟨column, counted, rfl⟩ := Option.map_eq_some_iff.mp defined
    rw [column?, ordinal?_eq] at counted
    split at counted
    case isTrue => cases counted
    case isFalse =>
      cases counted
      refine ⟨?_, Nat.succ_pos _, ordinal_le_of_lt inside, ordinal_le_maxWord _, Nat.succ_pos _,
        ordinal_le_maxWord _⟩
      rw [ordinal?_eq, if_neg small]

theorem lineCount_le (text : String) : (ofText text).lineCount ≤ text.utf8ByteSize + 1 := by
  rw [lineCount_ofText, utf8ByteSize_eq]
  exact Nat.succ_le_succ (Nat.le_trans List.count_le_length (length_le_byteSize _))

/-- In texts that 32 bits can measure no step leaves them. -/
theorem position?_eq_some_position (offset : UInt32) (tableShort : tableText.utf8ByteSize < maxWord)
    (short : text.utf8ByteSize < maxWord) :
    (ofText tableText).position? text offset = some ((ofText tableText).position text offset) := by
  have located := locates_lineIndex tableText offset
  cases computed : (ofText tableText).position? text offset with
  | some found => rw [position_eq_of_position?_eq_some computed]
  | none =>
      obtain ⟨_, many | ⟨_, fills⟩⟩ := (positionOn?_eq_none_iff located).mp computed
      · have inside := located.index_lt
        have lines := lineCount_le tableText
        omega
      · have size := fills.le_utf8ByteSize
        omega

/-- For the table of any text and any other text to look the offset up in: the entries are the
beginnings of the lines, cut off at the largest word, and the search finds a line. Whatever line a
search may find, the position is computed within 32 bits, unless the offset is the largest word and
so many lines come before the line, or the table has a single line and so many characters of one
byte come before the offset. Where it is defined, line and column count from one, the line is one of
the table's, and both fit into 32 bits. -/
theorem positions_fit_words (tableText text : String) (offset : UInt32) :
    (ofText tableText).starts.toList.map UInt32.toNat =
      (0 :: lineStarts 0 tableText.toList).map (min · maxWord) ∧
    (ofText tableText).Locates offset ((ofText tableText).lineIndex offset) ∧
    ∀ index, (ofText tableText).Locates offset index →
      ((ofText tableText).positionOn? text index offset = none ↔
        offset.toNat = maxWord ∧
          (index = maxWord ∨ (ofText tableText).lineCount = 1 ∧ FillsWord text)) ∧
      ∀ found, (ofText tableText).positionOn? text index offset = some found →
        ordinal? index = some found.line ∧ 1 ≤ found.line ∧
          found.line ≤ (ofText tableText).lineCount ∧ found.line ≤ maxWord ∧
            1 ≤ found.column ∧ found.column ≤ maxWord := by
  refine ⟨?_, locates_lineIndex tableText offset, ?_⟩
  · rw [toList_starts_eq, List.map_map]
    exact List.map_congr_left fun start _ => toNat_clamp_eq start
  · intro index located
    exact ⟨positionOn?_eq_none_iff located,
      fun found defined => bounds_of_positionOn?_eq_some located.index_lt defined⟩

/-- The table is of one text, and the offset within a letter of the other. -/
theorem positions_fit_words_of_mixedTexts :
    (ofText "a\nb").Locates 2 1 ∧
      (ofText "a\nb").positionOn? "xéz" 1 2 = some ⟨2, 1⟩ ∧ 2 ≤ (ofText "a\nb").lineCount := by
  have located : (ofText "a\nb").Locates 2 1 := .exactly rfl
  have defined : (ofText "a\nb").positionOn? "xéz" 1 2 = some ⟨2, 1⟩ := by decide
  have bounds := ((positions_fit_words "a\nb" "xéz" 2).2.2 1 located).2 _ defined
  exact ⟨located, defined, bounds.2.2.1⟩

/-- The shortest line whose last column 32 bits cannot count. -/
def longLine : String := String.ofList (List.replicate maxWord 'a')

theorem byteSize_replicate (count : Nat) : byteSize (List.replicate count 'a') = count := by
  induction count with
  | zero => rfl
  | succ count induction =>
      have single : 'a'.utf8Size = 1 := rfl
      rw [List.replicate_succ, byteSize, induction, single, Nat.add_comm]

theorem position?_longLine : (ofText longLine).position? longLine 4294967295 = none := by
  have characters : longLine.toList = List.replicate maxWord 'a' := String.toList_ofList
  have fills : FillsWord longLine := by
    refine ⟨List.replicate maxWord 'a', [], ?_, List.length_replicate, byteSize_replicate maxWord⟩
    rw [characters, List.append_nil]
  have single : (ofText longLine).lineCount = 1 := by
    rw [lineCount_ofText, characters, List.count_replicate]
    rfl
  have last : (4294967295 : UInt32).toNat = maxWord := rfl
  rw [position?, positionOn?_eq_none_iff (locates_lineIndex longLine 4294967295)]
  exact ⟨last, .inr ⟨single, fills⟩⟩

end LineTable

end Unbound
