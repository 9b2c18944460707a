import Mathlib.Data.List.Permutation
import Unbound.Proofs.Diagnostic.Admission
import Unbound.Proofs.Source.Counting

/-!
# The order of positions and the order of offsets

Lines never run backwards. Columns can: an offset that cuts a character is put into the first column
of its line, before the boundaries that precede it. Nothing else parts the two orders.
-/

set_option autoImplicit false

namespace Unbound

namespace Text

theorem countCharacters?_cut (counted : Nat) {character : Char} (rest : List Char) {count : Nat}
    (positive : 0 < count) (cut : count < character.utf8Size) :
    countCharacters? counted (character :: rest) count = none := by
  obtain ⟨count, rfl⟩ := Nat.exists_eq_succ_of_ne_zero (Nat.ne_of_gt positive)
  rw [countCharacters?, if_neg (Nat.not_le_of_lt cut)]

theorem feedsBefore_mono (text : String) {earlier later : Nat} (ordered : earlier ≤ later) :
    feedsBefore text earlier ≤ feedsBefore text later :=
  (List.take_sublist_take_left ordered).count_le 10

theorem one_le_column (text : String) (lineStart offset : Nat) :
    1 ≤ column text lineStart offset := Nat.succ_pos _

end Text

namespace LineTable

open Text

theorem line_position (table : LineTable) (text : String) (offset : UInt32) :
    (table.position text offset).line = table.line offset := rfl

theorem line_mono {text : String} {earlier later : UInt32} (short : text.utf8ByteSize < maxWord)
    (ordered : earlier ≤ later) : (ofText text).line earlier ≤ (ofText text).line later := by
  rw [line_ofText_eq short, line_ofText_eq short]
  exact Nat.add_le_add_left (feedsBefore_mono text (UInt32.le_iff_toNat_le.mp ordered)) 1

theorem column_of_cut {text : String} {offset : UInt32} (short : text.utf8ByteSize < maxWord)
    (cut : ¬ Marks text offset) : ((ofText text).position text offset).column = 1 := by
  obtain ⟨before, after, parts⟩ := exists_partsAt text offset.toNat
  obtain ⟨head, line, whole, last, _⟩ := exists_last_line before
  have size := parts.size_eq
  have reached := parts.reached
  have headSize : byteSize before = byteSize head + byteSize line := by
    rw [whole, byteSize_append]
  rw [parts.marks_iff] at cut
  cases after with
  | nil =>
      rw [byteSize] at size
      omega
  | cons character rest =>
      have ahead := parts.ahead character rest rfl
      rw [byteSize] at size
      have stop : max (min offset.toNat text.utf8ByteSize) (byteSize head) -
          byteSize head = byteSize line + (offset.toNat - byteSize before) := by
        omega
      have between : charactersBetween? text (byteSize head)
          (max (min offset.toNat text.utf8ByteSize) (byteSize head)) = none := by
        rw [charactersBetween?, parts.split, whole, List.append_assoc, dropBytes?_append, stop]
        change countCharacters? 0 (line ++ character :: rest) _ = none
        rw [countCharacters?_append]
        exact countCharacters?_cut _ rest (by omega) (by omega)
      rw [position, line_ofText parts short, Nat.add_sub_cancel,
        getElem?_starts_ofText parts.split last, Option.getD_some, toNat_clamp (by omega)]
      change column text _ _ = 1
      rw [column, charactersSince, between]
      rfl

theorem position_le_position_iff {text : String} {earlier later : UInt32}
    (short : text.utf8ByteSize < maxWord) (ordered : earlier ≤ later) :
    (ofText text).position text earlier ≤ (ofText text).position text later ↔
      Marks text later ∨ (ofText text).line earlier < (ofText text).line later ∨
        ((ofText text).position text earlier).column = 1 := by
  have lines := line_mono short ordered
  rw [← line_position (ofText text) text, ← line_position (ofText text) text] at lines ⊢
  have earlierColumn : 1 ≤ ((ofText text).position text earlier).column := one_le_column _ _ _
  have laterColumn : 1 ≤ ((ofText text).position text later).column := one_le_column _ _ _
  by_cases whole : Marks text later
  · by_cases earlierWhole : Marks text earlier
    · exact iff_of_true (position_le_position short ordered earlierWhole whole) (.inl whole)
    · have first := column_of_cut short earlierWhole
      rw [Position.le_iff]
      exact iff_of_true (by omega) (.inl whole)
  · have first := column_of_cut short whole
    rw [Position.le_iff, first]
    constructor
    · intro before
      omega
    · intro before
      rcases before with marks | line | column
      · exact absurd marks whole
      · exact .inl line
      · omega

/-- The offset of an earlier position is the earlier one, unless it cuts a character on the same
line. -/
theorem lt_of_position_lt {text : String} {left right : UInt32}
    (short : text.utf8ByteSize < maxWord)
    (le : (ofText text).position text left ≤ (ofText text).position text right)
    (ne : (ofText text).position text left ≠ (ofText text).position text right) :
    left < right ∨ ¬ Marks text left ∧ (ofText text).line left = (ofText text).line right := by
  by_cases ordered : left < right
  · exact .inl ordered
  · right
    have back : right ≤ left := UInt32.not_lt.mp ordered
    have later : ¬ (ofText text).position text right ≤ (ofText text).position text left :=
      fun other => ne (Position.le_antisymm le other)
    rw [position_le_position_iff short back, not_or, not_or] at later
    exact ⟨later.1, Nat.le_antisymm (Nat.not_lt.mp later.2.1) (line_mono short back)⟩

end LineTable

namespace Diagnostic.Queue

/-- A queue that was given diagnostics of a text and takes them all. -/
def unlimited (text : String) (diagnostics : List Diagnostic) : Queue :=
  run .unlimited (diagnostics.map (.addLocated (.ofText text) text))

theorem offeredBy_addLocated (table : LineTable) (text : String) (diagnostics : List Diagnostic) :
    offeredBy (diagnostics.map (.addLocated table text)) =
      diagnostics.map fun diagnostic => ⟨diagnostic, positionOf table text diagnostic⟩ := by
  induction diagnostics using List.reverseRecOn with
  | nil => rfl
  | append_singleton diagnostics diagnostic induction =>
      rw [List.map_append, List.map_append, offeredBy, List.foldl_append, ← offeredBy, induction]
      rfl

theorem pending_unlimited (text : String) (diagnostics : List Diagnostic) :
    (unlimited text diagnostics).pending =
      diagnostics.map fun diagnostic =>
        ⟨diagnostic, positionOf (.ofText text) text diagnostic⟩ := by
  rw [unlimited, run_eq_holding, offeredBy_addLocated]
  rfl

theorem flush_unlimited_perm (text : String) (diagnostics : List Diagnostic) :
    (unlimited text diagnostics).flush.1.Perm diagnostics := by
  rw [flush_eq_mergeSort, pending_unlimited]
  apply ((List.mergeSort_perm _ _).map _).trans
  rw [List.map_map]
  exact .of_eq (List.map_id _)

theorem flush_unlimited_pairwise (text : String) (diagnostics : List Diagnostic) :
    (unlimited text diagnostics).flush.1.Pairwise fun left right =>
      positionOf (.ofText text) text left ≤ positionOf (.ofText text) text right := by
  rw [flush_eq_mergeSort, pending_unlimited, List.pairwise_map]
  apply (List.pairwise_mergeSort Queued.precedes_trans Queued.precedes_total _).imp_of_mem
  intro left right leftHeld rightHeld earlier
  obtain ⟨_, _, rfl⟩ := List.mem_map.mp (List.mem_mergeSort.mp leftHeld)
  obtain ⟨_, _, rfl⟩ := List.mem_map.mp (List.mem_mergeSort.mp rightHeld)
  exact Queued.precedes_iff.mp earlier

/-- Lines never run backwards. Nor do positions, unless the later offset cuts a character in two: it
is then in the first column, and comes before an earlier offset of the same line that is not. A
queue that takes everything gives out all that it was given, in the order of the offsets wherever
two positions differ, unless the first of the two cuts a character on the line of the second. -/
theorem positions_follow_offsets {text : String} (short : text.utf8ByteSize < maxWord) :
    (∀ earlier later : UInt32, earlier ≤ later →
      (LineTable.ofText text).line earlier ≤ (LineTable.ofText text).line later ∧
      ((LineTable.ofText text).position text earlier ≤ (LineTable.ofText text).position text later ↔
        Text.Marks text later ∨
          (LineTable.ofText text).line earlier < (LineTable.ofText text).line later ∨
            ((LineTable.ofText text).position text earlier).column = 1) ∧
      (¬ Text.Marks text later → ((LineTable.ofText text).position text later).column = 1)) ∧
    ∀ diagnostics : List Diagnostic,
      (unlimited text diagnostics).flush.1.Perm diagnostics ∧
      (unlimited text diagnostics).flush.1.Pairwise fun left right =>
        ∀ leftSpan rightSpan, left.primarySpan? = some leftSpan →
          right.primarySpan? = some rightSpan →
          (LineTable.ofText text).position text leftSpan.start ≠
            (LineTable.ofText text).position text rightSpan.start →
          leftSpan.start < rightSpan.start ∨
            ¬ Text.Marks text leftSpan.start ∧
              (LineTable.ofText text).line leftSpan.start =
                (LineTable.ofText text).line rightSpan.start := by
  constructor
  · intro earlier later ordered
    exact ⟨LineTable.line_mono short ordered, LineTable.position_le_position_iff short ordered,
      LineTable.column_of_cut short⟩
  · intro diagnostics
    refine ⟨flush_unlimited_perm text diagnostics, ?_⟩
    apply (flush_unlimited_pairwise text diagnostics).imp
    intro left right le leftSpan rightSpan leftPrimary rightPrimary differ
    rw [positionOf, positionOf, leftPrimary, rightPrimary] at le
    exact LineTable.lt_of_position_lt short le differ

/-- Two places in one letter of two bytes, the second of which cuts it. -/
def withinLetter : List Diagnostic :=
  [⟨.undefinedName, "", [⟨⟨1, 3⟩, ""⟩], []⟩, ⟨.undefinedName, "", [⟨⟨2, 3⟩, ""⟩], []⟩]

theorem positions_follow_offsets_withinLetter :
    ¬ Text.Marks "aé" 2 ∧ ((LineTable.ofText "aé").position "aé" 2).column = 1 ∧
      (LineTable.ofText "aé").line 1 ≤ (LineTable.ofText "aé").line 2 ∧
      (unlimited "aé" withinLetter).flush.1.Perm withinLetter := by
  have cut : ¬ Text.Marks "aé" 2 := by decide
  have short : "aé".utf8ByteSize < maxWord := by decide
  obtain ⟨offsets, queues⟩ := positions_follow_offsets short
  obtain ⟨lines, _, first⟩ := offsets 1 2 (by decide)
  exact ⟨cut, first cut, lines, (queues withinLetter).1⟩

/-- The second byte of the letter is put before its first one, and so are diagnostics there. -/
theorem positions_run_backwards_withinLetter :
    "aé".utf8ByteSize < maxWord ∧ (1 : UInt32) ≤ 2 ∧
      ¬ (LineTable.ofText "aé").position "aé" 1 ≤ (LineTable.ofText "aé").position "aé" 2 ∧
      (unlimited "aé" withinLetter).flush.1 = withinLetter.reverse := by
  have backwards : ¬ (LineTable.ofText "aé").position "aé" 1 ≤
      (LineTable.ofText "aé").position "aé" 2 := by decide +kernel
  refine ⟨by decide, by decide, backwards, ?_⟩
  rcases List.perm_pair.mp (flush_unlimited_perm "aé" withinLetter) with kept | turned
  · have ordered := flush_unlimited_pairwise "aé" withinLetter
    rw [kept] at ordered
    exact absurd (List.rel_of_pairwise_cons ordered (List.mem_singleton_self _)) backwards
  · exact turned

end Diagnostic.Queue

end Unbound
