import Unbound.Proofs.Source.Position

/-!
# Positions counted in the text

No byte of another character looks like a line feed, so lines can be counted without decoding, even
up to an offset that cuts a character. Each character moves the position on, so different boundaries
have different positions.
-/

set_option autoImplicit false

namespace Unbound

namespace Text

/-- The number of line feeds among the first so many bytes of a text. -/
def feedsBefore (text : String) (offset : Nat) : Nat :=
  (text.toByteArray.data.toList.take offset).count 10

/-- The characters after the last line feed, or all of them where there is none. -/
def lastLine (characters : List Char) : List Char :=
  (characters.reverse.takeWhile (· ≠ '\n')).reverse

/-- A byte of a character is its code, if it is the only one, and has its highest bit set
otherwise. -/
theorem toNat_of_mem_utf8EncodeChar {character : Char} {byte : UInt8}
    (member : byte ∈ String.utf8EncodeChar character) :
    byte.toNat = character.toNat ∨ 128 ≤ byte.toNat := by
  have code : character.val.toNat = character.toNat := rfl
  unfold String.utf8EncodeChar at member
  simp only [code] at member
  split at member
  case isTrue single =>
    left
    rw [List.mem_singleton.mp member, UInt8.toNat_ofNat']
    exact Nat.mod_eq_of_lt (by omega)
  case isFalse =>
    right
    split at member
    · simp only [List.mem_cons, List.not_mem_nil, or_false] at member
      rcases member with rfl | rfl <;> rw [UInt8.toNat_ofNat'] <;> omega
    · split at member
      · simp only [List.mem_cons, List.not_mem_nil, or_false] at member
        rcases member with rfl | rfl | rfl <;> rw [UInt8.toNat_ofNat'] <;> omega
      · simp only [List.mem_cons, List.not_mem_nil, or_false] at member
        rcases member with rfl | rfl | rfl | rfl <;> rw [UInt8.toNat_ofNat'] <;> omega

theorem count_utf8EncodeChar_of_ne {character : Char} (other : character ≠ '\n') :
    (String.utf8EncodeChar character).count 10 = 0 := by
  rw [List.count_eq_zero]
  intro member
  rcases toNat_of_mem_utf8EncodeChar member with code | high
  · exact other (Char.toNat_inj.mp code.symm)
  · exact absurd high (by decide)

theorem bytes_eq (text : String) :
    text.toByteArray.data.toList = text.toList.flatMap String.utf8EncodeChar := by
  have encoded : text.toByteArray = text.toList.utf8Encode := by
    rw [← String.toByteArray_ofList, String.ofList_toList]
  rw [encoded]
  exact List.toList_data_toByteArray

theorem length_flatMap_utf8EncodeChar (characters : List Char) :
    (characters.flatMap String.utf8EncodeChar).length = byteSize characters := by
  induction characters with
  | nil => rfl
  | cons character rest induction =>
      rw [List.flatMap_cons, List.length_append, String.length_utf8EncodeChar, induction, byteSize]

theorem count_flatMap_utf8EncodeChar (characters : List Char) :
    (characters.flatMap String.utf8EncodeChar).count 10 = characters.count '\n' := by
  induction characters with
  | nil => rfl
  | cons character rest induction =>
      rw [List.flatMap_cons, List.count_append, induction, List.count_cons, Nat.add_comm]
      by_cases feed : character = '\n'
      · subst feed
        rfl
      · have differs : (character == '\n') = false := beq_eq_false_iff_ne.mpr feed
        rw [count_utf8EncodeChar_of_ne feed, differs]
        rfl

/-- Bytes of a character that is cut in two add no line feed. -/
theorem feedsBefore_of_partsAt {text : String} {offset : Nat} {before after : List Char}
    (parts : PartsAt text offset before after) :
    feedsBefore text offset = before.count '\n' := by
  have reached := parts.reached
  rw [feedsBefore, bytes_eq, parts.split, List.flatMap_append, List.take_append,
    length_flatMap_utf8EncodeChar, List.count_append, List.take_of_length_le
      (by rw [length_flatMap_utf8EncodeChar]; exact reached), count_flatMap_utf8EncodeChar]
  apply Nat.add_eq_left.mpr
  cases after with
  | nil => rw [List.flatMap_nil, List.take_nil, List.count_nil]
  | cons character rest =>
      have ahead := parts.ahead character rest rfl
      rw [List.flatMap_cons, List.take_append_of_le_length
        (by rw [String.length_utf8EncodeChar]; omega)]
      by_cases feed : character = '\n'
      · subst feed
        have whole : offset - byteSize before = 0 := by
          have single : '\n'.utf8Size = 1 := rfl
          omega
        rw [whole, List.take_zero, List.count_nil]
      · apply Nat.le_zero.mp
        rw [← count_utf8EncodeChar_of_ne feed]
        exact (List.take_sublist _ _).count_le 10

theorem lastLine_concat (characters : List Char) (character : Char) :
    lastLine (characters ++ [character]) =
      if character = '\n' then [] else lastLine characters ++ [character] := by
  rw [lastLine, List.reverse_append, List.reverse_singleton, List.singleton_append,
    List.takeWhile_cons]
  split
  case isTrue other =>
    rw [if_neg (of_decide_eq_true other), List.reverse_cons]
    rfl
  case isFalse feed =>
    have same : character = '\n' := by simpa using feed
    rw [if_pos same]
    rfl

end Text

namespace Position

theorem after_eq (characters : List Char) :
    after characters =
      ⟨1 + characters.count '\n', 1 + (Text.lastLine characters).length⟩ := by
  induction characters using List.reverseRecOn with
  | nil => rfl
  | append_singleton characters character induction =>
      rw [after_concat, induction, advance, Text.lastLine_concat, List.count_append]
      by_cases feed : character = '\n'
      · subst feed
        rw [if_pos rfl, if_pos rfl]
        rfl
      · rw [if_neg feed, if_neg feed, List.count_singleton, if_neg (by simpa using feed),
          List.length_append]
        rfl

theorem advance_ne (position : Position) (character : Char) :
    position.advance character ≠ position := by
  rw [advance]
  split
  case isTrue =>
    intro same
    have line := congrArg Position.line same
    exact Nat.succ_ne_self position.line line
  case isFalse =>
    intro same
    have column := congrArg Position.column same
    exact Nat.succ_ne_self position.column column

theorem after_append_le_iff {first extra : List Char} :
    after (first ++ extra) ≤ after first ↔ extra = [] := by
  constructor
  · intro back
    cases extra with
    | nil => rfl
    | cons character extra =>
        have onward := after_le_after_append (first ++ [character]) extra
        rw [List.append_assoc, List.singleton_append, after_concat] at onward
        have stays := le_antisymm (le_trans onward back) (le_advance (after first) character)
        exact absurd stays (advance_ne (after first) character)
  · intro none
    rw [none, List.append_nil]
    exact le_refl _

end Position

namespace LineTable

open Text

theorem line_ofText_eq {text : String} (short : text.utf8ByteSize < maxWord) (offset : UInt32) :
    (ofText text).line offset = 1 + feedsBefore text offset.toNat := by
  obtain ⟨before, after, parts⟩ := exists_partsAt text offset.toNat
  rw [line_ofText parts short, length_lineStarts, feedsBefore_of_partsAt parts, Nat.add_comm]

theorem le_of_position_le {text : String} {left right : UInt32}
    (short : text.utf8ByteSize < maxWord)
    (leftBoundary : (String.Pos.Raw.mk left.toNat).IsValid text)
    (rightBoundary : (String.Pos.Raw.mk right.toNat).IsValid text)
    (ordered : (ofText text).position text left ≤ (ofText text).position text right) :
    left ≤ right := by
  obtain ⟨longer, longerRest, longerSplit, longerSize⟩ := exists_split_of_marks (.inl leftBoundary)
  obtain ⟨before, rest, split, size⟩ := exists_split_of_marks (.inl rightBoundary)
  have leftInside : left.toNat ≤ text.utf8ByteSize := leftBoundary.le_utf8ByteSize
  have rightInside : right.toNat ≤ text.utf8ByteSize := rightBoundary.le_utf8ByteSize
  rw [position_ofText longerSplit short longerSize, position_ofText split short size] at ordered
  rw [UInt32.le_iff_toNat_le]
  apply Nat.le_of_not_lt
  intro back
  obtain ⟨extra, rfl⟩ := prefix_of_byteSize_le split longerSplit (by omega)
  rw [Position.after_append_le_iff.mp ordered, List.append_nil] at longerSize
  omega

/-- On every boundary of a text, and past its end, the line counts the line feeds among the bytes
before the offset, and the column the characters after the last of them. So the order of positions
on boundaries is that of the offsets. -/
theorem position_counts_feeds_and_characters {text : String}
    (short : text.utf8ByteSize < maxWord) :
    (∀ offset : UInt32, Marks text offset →
      ∃ before after : String, text = before ++ after ∧
        before.utf8ByteSize = min offset.toNat text.utf8ByteSize ∧
        (ofText text).position text offset =
          ⟨1 + feedsBefore text offset.toNat, 1 + (lastLine before.toList).length⟩) ∧
    ∀ left right : UInt32, (String.Pos.Raw.mk left.toNat).IsValid text →
      (String.Pos.Raw.mk right.toNat).IsValid text →
      ((ofText text).position text left = (ofText text).position text right ↔ left = right) ∧
      ((ofText text).position text left ≤ (ofText text).position text right ↔ left ≤ right) := by
  constructor
  · intro offset marks
    obtain ⟨before, after, split, size⟩ := exists_split_of_marks marks
    have parts := partsAt_of_reached split size
    refine ⟨String.ofList before, String.ofList after, ?_, ?_, ?_⟩
    · rw [← String.ofList_append, ← split, String.ofList_toList]
    · rw [utf8ByteSize_eq, String.toList_ofList, size]
    · rw [position_ofText split short size, Position.after_eq, feedsBefore_of_partsAt parts,
        String.toList_ofList]
  · intro left right leftBoundary rightBoundary
    have order : (ofText text).position text left ≤ (ofText text).position text right ↔
        left ≤ right := by
      constructor
      · exact le_of_position_le short leftBoundary rightBoundary
      · intro ordered
        exact position_le_position short ordered (.inl leftBoundary) (.inl rightBoundary)
    refine ⟨?_, order⟩
    constructor
    · intro same
      apply UInt32.le_antisymm (order.mp (same ▸ Position.le_refl _))
      exact le_of_position_le short rightBoundary leftBoundary (same ▸ Position.le_refl _)
    · intro same
      rw [same]

/-- The offsets of `b` and of the line feed before it, in a text whose other letters take two
bytes. -/
theorem position_of_accented :
    (∃ before after : String, "éa\nüb" = before ++ after ∧ before.utf8ByteSize = 6 ∧
      (ofText "éa\nüb").position "éa\nüb" 6 = ⟨2, 1 + (lastLine before.toList).length⟩) ∧
    ¬ (ofText "éa\nüb").position "éa\nüb" 6 ≤ (ofText "éa\nüb").position "éa\nüb" 3 := by
  have feed : (String.Pos.Raw.mk 3).IsValid "éa\nüb" :=
    String.Pos.Raw.isValid_iff_exists_append.mpr ⟨"éa", "\nüb", by decide, by decide⟩
  have letter : (String.Pos.Raw.mk 6).IsValid "éa\nüb" :=
    String.Pos.Raw.isValid_iff_exists_append.mpr ⟨"éa\nü", "b", by decide, by decide⟩
  have short : "éa\nüb".utf8ByteSize < maxWord := by decide
  obtain ⟨counted, ordered⟩ := position_counts_feeds_and_characters short
  constructor
  · exact counted 6 (.inl letter)
  · rw [(ordered 6 3 letter feed).2]
    decide

end LineTable

end Unbound
