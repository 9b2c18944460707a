import Unbound.Proofs.Name.Interning

/-!
# A crowded shard

Texts that share their first eight bytes share their shard, so one can be full while the others are
empty.
-/

set_option autoImplicit false

namespace Unbound

/-- What comes after the first eight bytes makes no difference to the shard. -/
theorem shardOf_append {start : String} (long : 8 ≤ start.utf8ByteSize) (more : String) :
    shardOf (start ++ more) = shardOf start := by
  have enough : 8 ≤ start.toByteArray.data.toList.length := by
    rw [Array.length_toList]
    exact long
  have first : ((start ++ more).toUTF8.data.toList.take 8) = start.toUTF8.data.toList.take 8 := by
    rw [String.toUTF8_eq_toByteArray, String.toUTF8_eq_toByteArray, String.toByteArray_append,
      ByteArray.data_append, Array.toList_append, List.take_append_of_le_length enough]
  apply Fin.ext
  simp only [shardOf, first]

namespace Interner

theorem not_fit_of_shard {texts others : List String} {shard : Fin Name.shardCount}
    (distinct : texts.Nodup) (placed : ∀ text ∈ texts, shardOf text = shard)
    (many : Name.shardWidth < texts.length) : ¬ Fit (texts ++ others) := by
  intro fit
  have inside : texts ⊆ (texts ++ others).filter (fun text => shardOf text = shard) := by
    intro text member
    exact List.mem_filter.mpr ⟨List.mem_append_left others member, by simp [placed text member]⟩
  have fewer := Nat.le_trans (length_dedup_le_of_subset inside) (fit shard)
  rw [distinct.dedup] at fewer
  exact absurd many (Nat.not_lt.mpr fewer)

/-- Eight letters, and a number written as two characters in base 2¹⁴. -/
def numberedText (number : Nat) : String :=
  "aaaaaaaa" ++ String.ofList [Char.ofNat (number / 16384), Char.ofNat (number % 16384)]

theorem shardOf_numberedText (number : Nat) : shardOf (numberedText number) = shardOf "aaaaaaaa" :=
  shardOf_append (by decide) _

theorem toNat_ofNat_of_lt {code : Nat} (low : code < 55296) : (Char.ofNat code).toNat = code := by
  have valid : code.isValidChar := Or.inl low
  rw [Char.ofNat, dif_pos valid]
  rfl

theorem numberedText_inj {first second : Nat} (firstLow : first < 905969664)
    (secondLow : second < 905969664) (same : numberedText first = numberedText second) :
    first = second := by
  rw [numberedText, numberedText, String.append_right_inj, String.ofList_inj, List.cons.injEq,
    List.cons.injEq] at same
  obtain ⟨high, low, _⟩ := same
  have highSame := congrArg Char.toNat high
  have lowSame := congrArg Char.toNat low
  rw [toNat_ofNat_of_lt (by omega), toNat_ofNat_of_lt (by omega)] at highSame lowSame
  rw [← Nat.div_add_mod first 16384, ← Nat.div_add_mod second 16384, highSame, lowSame]

/-- One text more than a shard has indices. -/
def crowd : List String := (List.range (Name.shardWidth + 1)).map numberedText

theorem length_crowd : crowd.length = Name.shardWidth + 1 := by
  rw [crowd, List.length_map, List.length_range]

theorem nodup_crowd : crowd.Nodup := by
  apply List.Nodup.map_on _ List.nodup_range
  intro first firstIn second secondIn same
  rw [List.mem_range, Name.shardWidth] at firstIn secondIn
  exact numberedText_inj (by omega) (by omega) same

theorem not_fit_crowd (others : List String) : ¬ Fit (crowd ++ others) := by
  apply not_fit_of_shard nodup_crowd
  · intro text member
    obtain ⟨number, _, rfl⟩ := List.mem_map.mp member
    exact shardOf_numberedText number
  · rw [length_crowd]
    exact Nat.lt_succ_self _

end Interner

end Unbound
