import Unbound.Dangling

/-!
# The interner

The shard of a text is read off its first bytes, its index is the number of texts that came to that
shard before. Nothing is removed or moved, so a name keeps its text. Interning into a shard that is
full fails.
-/

set_option autoImplicit false

namespace Unbound

abbrev Shards := Vector (Array String) Name.shardCount

structure ShardFull where
  shard : Nat
  count : Nat
deriving DecidableEq, Repr

namespace ShardFull

def message (failure : ShardFull) : String :=
  s!"interner shard {failure.shard} exceeded capacity: {failure.count} strings, "
    ++ s!"max is {Name.maxIndex}"

end ShardFull

/-- Reads the first eight bytes of the text, in UTF-8, as digits of a number in base 31, cut off
at 32 bits, and takes it modulo the number of shards. -/
def shardOf (text : String) : Fin Name.shardCount :=
  let hash := (text.toUTF8.data.toList.take 8).foldl
    (fun (hash : UInt32) byte => hash * 31 + byte.toUInt32) 0
  ⟨hash.toNat % Name.shardCount, Nat.mod_lt _ (by decide)⟩

namespace Shards

def append (shards : Shards) (text : String) : Shards :=
  ⟨shards.toArray.modify (shardOf text).val (·.push text), by simp⟩

theorem getElem_append (shards : Shards) (text : String) (shard : Fin Name.shardCount) :
    (shards.append text)[shard] =
      if shardOf text = shard then shards[shard].push text else shards[shard] := by
  simp only [append, Fin.getElem_fin, Vector.getElem_mk, Array.getElem_modify,
    Vector.getElem_toArray, Fin.ext_iff]

theorem toList_foldl_append (texts : List String) (shards : Shards)
    (shard : Fin Name.shardCount) :
    (texts.foldl append shards)[shard].toList =
      shards[shard].toList ++ texts.filter (fun text => shardOf text = shard) := by
  induction texts generalizing shards with
  | nil => simp
  | cons text texts induction =>
      rw [List.foldl_cons, induction, getElem_append]
      by_cases same : shardOf text = shard <;> simp [same]

end Shards

def reservedWords : List String :=
  ["break", "case", "catch", "continue", "debugger", "default", "delete", "do", "else", "finally",
    "for", "function", "if", "in", "instanceof", "new", "return", "switch", "this", "throw", "try",
    "typeof", "var", "void", "while", "with",
    "null", "true", "false",
    "arguments", "undefined", "get", "set"]

/-- What every interner holds from the start: the empty text, then the reserved words. -/
def reservedShards : Shards :=
  ("" :: reservedWords).foldl Shards.append (Vector.replicate Name.shardCount #[])

theorem toList_reservedShards (shard : Fin Name.shardCount) :
    reservedShards[shard].toList =
      ("" :: reservedWords).filter (fun text => shardOf text = shard) := by
  rw [reservedShards, Shards.toList_foldl_append]
  simp

/-- The texts known so far. Each stands in its own shard, none stands there twice, what is there
from the start comes first, and no shard holds more than there are indices. -/
structure Interner where
  shards : Shards
  placed : ∀ shard : Fin Name.shardCount, ∀ text ∈ shards[shard].toList, shardOf text = shard
  distinct : ∀ shard : Fin Name.shardCount, shards[shard].toList.Nodup
  reserved : ∀ shard : Fin Name.shardCount,
    reservedShards[shard].toList <+: shards[shard].toList
  bounded : ∀ shard : Fin Name.shardCount, shards[shard].size ≤ Name.shardWidth

theorem idxOf?_eq_some_iff_of_nodup {texts : Array String} {text : String} {index : Nat}
    (distinct : texts.toList.Nodup) :
    texts.idxOf? text = some index ↔ texts[index]? = some text := by
  have listed : texts.idxOf? text = texts.toList.idxOf? text :=
    List.idxOf?_toArray text texts.toList
  rw [listed, List.idxOf?_eq_some_iff, ← Array.getElem?_toList, List.getElem?_eq_some_iff]
  constructor
  · intro first
    obtain ⟨bound, same, _⟩ := first
    exact ⟨bound, same⟩
  · intro stored
    obtain ⟨bound, same⟩ := stored
    refine ⟨bound, same, ?_⟩
    intro earlier before repeated
    have apart := List.pairwise_iff_getElem.mp distinct earlier index (Nat.lt_trans before bound)
      bound before
    exact apart (repeated.trans same.symm)

namespace Interner

def initial : Interner where
  shards := reservedShards
  placed shard text member := by
    rw [toList_reservedShards] at member
    simpa using (List.mem_filter.mp member).2
  distinct shard := by
    rw [toList_reservedShards]
    have distinct : ("" :: reservedWords).Nodup := by decide
    exact List.Pairwise.filter _ distinct
  reserved _ := List.prefix_rfl
  bounded shard := by
    rw [← Array.length_toList, toList_reservedShards]
    have short : ("" :: reservedWords).length ≤ Name.shardWidth := by decide
    exact Nat.le_trans (List.length_filter_le _ _) short

instance : Inhabited Interner := ⟨initial⟩

def find? (interner : Interner) (text : String) : Option Name :=
  let shard := shardOf text
  (interner.shards[shard].idxOf? text).map (Name.ofParts shard)

theorem isSome_find?_of_reserved (interner : Interner) (word : String)
    (known : word ∈ reservedWords) : (interner.find? word).isSome := by
  have member : word ∈ reservedShards[shardOf word].toList := by
    rw [toList_reservedShards]
    simp [known]
  have stored := (interner.reserved (shardOf word)).subset member
  simpa [find?] using stored

/-- The name of the variable that every function declares for what it was called with. -/
def argumentsName (interner : Interner) : Name :=
  (interner.find? "arguments").get (interner.isSome_find?_of_reserved "arguments" (by decide))

def lookup (interner : Interner) (name : Name) : Except Dangling String :=
  match interner.shards[name.shard][name.index]? with
  | some text => .ok text
  | none => .error (.name name)

def insertNew (interner : Interner) (text : String) (fresh : interner.find? text = none)
    (room : interner.shards[shardOf text].size ≤ Name.maxIndex) : Interner where
  shards := interner.shards.append text
  placed shard other member := by
    rw [Shards.getElem_append] at member
    split at member
    case isTrue same =>
      rw [Array.toList_push] at member
      rcases List.mem_append.mp member with known | added
      · exact interner.placed shard other known
      · rw [List.mem_singleton.mp added]
        exact same
    case isFalse => exact interner.placed shard other member
  distinct shard := by
    rw [Shards.getElem_append]
    split
    case isTrue same =>
      subst same
      have unknown : text ∉ interner.shards[shardOf text] := by
        simpa [find?] using fresh
      simpa [List.nodup_append] using
        ⟨interner.distinct (shardOf text), fun other known same => unknown (same ▸ known)⟩
    case isFalse => exact interner.distinct shard
  reserved shard := by
    rw [Shards.getElem_append]
    split
    case isTrue => simpa using (interner.reserved shard).trans (List.prefix_append _ _)
    case isFalse => exact interner.reserved shard
  bounded shard := by
    rw [Shards.getElem_append]
    split
    case isTrue same =>
      subst same
      rw [Array.size_push]
      exact Nat.succ_le_of_lt (Nat.lt_succ_of_le room)
    case isFalse => exact interner.bounded shard

def intern (interner : Interner) (text : String) : Except ShardFull (Name × Interner) :=
  match known : interner.find? text with
  | some name => .ok (name, interner)
  | none =>
      let shard := shardOf text
      let count := interner.shards[shard].size
      if room : count ≤ Name.maxIndex then
        .ok (.ofParts shard count, interner.insertNew text known room)
      else .error ⟨shard.val, count⟩

theorem lookup_eq_ok_iff {interner : Interner} {name : Name} {text : String} :
    interner.lookup name = .ok text ↔
      interner.shards[name.shard][name.index]? = some text := by
  unfold lookup
  cases interner.shards[name.shard][name.index]? <;> simp

theorem eq_of_lookup_eq_error {interner : Interner} {name : Name} {handle : Dangling}
    (missing : interner.lookup name = .error handle) : handle = .name name := by
  unfold lookup at missing
  split at missing
  · cases missing
  · exact (Except.error.inj missing).symm

/-- Looking up texts and looking up names are inverse to each other. -/
theorem find?_eq_some_iff {interner : Interner} {text : String} {name : Name} :
    interner.find? text = some name ↔ interner.lookup name = .ok text := by
  rw [lookup_eq_ok_iff]
  constructor
  · intro found
    obtain ⟨index, position, rfl⟩ := Option.map_eq_some_iff.mp found
    rw [idxOf?_eq_some_iff_of_nodup (interner.distinct (shardOf text))] at position
    have bound := (Array.getElem?_eq_some_iff.mp position).choose
    have fits : index ≤ Name.maxIndex :=
      Nat.le_sub_one_of_lt (Nat.lt_of_lt_of_le bound (interner.bounded (shardOf text)))
    simpa only [Name.shard_ofParts _ index fits, Name.index_ofParts _ index fits] using position
  · intro stored
    have member : text ∈ interner.shards[name.shard].toList :=
      Array.mem_toList_iff.mpr (Array.mem_of_getElem? stored)
    have shard := interner.placed name.shard text member
    rw [← idxOf?_eq_some_iff_of_nodup (interner.distinct name.shard)] at stored
    apply Option.map_eq_some_iff.mpr
    refine ⟨name.index, ?_, ?_⟩
    · simpa only [shard] using stored
    · rw [shard]
      exact name.ofParts_shard_index

theorem lookup_argumentsName (interner : Interner) :
    interner.lookup interner.argumentsName = .ok "arguments" :=
  find?_eq_some_iff.mp (Option.some_get _).symm

/-- The texts that are known, the empty one among them. -/
def texts (interner : Interner) : List String := interner.shards.toList.flatMap Array.toList

def size (interner : Interner) : Nat := interner.texts.length

/-- Whether nothing is known but the empty text. -/
def isEmpty (interner : Interner) : Bool := interner.size ≤ 1

end Interner

abbrev InternM := StateT Interner (Except ShardFull)

def intern (text : String) : InternM Name := fun interner => interner.intern text

end Unbound
