/-!
# Interned names

A `Name` stands for a text in 32 bits: four choose a shard, the others count within it. Names are
compared as numbers and never look at their text.
-/

set_option autoImplicit false

namespace Unbound

@[ext] structure Name where
  raw : UInt32
deriving DecidableEq, Repr, Inhabited

namespace Name

abbrev shardCount : Nat := 16

def shardWidth : Nat := 268435456

def maxIndex : Nat := shardWidth - 1

def empty : Name := ⟨0⟩

def isEmpty (name : Name) : Bool := name == empty

def shard (name : Name) : Fin shardCount :=
  ⟨name.raw.toNat / shardWidth, by
    have bound := name.raw.toNat_lt
    unfold shardWidth shardCount
    omega⟩

def index (name : Name) : Nat := name.raw.toNat % shardWidth

/-- The name at an index of a shard. Meant for indices up to `maxIndex`. -/
def ofParts (shard : Fin shardCount) (index : Nat) : Name :=
  ⟨(shard.val * shardWidth + index).toUInt32⟩

def ofParts? (shard index : Nat) : Option Name :=
  if fits : shard < shardCount then
    if index ≤ maxIndex then some (ofParts ⟨shard, fits⟩ index) else none
  else none

instance : ToString Name where
  toString name := s!"Name(shard={name.shard.val}, local={name.index})"

theorem toNat_raw_ofParts (shard : Fin shardCount) (index : Nat) (fits : index ≤ maxIndex) :
    (ofParts shard index).raw.toNat = shard.val * shardWidth + index := by
  have bound : shard.val < 16 := shard.isLt
  simp only [ofParts, Nat.toUInt32_eq, UInt32.toNat_ofNat']
  unfold maxIndex at fits
  unfold shardWidth at fits ⊢
  omega

@[simp] theorem shard_ofParts (shard : Fin shardCount) (index : Nat) (fits : index ≤ maxIndex) :
    (ofParts shard index).shard = shard := by
  apply Fin.ext
  simp only [Name.shard, toNat_raw_ofParts shard index fits]
  unfold maxIndex at fits
  unfold shardWidth at fits ⊢
  omega

@[simp] theorem index_ofParts (shard : Fin shardCount) (index : Nat) (fits : index ≤ maxIndex) :
    (ofParts shard index).index = index := by
  simp only [Name.index, toNat_raw_ofParts shard index fits]
  unfold maxIndex at fits
  unfold shardWidth at fits ⊢
  omega

theorem ofParts_shard_index (name : Name) : ofParts name.shard name.index = name := by
  have bound : name.index ≤ maxIndex := by
    simp only [index, maxIndex]
    unfold shardWidth
    omega
  apply Name.ext
  apply UInt32.toNat_inj.mp
  rw [toNat_raw_ofParts _ _ bound]
  simp only [shard, index]
  unfold shardWidth
  omega

theorem eq_ofParts_iff {name : Name} {shard : Fin shardCount} {index : Nat}
    (fits : index ≤ maxIndex) :
    name = ofParts shard index ↔ name.shard = shard ∧ name.index = index := by
  constructor
  · intro same
    rw [same]
    exact ⟨shard_ofParts shard index fits, index_ofParts shard index fits⟩
  · intro parts
    rw [← parts.1, ← parts.2, ofParts_shard_index]

end Name

end Unbound
