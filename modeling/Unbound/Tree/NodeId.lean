import Unbound.Source.Span

/-!
# Addresses of nodes and of child lists

The largest 32-bit number is set aside for a child that is absent: a missing `else`, an anonymous
function, a hole in an array.
-/

set_option autoImplicit false

namespace Unbound

@[ext] structure NodeId where
  raw : UInt32
deriving DecidableEq, Repr

namespace NodeId

def absent : NodeId := ⟨4294967295⟩

instance : Inhabited NodeId := ⟨absent⟩

def isPresent (id : NodeId) : Bool := id != absent

def present? (id : NodeId) : Option NodeId := if id.isPresent then some id else none

def index (id : NodeId) : Nat := id.raw.toNat

/-- The id of the node at an index. Meant for indices below that of `absent`. -/
def ofIndex (index : Nat) : NodeId := ⟨index.toUInt32⟩

instance : ToString NodeId where
  toString id := if id.isPresent then s!"NodeId({id.index})" else "NodeId::INVALID"

@[simp] theorem index_ofIndex (index : Nat) (fits : index ≤ maxWord) :
    (ofIndex index).index = index := by
  simp only [NodeId.index, ofIndex, Nat.toUInt32_eq, UInt32.toNat_ofNat']
  unfold maxWord at fits
  omega

end NodeId

/-- The `size` entries of the list buffer from `start` on. -/
@[ext] structure NodeRange where
  start : UInt32
  size : UInt32
deriving DecidableEq, Repr, Inhabited

namespace NodeRange

def empty : NodeRange := ⟨0, 0⟩

def isEmpty (range : NodeRange) : Bool := range.size == 0

/-- The index just past the last entry, undefined where it exceeds 32 bits. -/
def stop? (range : NodeRange) : Option Nat :=
  let stop := range.start.toNat + range.size.toNat
  if maxWord < stop then none else some stop

def text? (range : NodeRange) : Option String :=
  range.stop?.map fun stop => s!"NodeRange({range.start.toNat}..{stop})"

end NodeRange

end Unbound
