/-!
# Byte ranges of a source text

Nothing asks the two ends to be in order: a span whose end lies before its start is a value like any
other, and only its length is undefined.
-/

set_option autoImplicit false

namespace Unbound

def maxWord : Nat := 4294967295

/-- The bytes from `start` up to, but not including, `stop`. -/
@[ext] structure Span where
  start : UInt32
  stop : UInt32
deriving DecidableEq, Repr, Inhabited

inductive SpanError where
  | startTooLarge (offset : Nat)
  | stopTooLarge (offset : Nat)
deriving DecidableEq, Repr

namespace Span

/-- Stands for a missing position: the empty range at offset zero. -/
def dummy : Span := ⟨0, 0⟩

/-- The span between two offsets of any size. The start is tested first. -/
def ofOffsets (start stop : Nat) : Except SpanError Span :=
  if maxWord < start then .error (.startTooLarge start)
  else if maxWord < stop then .error (.stopTooLarge stop)
  else .ok ⟨start.toUInt32, stop.toUInt32⟩

def length? (span : Span) : Option Nat :=
  if span.stop < span.start then none else some (span.stop.toNat - span.start.toNat)

/-- Whether the two ends are equal. A span with its ends out of order is not empty. -/
def isEmpty (span : Span) : Bool := span.start == span.stop

instance : Membership UInt32 Span where
  mem span offset := span.start ≤ offset ∧ offset < span.stop

instance (offset : UInt32) (span : Span) : Decidable (offset ∈ span) :=
  inferInstanceAs (Decidable (span.start ≤ offset ∧ offset < span.stop))

def merge (left right : Span) : Span := ⟨min left.start right.start, max left.stop right.stop⟩

def precedes (left right : Span) : Bool :=
  left.start < right.start || left.start == right.start && left.stop ≤ right.stop

instance : ToString Span where
  toString span := s!"{span.start.toNat}..{span.stop.toNat}"

theorem mem_iff {offset : UInt32} {span : Span} :
    offset ∈ span ↔ span.start ≤ offset ∧ offset < span.stop := Iff.rfl

end Span

def hexadecimal (value : Nat) : String :=
  String.ofList ((Nat.toDigits 16 value).map Char.toUpper)

namespace SpanError

def message : SpanError → String
  | .startTooLarge offset => s!"span start {offset} (0x{hexadecimal offset}) exceeds u32::MAX"
  | .stopTooLarge offset => s!"span end {offset} (0x{hexadecimal offset}) exceeds u32::MAX"

end SpanError

end Unbound
