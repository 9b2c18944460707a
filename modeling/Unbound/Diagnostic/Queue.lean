import Unbound.Source.Position
import Unbound.Diagnostic.Basic

/-!
# The queue of diagnostics

Diagnostics are collected with their positions and given out sorted. The sorting is stable, and the
limit is tested before repeats are.
-/

set_option autoImplicit false

namespace Unbound

/-- Evidence that at least one error was recorded. -/
structure ErrorsEmitted where
  count : Nat
  positive : 0 < count

namespace ErrorsEmitted

def ofCount? (count : Nat) : Option ErrorsEmitted :=
  if positive : 0 < count then some ⟨count, positive⟩ else none

instance : ToString ErrorsEmitted := ⟨fun _ => "error(s) emitted"⟩

end ErrorsEmitted

namespace Diagnostic

/-- How many diagnostics a queue takes, where zero means any number, and whether it removes
repeats. -/
structure Policy where
  limit : Nat := 10
  deduplicate : Bool := true
deriving DecidableEq, Repr

namespace Policy

def standard : Policy := {}

def unlimited : Policy := ⟨0, false⟩

end Policy

structure Queued where
  diagnostic : Diagnostic
  position : Position
deriving DecidableEq, Repr

/-- Whether two diagnostics say the same about the same line. -/
def Queued.repeats (later earlier : Queued) : Bool :=
  earlier.position.line == later.position.line &&
    earlier.diagnostic.code == later.diagnostic.code &&
      earlier.diagnostic.message == later.diagnostic.message

def Queued.precedes (left right : Queued) : Bool := left.position ≤ right.position

theorem Queued.precedes_iff {left right : Queued} :
    left.precedes right ↔ left.position ≤ right.position := by
  rw [Queued.precedes, decide_eq_true_eq]

theorem Queued.precedes_trans (first second third : Queued) (earlier : first.precedes second)
    (later : second.precedes third) : first.precedes third := by
  rw [Queued.precedes_iff] at *
  exact Position.le_trans earlier later

theorem Queued.precedes_total (left right : Queued) :
    left.precedes right || right.precedes left := by
  rw [Bool.or_eq_true, Queued.precedes_iff, Queued.precedes_iff]
  exact Position.le_total left.position right.position

structure Queue where
  policy : Policy
  pending : List Queued
deriving DecidableEq, Repr

namespace Queue

def ofPolicy (policy : Policy) : Queue := ⟨policy, []⟩

def size (queue : Queue) : Nat := queue.pending.length

def limitReached (queue : Queue) : Bool :=
  0 < queue.policy.limit && queue.policy.limit ≤ queue.size

def errorsEmitted? (queue : Queue) : Option ErrorsEmitted :=
  ErrorsEmitted.ofCount? queue.size

def accepts (queue : Queue) (queued : Queued) : Bool :=
  !queue.limitReached && !(queue.policy.deduplicate && queue.pending.any queued.repeats)

def add (queue : Queue) (queued : Queued) : Bool × Queue :=
  if queue.accepts queued then (true, { queue with pending := queue.pending ++ [queued] })
  else (false, queue)

/-- Where a diagnostic is put: at the start of its primary span, or at the beginning of the text if
it has none. -/
def positionOf (table : LineTable) (text : String) (diagnostic : Diagnostic) : Position :=
  match diagnostic.primarySpan? with
  | some span => table.position text span.start
  | none => .origin

def addLocated (queue : Queue) (table : LineTable) (text : String) (diagnostic : Diagnostic) :
    Bool × Queue :=
  queue.add ⟨diagnostic, positionOf table text diagnostic⟩

/-- Whether each diagnostic stands no later than the one that came after it. -/
def inOrder : List Queued → Bool
  | [] => true
  | [_] => true
  | first :: second :: rest => first.precedes second && inOrder (second :: rest)

def flush (queue : Queue) : List Diagnostic × Queue :=
  let ordered :=
    if inOrder queue.pending then queue.pending else queue.pending.mergeSort Queued.precedes
  (ordered.map Queued.diagnostic, ofPolicy queue.policy)

theorem add_of_accepts {queue : Queue} {queued : Queued} (accepted : queue.accepts queued) :
    queue.add queued = (true, { queue with pending := queue.pending ++ [queued] }) := by
  rw [add, if_pos accepted]

theorem add_of_not_accepts {queue : Queue} {queued : Queued} (refused : ¬ queue.accepts queued) :
    queue.add queued = (false, queue) := by
  rw [add, if_neg refused]

theorem isSome_errorsEmitted? (queue : Queue) :
    queue.errorsEmitted?.isSome ↔ queue.pending ≠ [] := by
  rw [errorsEmitted?, ErrorsEmitted.ofCount?, size, ne_eq, ← List.length_eq_zero_iff]
  split
  case isTrue some => simp only [Option.isSome_some, true_iff]; omega
  case isFalse none => simp only [Option.isSome_none, Bool.false_eq_true, false_iff]; omega

theorem inOrder_iff_pairwise (pending : List Queued) :
    inOrder pending ↔ pending.Pairwise fun left right => left.precedes right := by
  induction pending with
  | nil => simp [inOrder]
  | cons first rest ordered =>
      cases rest with
      | nil => simp [inOrder]
      | cons second rest =>
          rw [inOrder, Bool.and_eq_true, ordered]
          constructor
          · intro both
            obtain ⟨head, tail⟩ := both
            apply List.pairwise_cons.mpr
            refine ⟨?_, tail⟩
            intro queued member
            rcases List.mem_cons.mp member with same | later
            · exact same ▸ head
            · have after := (List.pairwise_cons.mp tail).1 queued later
              exact Queued.precedes_trans first second queued head after
          · intro all
            obtain ⟨head, tail⟩ := List.pairwise_cons.mp all
            exact ⟨head second List.mem_cons_self, tail⟩

/-- What a queue gives out does not depend on whether its order is tested first. -/
theorem flush_eq_mergeSort (queue : Queue) :
    queue.flush =
      ((queue.pending.mergeSort Queued.precedes).map Queued.diagnostic,
        ofPolicy queue.policy) := by
  rw [flush]
  split
  case isTrue ordered =>
    rw [List.mergeSort_of_pairwise ((inOrder_iff_pairwise queue.pending).mp ordered)]
  case isFalse => rfl

end Queue

end Diagnostic

end Unbound
