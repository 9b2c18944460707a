import Unbound.Proofs.Diagnostic.Admission

/-!
# What a queue gives out

Only one list is sorted by position and keeps the order of arrival, so a queue that is in order
already need not be sorted. Afterwards nothing tells the queue from a new one of its policy.
-/

set_option autoImplicit false

namespace Unbound

namespace Diagnostic

namespace Queued

variable {first second pending : List Queued}

def Ascending (queued : List Queued) : Prop :=
  queued.Pairwise fun left right => left.position ≤ right.position

def standingAt (position : Position) (queued : List Queued) : List Queued :=
  queued.filter (·.position = position)

/-- All of the diagnostics, by position, and in the order in which they came at each position. -/
structure Arranges (ordered pending : List Queued) : Prop where
  perm : ordered.Perm pending
  ascending : Ascending ordered
  stable : ∀ position, standingAt position ordered = standingAt position pending

theorem mem_iff_mem_standingAt (queued : Queued) :
    queued ∈ first ↔ queued ∈ standingAt queued.position first := by
  rw [standingAt, List.mem_filter]
  simp only [decide_true, and_true]

theorem mem_iff_of_standingAt_eq
    (same : ∀ position, standingAt position first = standingAt position second)
    (queued : Queued) : queued ∈ first ↔ queued ∈ second := by
  rw [mem_iff_mem_standingAt, same, ← mem_iff_mem_standingAt]

theorem position_le_of_mem {head queued : Queued} (ascending : Ascending (head :: first))
    (member : queued ∈ head :: first) : head.position ≤ queued.position := by
  rcases List.mem_cons.mp member with same | later
  · rw [same]
    exact Position.le_refl _
  · exact (List.pairwise_cons.mp ascending).1 queued later

theorem eq_of_ascending (firstAscending : Ascending first) (secondAscending : Ascending second)
    (same : ∀ position, standingAt position first = standingAt position second) :
    first = second := by
  have shared := mem_iff_of_standingAt_eq same
  induction first generalizing second with
  | nil =>
      apply (List.eq_nil_iff_forall_not_mem.mpr ?_).symm
      intro queued member
      exact absurd ((shared queued).mpr member) List.not_mem_nil
  | cons left first induction =>
      cases second with
      | nil => exact absurd ((shared left).mp List.mem_cons_self) List.not_mem_nil
      | cons right second =>
          have position : left.position = right.position := by
            apply Position.le_antisymm
            · exact position_le_of_mem firstAscending ((shared right).mpr List.mem_cons_self)
            · exact position_le_of_mem secondAscending ((shared left).mp List.mem_cons_self)
          have head : left = right := by
            have kept := same left.position
            rw [standingAt, standingAt, List.filter_cons, List.filter_cons,
              if_pos (decide_eq_true rfl), if_pos (decide_eq_true position.symm)] at kept
            exact (List.cons.inj kept).1
          subst head
          have tails : ∀ position, standingAt position first = standingAt position second := by
            intro position
            have kept := same position
            rw [standingAt, standingAt, List.filter_cons, List.filter_cons] at kept
            split at kept
            case isTrue => exact (List.cons.inj kept).2
            case isFalse => exact kept
          rw [induction (List.pairwise_cons.mp firstAscending).2
            (List.pairwise_cons.mp secondAscending).2 tails (mem_iff_of_standingAt_eq tails)]

/-- Diagnostics at one position precede one another, so sorting leaves them in their order. -/
theorem standingAt_mergeSort (position : Position) (pending : List Queued) :
    standingAt position (pending.mergeSort precedes) = standingAt position pending := by
  have level : (standingAt position pending).Pairwise fun left right => left.precedes right := by
    apply List.pairwise_of_forall_mem_list
    intro left leftThere right rightThere
    have leftHere := of_decide_eq_true (List.mem_filter.mp leftThere).2
    have rightHere := of_decide_eq_true (List.mem_filter.mp rightThere).2
    rw [precedes_iff, leftHere, rightHere]
    exact Position.le_refl position
  have inSorted := List.sublist_mergeSort precedes_trans precedes_total level List.filter_sublist
  have kept := inSorted.filter fun queued => decide (queued.position = position)
  have again : (standingAt position pending).filter
      (fun queued => decide (queued.position = position)) = standingAt position pending := by
    rw [standingAt, List.filter_filter]
    simp only [Bool.and_self]
  rw [again] at kept
  have length := ((List.mergeSort_perm pending precedes).filter fun queued =>
    decide (queued.position = position)).length_eq
  exact (kept.eq_of_length length.symm).symm

theorem arranges_mergeSort (pending : List Queued) :
    Arranges (pending.mergeSort precedes) pending where
  perm := List.mergeSort_perm pending precedes
  ascending := (List.pairwise_mergeSort precedes_trans precedes_total pending).imp precedes_iff.mp
  stable position := standingAt_mergeSort position pending

/-- There is one arrangement of the diagnostics, and sorting finds it. -/
theorem arranges_iff : Arranges first pending ↔ first = pending.mergeSort precedes := by
  have sorted := arranges_mergeSort pending
  constructor
  · intro arranged
    apply eq_of_ascending arranged.ascending sorted.ascending
    intro position
    rw [arranged.stable, sorted.stable]
  · intro same
    exact same ▸ sorted

theorem inOrder_iff_mergeSort_eq :
    Queue.inOrder pending ↔ pending.mergeSort precedes = pending := by
  rw [Queue.inOrder_iff_pairwise]
  constructor
  · exact List.mergeSort_of_pairwise
  · intro same
    exact same ▸ List.pairwise_mergeSort precedes_trans precedes_total pending

end Queued

namespace Queue

variable {policy : Policy}

inductive Answer where
  | taken (accepted : Bool)
  | given (diagnostics : List Diagnostic)

def answer (queue : Queue) : Call → Answer
  | .add queued => .taken (queue.add queued).1
  | .addLocated table text diagnostic => .taken (queue.addLocated table text diagnostic).1
  | .flush => .given queue.flush.1

/-- All that can be seen of a call: the answer, and what the queue says of itself afterwards. -/
structure Sight where
  answer : Answer
  size : Nat
  limitReached : Bool
  errorsEmitted : Option ErrorsEmitted

def look (queue : Queue) (call : Call) : Sight :=
  ⟨queue.answer call, (queue.perform call).size, (queue.perform call).limitReached,
    (queue.perform call).errorsEmitted?⟩

def watch (queue : Queue) : List Call → List Sight
  | [] => []
  | call :: calls => queue.look call :: (queue.perform call).watch calls

/-- A counter of the diagnostics that were taken since they were last given out. -/
def tally (count : Nat) : Answer → Nat
  | .taken true => count + 1
  | .taken false => count
  | .given _ => 0

theorem watch_append (queue : Queue) (earlier later : List Call) :
    queue.watch (earlier ++ later) =
      queue.watch earlier ++ (earlier.foldl perform queue).watch later := by
  induction earlier generalizing queue with
  | nil => rfl
  | cons call earlier induction =>
      rw [List.cons_append, watch, watch, induction]
      rfl

theorem size_add (queue : Queue) (queued : Queued) :
    (queue.add queued).2.size = tally queue.size (.taken (queue.add queued).1) := by
  by_cases accepted : queue.accepts queued
  · rw [add_of_accepts accepted, size, List.length_append]
    rfl
  · rw [add_of_not_accepts accepted]
    rfl

theorem size_perform (queue : Queue) (call : Call) :
    (queue.perform call).size = tally queue.size (queue.answer call) := by
  cases call with
  | add queued => exact queue.size_add queued
  | addLocated table text diagnostic =>
      exact queue.size_add ⟨diagnostic, positionOf table text diagnostic⟩
  | flush => rfl

theorem size_foldl_perform (queue : Queue) (calls : List Call) :
    (calls.foldl perform queue).size =
      ((queue.watch calls).map Sight.answer).foldl tally queue.size := by
  induction calls generalizing queue with
  | nil => rfl
  | cons call calls induction =>
      rw [List.foldl_cons, induction, size_perform]
      rfl

theorem flush_run (policy : Policy) (calls : List Call) :
    (run policy calls).flush =
      (((run policy calls).pending.mergeSort Queued.precedes).map Queued.diagnostic,
        ofPolicy policy) := by
  have held : (run policy calls).policy = policy :=
    congrArg Queue.policy (run_eq_holding policy calls)
  rw [flush_eq_mergeSort, held]

theorem run_flush (policy : Policy) (calls : List Call) :
    run policy (calls ++ [.flush]) = ofPolicy policy := by
  have emptied : run policy (calls ++ [.flush]) = (run policy calls).flush.2 := List.foldl_append
  rw [emptied, flush_run]

/-- After any calls a queue has one list to give out: all that it holds, by position, and in the
order in which it came where positions are the same. This is the list that sorting makes, and what
the queue holds is that list already exactly if it is found to be in order. With it the queue has
forgotten the calls so far: what is seen of further ones is what is seen of them on a new queue, and
its size is always that of a counter which starts again there. -/
theorem flush_arranges_and_forgets (policy : Policy) (calls : List Call) :
    ∃ ordered : List Queued,
      (run policy calls).flush = (ordered.map Queued.diagnostic, ofPolicy policy) ∧
      (∀ other, Queued.Arranges other (run policy calls).pending ↔ other = ordered) ∧
      (run policy calls).pending.mergeSort Queued.precedes = ordered ∧
      (inOrder (run policy calls).pending ↔ ordered = (run policy calls).pending) ∧
      (run policy calls).size =
        (((ofPolicy policy).watch calls).map Sight.answer).foldl tally 0 ∧
      ∀ further, (ofPolicy policy).watch (calls ++ .flush :: further) =
        (ofPolicy policy).watch (calls ++ [.flush]) ++ (ofPolicy policy).watch further := by
  refine ⟨_, flush_run policy calls, fun other => Queued.arranges_iff, rfl,
    Queued.inOrder_iff_mergeSort_eq, (ofPolicy policy).size_foldl_perform calls, ?_⟩
  intro further
  have emptied : (calls ++ [Call.flush]).foldl perform (ofPolicy policy) = ofPolicy policy :=
    run_flush policy calls
  rw [List.append_cons, watch_append, emptied]

end Queue

end Diagnostic

end Unbound
