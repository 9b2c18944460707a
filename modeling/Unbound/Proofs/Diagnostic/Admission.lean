import Mathlib.Data.List.Induction
import Unbound.Proofs.Diagnostic.Limit

/-!
# What a queue admits

A queue decides by what it holds. Over a sequence of calls this comes to a law about all that was
offered: leave out what repeats something earlier, held or not, and cut the rest at the limit.
-/

set_option autoImplicit false

namespace Unbound

namespace Diagnostic

namespace Queued

theorem repeats_iff {later earlier : Queued} :
    later.repeats earlier ↔
      earlier.position.line = later.position.line ∧
        earlier.diagnostic.code = later.diagnostic.code ∧
          earlier.diagnostic.message = later.diagnostic.message := by
  rw [repeats, Bool.and_eq_true, Bool.and_eq_true, beq_iff_eq, beq_iff_eq, beq_iff_eq, and_assoc]

theorem repeats_trans {first second third : Queued} (later : third.repeats second)
    (earlier : second.repeats first) : third.repeats first := by
  rw [repeats_iff] at *
  obtain ⟨line, code, message⟩ := earlier
  exact ⟨line.trans later.1, code.trans later.2.1, message.trans later.2.2⟩

/-- Leaves out every diagnostic that repeats an earlier one, be that among those before the list or
in the list, left out itself or not. -/
def withoutRepeats (earlier : List Queued) : List Queued → List Queued
  | [] => []
  | queued :: rest =>
      if earlier.any queued.repeats then withoutRepeats (earlier ++ [queued]) rest
      else queued :: withoutRepeats (earlier ++ [queued]) rest

theorem withoutRepeats_concat (earlier offered : List Queued) (queued : Queued) :
    withoutRepeats earlier (offered ++ [queued]) =
      withoutRepeats earlier offered ++
        if (earlier ++ offered).any queued.repeats then [] else [queued] := by
  induction offered generalizing earlier with
  | nil => simp [withoutRepeats]
  | cons first rest induction =>
      have shifted : earlier ++ first :: rest = earlier ++ [first] ++ rest :=
        List.append_cons earlier first rest
      rw [List.cons_append, withoutRepeats, withoutRepeats, induction, shifted]
      split
      case isTrue => rfl
      case isFalse => rfl

/-- What repeats something offered repeats something that was not left out. -/
theorem any_repeats_withoutRepeats (earlier offered : List Queued) (queued : Queued) :
    (earlier ++ withoutRepeats earlier offered).any queued.repeats =
      (earlier ++ offered).any queued.repeats := by
  induction offered using List.reverseRecOn with
  | nil => rfl
  | append_singleton offered last induction =>
      have split : ((earlier ++ offered) ++ [last]).any queued.repeats =
          ((earlier ++ offered).any queued.repeats || [last].any queued.repeats) :=
        List.any_append
      rw [withoutRepeats_concat, ← List.append_assoc, ← List.append_assoc, List.any_append,
        induction, split]
      split
      case isFalse => rfl
      case isTrue repeated =>
        -- What repeats the one left out repeats the one that this one repeats.
        obtain ⟨first, member, sameAsFirst⟩ := List.any_eq_true.mp repeated
        have known : queued.repeats last → (earlier ++ offered).any queued.repeats := by
          intro sameAsLast
          exact List.any_eq_true.mpr ⟨first, member, repeats_trans sameAsLast sameAsFirst⟩
        rw [List.any_nil, Bool.or_false, List.any_cons, List.any_nil, Bool.or_false]
        cases same : queued.repeats last with
        | false => rw [Bool.or_false]
        | true => rw [known same, Bool.or_true]

end Queued

namespace Policy

variable {policy : Policy} {offered : List Queued} {queued : Queued}

def distinct (policy : Policy) (offered : List Queued) : List Queued :=
  if policy.deduplicate then Queued.withoutRepeats [] offered else offered

/-- What a queue is to hold of the diagnostics offered to it. -/
def admitted (policy : Policy) (offered : List Queued) : List Queued :=
  policy.shown (policy.distinct offered)

/-- A diagnostic that the policy does not want a second time. -/
def Repeated (policy : Policy) (offered : List Queued) (queued : Queued) : Prop :=
  policy.deduplicate ∧ offered.any queued.repeats

theorem distinct_concat_of_repeated (repeated : policy.Repeated offered queued) :
    policy.distinct (offered ++ [queued]) = policy.distinct offered := by
  obtain ⟨deduplicates, known⟩ := repeated
  rw [distinct, distinct, if_pos deduplicates, if_pos deduplicates, Queued.withoutRepeats_concat,
    List.nil_append, if_pos known, List.append_nil]

theorem distinct_concat_of_not_repeated (new : ¬ policy.Repeated offered queued) :
    policy.distinct (offered ++ [queued]) = policy.distinct offered ++ [queued] := by
  rw [distinct, distinct]
  split
  case isTrue deduplicates =>
    have fresh : ¬ offered.any queued.repeats := fun known => new ⟨deduplicates, known⟩
    rw [Queued.withoutRepeats_concat, List.nil_append, if_neg fresh]
  case isFalse => rfl

theorem distinct_sublist (policy : Policy) (offered : List Queued) :
    (policy.distinct offered).Sublist offered := by
  induction offered using List.reverseRecOn with
  | nil =>
      rw [distinct]
      split
      case isTrue => exact .slnil
      case isFalse => exact .slnil
  | append_singleton offered last induction =>
      by_cases repeated : policy.Repeated offered last
      · rw [distinct_concat_of_repeated repeated]
        exact induction.trans (List.sublist_append_left offered [last])
      · rw [distinct_concat_of_not_repeated repeated]
        exact induction.append_right [last]

/-- Only what is told apart from the others has to be searched for a repeat. -/
theorem repeated_iff_distinct :
    policy.Repeated offered queued ↔
      policy.deduplicate ∧ (policy.distinct offered).any queued.repeats := by
  rw [Repeated]
  apply and_congr_right
  intro deduplicates
  rw [distinct, if_pos deduplicates, ← List.nil_append (Queued.withoutRepeats [] offered),
    Queued.any_repeats_withoutRepeats, List.nil_append]

theorem admitted_concat_of_accepted (room : ¬ policy.Full (policy.distinct offered))
    (new : ¬ policy.Repeated offered queued) :
    policy.admitted (offered ++ [queued]) = policy.admitted offered ++ [queued] := by
  rw [admitted, admitted, distinct_concat_of_not_repeated new, shown_concat_of_not_full room]

theorem admitted_concat_of_refused
    (refused : policy.Full (policy.distinct offered) ∨ policy.Repeated offered queued) :
    policy.admitted (offered ++ [queued]) = policy.admitted offered := by
  rw [admitted, admitted]
  by_cases repeated : policy.Repeated offered queued
  · rw [distinct_concat_of_repeated repeated]
  · rw [distinct_concat_of_not_repeated repeated]
    exact shown_concat_of_full (refused.resolve_right repeated)

end Policy

namespace Queue

variable {policy : Policy} {offered : List Queued}

def holding (policy : Policy) (offered : List Queued) : Queue := ⟨policy, policy.admitted offered⟩

theorem limitReached_holding :
    (holding policy offered).limitReached ↔ policy.Full (policy.distinct offered) := by
  rw [Policy.full_iff_le_length_shown, limitReached, size, holding]
  rw [Bool.and_eq_true, decide_eq_true_eq, decide_eq_true_eq]
  rfl

theorem accepts_holding (queued : Queued) :
    (holding policy offered).accepts queued ↔
      ¬ policy.Full (policy.distinct offered) ∧ ¬ policy.Repeated offered queued := by
  rw [accepts, Bool.and_eq_true, Bool.not_eq_true', ← Bool.not_eq_true, limitReached_holding]
  apply and_congr_right
  intro room
  have all : (holding policy offered).pending = policy.distinct offered :=
    Policy.shown_of_not_full room
  rw [all, Policy.repeated_iff_distinct, Bool.not_eq_true', ← Bool.not_eq_true, Bool.and_eq_true]
  rfl

theorem accepts_holding_iff_joins (queued : Queued) :
    (holding policy offered).accepts queued ↔
      policy.admitted (offered ++ [queued]) = policy.admitted offered ++ [queued] := by
  rw [accepts_holding]
  constructor
  · intro accepted
    exact Policy.admitted_concat_of_accepted accepted.1 accepted.2
  · intro joined
    apply by_contradiction
    intro refused
    rw [not_and_or, not_not, not_not] at refused
    have longer := congrArg List.length joined
    rw [Policy.admitted_concat_of_refused refused, List.length_append, List.length_singleton]
      at longer
    omega

theorem add_holding (queued : Queued) :
    (holding policy offered).add queued =
      ((holding policy offered).accepts queued, holding policy (offered ++ [queued])) := by
  by_cases accepted : (holding policy offered).accepts queued
  · have joined := (accepts_holding_iff_joins queued).mp accepted
    rw [add_of_accepts accepted, accepted, holding, holding, joined]
  · have refused := (accepts_holding queued).not.mp accepted
    rw [not_and_or, not_not, not_not] at refused
    rw [add_of_not_accepts accepted, eq_false_of_ne_true accepted, holding, holding,
      Policy.admitted_concat_of_refused refused]

inductive Call where
  | add (queued : Queued)
  | addLocated (table : LineTable) (text : String) (diagnostic : Diagnostic)
  | flush

def perform (queue : Queue) : Call → Queue
  | .add queued => (queue.add queued).2
  | .addLocated table text diagnostic => (queue.addLocated table text diagnostic).2
  | .flush => queue.flush.2

def run (policy : Policy) (calls : List Call) : Queue := calls.foldl perform (.ofPolicy policy)

/-- The diagnostics offered so far, after one more call. Emptying the queue forgets them. -/
def offer (offered : List Queued) : Call → List Queued
  | .add queued => offered ++ [queued]
  | .addLocated table text diagnostic => offered ++ [⟨diagnostic, positionOf table text diagnostic⟩]
  | .flush => []

/-- What was offered, with its position, since the queue was last emptied. -/
def offeredBy (calls : List Call) : List Queued := calls.foldl offer []

theorem admitted_nil (policy : Policy) : policy.admitted [] = [] := by
  apply List.sublist_nil.mp
  have nothing : policy.distinct [] = [] := ite_self []
  rw [Policy.admitted, nothing]
  exact Policy.shown_sublist

theorem perform_holding (call : Call) :
    (holding policy offered).perform call = holding policy (offer offered call) := by
  cases call with
  | add queued => exact congrArg Prod.snd (add_holding queued)
  | addLocated table text diagnostic =>
      exact congrArg Prod.snd (add_holding ⟨diagnostic, positionOf table text diagnostic⟩)
  | flush => exact congrArg (Queue.mk policy) (admitted_nil policy).symm

theorem run_eq_holding (policy : Policy) (calls : List Call) :
    run policy calls = holding policy (offeredBy calls) := by
  induction calls using List.reverseRecOn with
  | nil => exact congrArg (Queue.mk policy) (admitted_nil policy).symm
  | append_singleton calls call induction =>
      have ran : run policy (calls ++ [call]) = (run policy calls).perform call :=
        List.foldl_append
      have offers : offeredBy (calls ++ [call]) = offer (offeredBy calls) call :=
        List.foldl_append
      rw [ran, offers, induction, perform_holding]

/-- After any sequence of calls a queue holds, of what was offered since it was last emptied, the
first of those that agree in line, code and message, up to the limit. It takes a diagnostic exactly
if that is to be held next, and stays the same otherwise. Its size, whether the limit is reached and
whether there were errors are read off what it holds. -/
theorem run_holds_first_distinct (policy : Policy) (calls : List Call) :
    (run policy calls).pending = policy.admitted (offeredBy calls) ∧
    (∀ queued, (run policy calls).add queued =
      if policy.admitted (offeredBy calls ++ [queued]) =
          policy.admitted (offeredBy calls) ++ [queued] then
        (true, run policy (calls ++ [.add queued]))
      else (false, run policy calls)) ∧
    (∀ table text diagnostic, (run policy calls).addLocated table text diagnostic =
      (run policy calls).add ⟨diagnostic, positionOf table text diagnostic⟩) ∧
    (run policy calls).size = (policy.admitted (offeredBy calls)).length ∧
    ((run policy calls).limitReached ↔
      0 < policy.limit ∧ (policy.admitted (offeredBy calls)).length = policy.limit) ∧
    ((run policy calls).errorsEmitted?.isSome ↔ policy.admitted (offeredBy calls) ≠ []) := by
  have held := run_eq_holding policy calls
  refine ⟨congrArg pending held, ?_, ?_, congrArg size held, ?_, ?_⟩
  · intro queued
    have next : run policy (calls ++ [.add queued]) = ((run policy calls).add queued).2 :=
      List.foldl_append
    rw [next, held]
    simp only [← accepts_holding_iff_joins]
    split
    case isTrue accepted => rw [add_of_accepts accepted]
    case isFalse refused => rw [add_of_not_accepts refused]
  · intro table text diagnostic
    rfl
  · rw [held, limitReached_holding, Policy.full_iff_le_length_shown, ← Policy.admitted]
    apply and_congr_right
    intro limited
    have within : (policy.admitted (offeredBy calls)).length ≤ policy.limit :=
      Policy.length_shown_le limited
    omega
  · rw [held, isSome_errorsEmitted?]
    rfl

end Queue

end Diagnostic

end Unbound
