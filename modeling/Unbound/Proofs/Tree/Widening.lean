import Unbound.Proofs.Tree.Depth
import Unbound.Proofs.Tree.Reordering

/-!
# Traces with a block put in

Where the mark does not occur nothing changes, and where it occurs once a block of events is put in
somewhere.
-/

set_option autoImplicit false

namespace Unbound

variable {Event Refusal : Type}

namespace Trace

theorem ended_append_iff {first second : Trace Event Refusal} :
    (first ++ second).interruption = none ↔
      first.interruption = none ∧ second.interruption = none := by
  cases outcome : first.interruption with
  | none => simp [append_of_ended second outcome]
  | some interruption => simp [append_of_interrupted second outcome, outcome]

theorem events_append_of_ended {first second : Trace Event Refusal}
    (ended : first.interruption = none) :
    (first ++ second).events = first.events ++ second.events := by
  rw [append_of_ended second ended]

theorem ended_of_mem_of_ended_concat {traces : List (Trace Event Refusal)}
    (ended : (concat traces).interruption = none) {trace : Trace Event Refusal}
    (member : trace ∈ traces) : trace.interruption = none := by
  induction traces with
  | nil => cases member
  | cons first traces induction =>
      obtain ⟨endedFirst, rest⟩ := ended_append_iff.mp ended
      rcases List.mem_cons.mp member with rfl | later
      · exact endedFirst
      · exact induction rest later

variable [DecidableEq Event]

/-- If the first trace runs to its end, then so does the second one, and it is the first one with
the block put in, provided that the mark occurs there once, and the same if it does not occur. -/
structure Widens (mark : Event) (block : List Event) (narrow wide : Trace Event Refusal) :
    Prop where
  ends : narrow.interruption = none → wide.interruption = none
  same : narrow.interruption = none → mark ∉ narrow.events → wide.events = narrow.events
  once : narrow.interruption = none → narrow.events.count mark = 1 →
    ∃ front back, narrow.events = front ++ back ∧ wide.events = front ++ block ++ back

variable {mark : Event} {block : List Event}

theorem widens_of_interrupted {narrow : Trace Event Refusal} (wide : Trace Event Refusal)
    (interrupted : narrow.interruption ≠ none) : narrow.Widens mark block wide where
  ends ended := absurd ended interrupted
  same ended := absurd ended interrupted
  once ended := absurd ended interrupted

/-- Where the mark does not occur, there is nothing to put in. -/
theorem widens_refl {trace : Trace Event Refusal} (unmarked : mark ∉ trace.events) :
    trace.Widens mark block trace where
  ends ended := ended
  same _ _ := rfl
  once _ count := by
    rw [List.count_eq_zero.mpr unmarked] at count
    cases count

theorem Widens.append {first second wideFirst wideSecond : Trace Event Refusal}
    (before : first.Widens mark block wideFirst) (after : second.Widens mark block wideSecond) :
    (first ++ second).Widens mark block (wideFirst ++ wideSecond) where
  ends ended := by
    obtain ⟨endedFirst, endedSecond⟩ := ended_append_iff.mp ended
    exact ended_append_iff.mpr ⟨before.ends endedFirst, after.ends endedSecond⟩
  same ended unmarked := by
    obtain ⟨endedFirst, endedSecond⟩ := ended_append_iff.mp ended
    rw [events_append_of_ended endedFirst, List.mem_append, not_or] at unmarked
    rw [events_append_of_ended endedFirst, events_append_of_ended (before.ends endedFirst),
      before.same endedFirst unmarked.1, after.same endedSecond unmarked.2]
  once ended count := by
    obtain ⟨endedFirst, endedSecond⟩ := ended_append_iff.mp ended
    rw [events_append_of_ended endedFirst, List.count_append] at count
    rw [events_append_of_ended endedFirst, events_append_of_ended (before.ends endedFirst)]
    -- The mark is in one of the two, and the other one has not changed.
    by_cases early : first.events.count mark = 1
    · have later : mark ∉ second.events := List.count_eq_zero.mp (by omega)
      obtain ⟨front, back, split, widened⟩ := before.once endedFirst early
      refine ⟨front, back ++ second.events, ?_, ?_⟩
      · rw [split, List.append_assoc]
      · rw [widened, after.same endedSecond later, List.append_assoc (front ++ block)]
    · have earlier : mark ∉ first.events := List.count_eq_zero.mp (by omega)
      have late : second.events.count mark = 1 := by omega
      obtain ⟨front, back, split, widened⟩ := after.once endedSecond late
      refine ⟨first.events ++ front, back, ?_, ?_⟩
      · rw [split, List.append_assoc]
      · rw [widened, before.same endedFirst earlier, List.append_assoc, List.append_assoc,
          List.append_assoc]

theorem widens_concat {Item : Type} {items : List Item} {narrow wide : Item → Trace Event Refusal}
    (each : ∀ item ∈ items, (narrow item).Widens mark block (wide item)) :
    (concat (items.map narrow)).Widens mark block (concat (items.map wide)) := by
  induction items with
  | nil => exact widens_refl List.not_mem_nil
  | cons item items induction =>
      rw [List.map_cons, List.map_cons, concat_cons, concat_cons]
      apply (each item List.mem_cons_self).append
      apply induction
      intro other member
      exact each other (List.mem_cons_of_mem item member)

/-- The block is put in after the mark, which does not occur again. -/
theorem Widens.insert {first second wideFirst wideSecond : Trace Event Refusal}
    (before : first.Widens mark block wideFirst) (after : second.Widens mark block wideSecond) :
    ((⟨[mark], none⟩ : Trace Event Refusal) ++ (first ++ second)).Widens mark block
      ((⟨[mark], none⟩ : Trace Event Refusal) ++
        (wideFirst ++ ((⟨block, none⟩ : Trace Event Refusal) ++ wideSecond))) where
  ends ended := by
    have rest : (first ++ second).interruption = none := ended
    obtain ⟨endedFirst, endedSecond⟩ := ended_append_iff.mp rest
    have wide : (wideFirst ++ ((⟨block, none⟩ : Trace Event Refusal) ++ wideSecond)).interruption =
        none := ended_append_iff.mpr ⟨before.ends endedFirst, after.ends endedSecond⟩
    exact wide
  same ended unmarked := absurd List.mem_cons_self unmarked
  once ended count := by
    have rest : (first ++ second).interruption = none := ended
    obtain ⟨endedFirst, endedSecond⟩ := ended_append_iff.mp rest
    have narrow : ((⟨[mark], none⟩ : Trace Event Refusal) ++ (first ++ second)).events =
        mark :: (first.events ++ second.events) :=
      congrArg (List.cons mark) (events_append_of_ended endedFirst)
    have wide : ((⟨[mark], none⟩ : Trace Event Refusal) ++
        (wideFirst ++ ((⟨block, none⟩ : Trace Event Refusal) ++ wideSecond))).events =
        mark :: (wideFirst.events ++ (block ++ wideSecond.events)) :=
      congrArg (List.cons mark) (events_append_of_ended (before.ends endedFirst))
    rw [narrow, List.count_cons_self, List.count_append] at count
    have earlier : mark ∉ first.events := List.count_eq_zero.mp (by omega)
    have later : mark ∉ second.events := List.count_eq_zero.mp (by omega)
    refine ⟨mark :: first.events, second.events, narrow, ?_⟩
    rw [wide, before.same endedFirst earlier, after.same endedSecond later, List.append_assoc,
      List.cons_append]

end Trace

def Step.relocate (move : NodeRange → NodeRange) : Step Event Refusal → Step Event Refusal
  | .child part => .child (part.relocate move)
  | .emit event => .emit event
  | .refuse refusal => .refuse refusal
  | .dangle handle => .dangle handle

namespace Arena

variable [DecidableEq Event] {mark : Event} {block : List Event} {before after : Arena}
  {narrow wide : NodeId → Trace Event Refusal}

theorem widens_traceStep_node
    (visits : ∀ id, (narrow id).Widens mark block (wide id)) (id : NodeId) :
    (before.traceStep narrow (.child (.node id))).Widens mark block
      (after.traceStep wide (.child (.node id))) := by
  rw [traceStep_node, traceStep_node]
  split
  case isTrue => exact visits id
  case isFalse => exact Trace.widens_refl List.not_mem_nil

theorem widens_traceStep (visits : ∀ id, (narrow id).Widens mark block (wide id))
    {move : NodeRange → NodeRange} {step : Step Event Refusal} (unmarked : step ≠ .emit mark)
    (lists : ∀ range ids, step = .child (.list range) → before.list range = .ok ids →
      after.list (move range) = .ok ids) :
    (before.traceStep narrow step).Widens mark block
      (after.traceStep wide (step.relocate move)) := by
  cases step with
  | emit event =>
      apply Trace.widens_refl
      intro member
      exact unmarked (congrArg Step.emit (List.mem_singleton.mp member).symm)
  | refuse refusal => exact Trace.widens_of_interrupted _ nofun
  | dangle handle => exact Trace.widens_of_interrupted _ nofun
  | child part =>
      cases part with
      | node id => exact widens_traceStep_node visits id
      | list range =>
          cases found : before.list range with
          | error handle =>
              apply Trace.widens_of_interrupted
              rw [traceStep_list_dangling _ _ _ _ found]
              exact nofun
          | ok ids =>
              have moved := lists range ids rfl found
              rw [traceStep_list _ _ _ _ found, Step.relocate, Child.relocate,
                traceStep_list _ _ _ _ moved]
              exact Trace.widens_concat fun id _ => widens_traceStep_node visits id

end Arena

end Unbound
