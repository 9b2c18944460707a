import Unbound.Proofs.Tree.Depth

/-!
# Walks that go down

If nodes refer to earlier ones only, each step of a walk into a part lowers the index of its node.
-/

set_option autoImplicit false

namespace Unbound

def NodeId.Within (bound : Nat) (id : NodeId) : Prop := id = .absent ∨ id.index < bound

theorem NodeId.Within.mono {bound larger : Nat} {id : NodeId} (within : id.Within bound)
    (le : bound ≤ larger) : id.Within larger := by
  apply within.imp_right
  intro below
  exact Nat.lt_of_lt_of_le below le

theorem NodeId.Within.index_lt {bound : Nat} {id : NodeId} (within : id.Within bound)
    (present : id.isPresent) : id.index < bound := by
  apply within.resolve_left
  intro absent
  rw [absent] at present
  cases present

namespace Arena

/-- The part can be read, and leads to none but the first so many nodes. -/
def Below (arena : Arena) (bound : Nat) : Child → Prop
  | .node id => id.Within bound
  | .list range => ∃ ids, arena.list range = .ok ids ∧ ∀ id ∈ ids, id.Within bound

/-- Every node refers to earlier nodes only. -/
def Descending (arena : Arena) : Prop :=
  ∀ index node, arena.nodes[index]? = some node →
    ∀ part ∈ node.construct.children, arena.Below index part

theorem exists_node_of_index_lt {arena : Arena} {id : NodeId} (inside : id.index < arena.size) :
    ∃ node, arena.node id = .ok node := by
  refine ⟨arena.nodes[id.index], ?_⟩
  rw [node_eq_ok_iff]
  exact Array.getElem?_eq_getElem inside

theorem Descending.below {arena : Arena} {id : NodeId} {node : Node} {part : Child}
    (descending : arena.Descending) (found : arena.node id = .ok node)
    (member : part ∈ node.construct.children) : arena.Below id.index part :=
  descending id.index node (node_eq_ok_iff.mp found) part member

end Arena

variable {Event Refusal : Type} {reports : Event → Prop} {refuses : Refusal → Prop}

/-- The trace reports events of one kind only, and nothing interrupts it but refusals of one
kind. -/
structure Trace.Confined (reports : Event → Prop) (refuses : Refusal → Prop)
    (trace : Trace Event Refusal) : Prop where
  events : ∀ event ∈ trace.events, reports event
  interruption : ∀ interruption, trace.interruption = some interruption →
    ∃ refusal, interruption = .refused refusal ∧ refuses refusal

namespace Trace

theorem confined_done : (done : Trace Event Refusal).Confined reports refuses where
  events event member := by cases member
  interruption interruption broken := by cases broken

theorem Confined.append {first second : Trace Event Refusal}
    (before : first.Confined reports refuses) (after : second.Confined reports refuses) :
    (first ++ second).Confined reports refuses := by
  cases outcome : first.interruption with
  | some interruption =>
      rw [append_of_interrupted second outcome]
      exact before
  | none =>
      rw [append_of_ended second outcome]
      constructor
      · intro event member
        rcases List.mem_append.mp member with early | late
        · exact before.events event early
        · exact after.events event late
      · exact after.interruption

theorem confined_concat {Item : Type} {items : List Item} {trace : Item → Trace Event Refusal}
    (each : ∀ item ∈ items, (trace item).Confined reports refuses) :
    (concat (items.map trace)).Confined reports refuses := by
  induction items with
  | nil => exact confined_done
  | cons item items induction =>
      rw [List.map_cons, concat_cons]
      apply (each item List.mem_cons_self).append
      apply induction
      intro other member
      exact each other (List.mem_cons_of_mem item member)

end Trace

/-- The step reports or refuses what it may, or goes on to a part that leads to none but the first
so many nodes. -/
def Step.Descends (reports : Event → Prop) (refuses : Refusal → Prop) (arena : Arena)
    (bound : Nat) : Step Event Refusal → Prop
  | .emit event => reports event
  | .child part => arena.Below bound part
  | .refuse refusal => refuses refusal
  | .dangle _ => False

namespace Arena

variable {arena : Arena} {pass : Pass Event Refusal}

theorem confined_traceStep {visit : NodeId → Trace Event Refusal} {bound : Nat}
    (visits : ∀ id : NodeId, id.index < bound → (visit id).Confined reports refuses)
    {step : Step Event Refusal} (descends : step.Descends reports refuses arena bound) :
    (arena.traceStep visit step).Confined reports refuses := by
  have ofNode : ∀ id : NodeId, id.Within bound →
      (arena.traceStep visit (.child (.node id))).Confined reports refuses := by
    intro id within
    rw [traceStep_node]
    split
    case isTrue present => exact visits id (within.index_lt present)
    case isFalse => exact Trace.confined_done
  cases step with
  | emit event =>
      constructor
      · intro other member
        rw [traceStep_emit, List.mem_singleton] at member
        rw [member]
        exact descends
      · intro interruption broken
        cases broken
  | refuse refusal =>
      constructor
      · intro event member
        cases member
      · intro interruption broken
        exact ⟨refusal, (Option.some.inj broken).symm, descends⟩
  | dangle handle => exact descends.elim
  | child part =>
      cases part with
      | node id => exact ofNode id descends
      | list range =>
          obtain ⟨ids, found, within⟩ := descends
          rw [traceStep_list _ _ _ _ found]
          apply Trace.confined_concat
          intro id member
          exact ofNode id (within id member)

variable
  (descends : ∀ id : NodeId, id.index < arena.size →
    ∀ step ∈ pass id, step.Descends reports refuses arena id.index)

include descends

/-- A node needs no more depth than its index. -/
theorem confined_traceWithin {depth : Nat} {id : NodeId} (inside : id.index < arena.size)
    (deep : id.index < depth) : (arena.traceWithin pass depth id).Confined reports refuses := by
  induction depth generalizing id with
  | zero => exact absurd deep (Nat.not_lt_zero _)
  | succ depth induction =>
      rw [traceWithin_succ]
      apply Trace.confined_concat
      intro step member
      have below : ∀ inner : NodeId, inner.index < id.index →
          (arena.traceWithin pass depth inner).Confined reports refuses := by
        intro inner lower
        exact induction (Nat.lt_trans lower inside)
          (Nat.lt_of_lt_of_le lower (Nat.le_of_lt_succ deep))
      exact confined_traceStep below (descends id inside step member)

theorem confined_walk {root : NodeId} (within : root.Within arena.size) :
    (arena.walk pass root).Confined reports refuses := by
  rw [walk_eq_trace]
  have visits : ∀ id : NodeId, id.index < arena.size →
      (arena.traceWithin pass (arena.size + 1) id).Confined reports refuses := by
    intro id inside
    exact confined_traceWithin descends inside (Nat.lt_succ_of_lt inside)
  have start : Step.Descends reports refuses arena arena.size (.child (.node root)) := within
  exact confined_traceStep visits start

end Arena

/-- Visiting a program whose nodes refer to earlier ones only is interrupted by nothing but a
refused node. -/
theorem Program.visit_of_descending {program : Program} (descending : program.arena.Descending)
    (within : program.root.Within program.arena.size) (refuses : Construct → Bool)
    {interruption : Interruption NodeId}
    (broken : (program.visit refuses).interruption = some interruption) :
    ∃ id node, interruption = .refused id ∧ program.arena.node id = .ok node ∧
      refuses node.construct := by
  have descends : ∀ id : NodeId, id.index < program.arena.size →
      ∀ step ∈ program.arena.preorder refuses id,
        step.Descends (fun _ => True)
          (fun id => ∃ node, program.arena.node id = .ok node ∧ refuses node.construct)
          program.arena id.index := by
    intro id inside step member
    obtain ⟨node, found⟩ := Arena.exists_node_of_index_lt inside
    rw [Arena.preorder, found] at member
    rcases List.mem_cons.mp member with rfl | later
    · trivial
    · dsimp only at later
      split at later
      case isTrue refused =>
        rw [List.mem_singleton.mp later]
        exact ⟨node, found, refused⟩
      case isFalse =>
        obtain ⟨part, listed, rfl⟩ := List.mem_map.mp later
        exact descending.below found listed
  have confined := (Arena.confined_walk descends within).interruption interruption broken
  obtain ⟨id, same, node, found, refused⟩ := confined
  exact ⟨id, node, same, found, refused⟩

end Unbound
