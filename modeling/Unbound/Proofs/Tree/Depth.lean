import Mathlib.Data.Fintype.Card
import Mathlib.Order.Monotone.Basic
import Unbound.Tree.Walk

/-!
# How deep a walk goes

The set of nodes whose trace has settled grows with the depth, and once it stays the same for one
step it stays the same for good. So `cyclic` is reported of infinite walks only.
-/

set_option autoImplicit false

namespace Unbound

theorem NodeId.ofIndex_index (id : NodeId) : NodeId.ofIndex id.index = id := by
  apply NodeId.ext
  exact UInt32.ofNat_toNat

variable {Event Refusal : Type}

namespace Trace

def settled (trace : Trace Event Refusal) : Bool :=
  match trace.interruption with
  | some .cyclic => false
  | _ => true

theorem settled_of_interruption_eq_none {trace : Trace Event Refusal}
    (ended : trace.interruption = none) : trace.settled := by
  rw [settled, ended]

theorem append_of_ended {first : Trace Event Refusal} (second : Trace Event Refusal)
    (ended : first.interruption = none) :
    first ++ second = ⟨first.events ++ second.events, second.interruption⟩ := by
  obtain ⟨events, interruption⟩ := first
  cases ended
  rfl

theorem append_of_interrupted {first : Trace Event Refusal} (second : Trace Event Refusal)
    {interruption : Interruption Refusal} (broken : first.interruption = some interruption) :
    first ++ second = first := by
  obtain ⟨events, interruption⟩ := first
  cases broken
  rfl

/-- Where the whole settles, all that is reached does, so only settled traces matter. -/
theorem concat_congr_of_settled {Item : Type} (items : List Item)
    (before after : Item → Trace Event Refusal)
    (agree : ∀ item, (before item).settled → after item = before item)
    (settled : (concat (items.map before)).settled) :
    concat (items.map after) = concat (items.map before) := by
  induction items with
  | nil => rfl
  | cons item items induction =>
      rw [List.map_cons, concat_cons] at settled ⊢
      rw [List.map_cons, concat_cons]
      cases outcome : (before item).interruption with
      | none =>
          have first : after item = before item :=
            agree item (settled_of_interruption_eq_none outcome)
          have rest : (concat (items.map before)).settled := by
            rw [append_of_ended _ outcome] at settled
            exact settled
          rw [first, induction rest]
      | some interruption =>
          rw [append_of_interrupted _ outcome] at settled
          rw [agree item settled, append_of_interrupted _ outcome, append_of_interrupted _ outcome]

end Trace

namespace Arena

theorem node_eq_error_of_size_le {arena : Arena} {id : NodeId} (outside : arena.size ≤ id.index) :
    arena.node id = .error (.node id) := by
  have absent : arena.nodes[id.index]? = none := Array.getElem?_eq_none outside
  rw [Arena.node, absent]

variable (arena : Arena) (pass : Pass Event Refusal)

theorem traceStep_congr_of_settled (before after : NodeId → Trace Event Refusal)
    (agree : ∀ id, (before id).settled → after id = before id) (step : Step Event Refusal)
    (settled : (arena.traceStep before step).settled) :
    arena.traceStep after step = arena.traceStep before step := by
  cases step with
  | emit event => rfl
  | refuse refusal => rfl
  | dangle handle => rfl
  | child part =>
      have ofNode : ∀ id : NodeId, (arena.traceStep before (.child (.node id))).settled →
          arena.traceStep after (.child (.node id)) =
            arena.traceStep before (.child (.node id)) := by
        intro id settledThere
        rw [traceStep_node] at settledThere ⊢
        rw [traceStep_node]
        split at settledThere
        case isTrue present => rw [if_pos present, if_pos present, agree id settledThere]
        case isFalse missing => rw [if_neg missing, if_neg missing]
      cases part with
      | node id => exact ofNode id settled
      | list range =>
          cases found : arena.list range with
          | error handle =>
              rw [traceStep_list_dangling _ _ _ _ found, traceStep_list_dangling _ _ _ _ found]
          | ok ids =>
              rw [traceStep_list _ _ _ _ found] at settled ⊢
              rw [traceStep_list _ _ _ _ found]
              exact Trace.concat_congr_of_settled ids _ _ ofNode settled

theorem traceWithin_succ (depth : Nat) (id : NodeId) :
    arena.traceWithin pass (depth + 1) id =
      .concat ((pass id).map (arena.traceStep (arena.traceWithin pass depth))) := rfl

/-- Two depths that agree on the settled traces below agree one level up. -/
theorem traceWithin_succ_congr {lower upper : Nat} (id : NodeId)
    (agree : ∀ inner, (arena.traceWithin pass lower inner).settled →
      arena.traceWithin pass upper inner = arena.traceWithin pass lower inner)
    (settled : (arena.traceWithin pass (lower + 1) id).settled) :
    arena.traceWithin pass (upper + 1) id = arena.traceWithin pass (lower + 1) id :=
  Trace.concat_congr_of_settled (pass id) _ _
    (arena.traceStep_congr_of_settled _ _ agree) settled

theorem traceWithin_succ_of_settled (depth : Nat) (id : NodeId)
    (settled : (arena.traceWithin pass depth id).settled) :
    arena.traceWithin pass (depth + 1) id = arena.traceWithin pass depth id := by
  induction depth generalizing id with
  | zero => cases settled
  | succ depth induction => exact arena.traceWithin_succ_congr pass id induction settled

theorem traceWithin_of_le_of_settled {depth deeper : Nat} (id : NodeId) (le : depth ≤ deeper)
    (settled : (arena.traceWithin pass depth id).settled) :
    arena.traceWithin pass deeper id = arena.traceWithin pass depth id := by
  induction le with
  | refl => rfl
  | step le induction =>
      rw [← induction] at settled
      rw [arena.traceWithin_succ_of_settled pass _ id settled, induction]

/-- The nodes of the arena whose trace has settled where one more may lie on top of `depth`. -/
def settledNodes (depth : Nat) : Finset (Fin arena.size) :=
  Finset.univ.filter fun index => (arena.traceWithin pass (depth + 1) (.ofIndex index)).settled

theorem settledNodes_mono : Monotone (arena.settledNodes pass) := by
  intro depth deeper le index member
  rw [settledNodes, Finset.mem_filter] at member ⊢
  obtain ⟨inside, settled⟩ := member
  refine ⟨inside, ?_⟩
  rw [arena.traceWithin_of_le_of_settled pass _ (Nat.succ_le_succ le) settled]
  exact settled

def SettlesOutside : Prop :=
  ∀ id : NodeId, arena.size ≤ id.index → (arena.traceWithin pass 1 id).settled

variable {arena pass}

theorem settled_of_mem_settledNodes {depth deeper : Nat} (outside : arena.SettlesOutside pass)
    (same : arena.settledNodes pass depth = arena.settledNodes pass deeper) (id : NodeId)
    (settled : (arena.traceWithin pass (deeper + 1) id).settled) :
    (arena.traceWithin pass (depth + 1) id).settled := by
  -- An id outside the arena is not counted, but it needs no depth either.
  by_cases inside : id.index < arena.size
  · have member : ⟨id.index, inside⟩ ∈ arena.settledNodes pass deeper := by
      rw [settledNodes, Finset.mem_filter, NodeId.ofIndex_index]
      exact ⟨Finset.mem_univ _, settled⟩
    rw [← same, settledNodes, Finset.mem_filter, NodeId.ofIndex_index] at member
    exact member.2
  · have early := outside id (Nat.not_lt.mp inside)
    rw [arena.traceWithin_of_le_of_settled pass id (Nat.le_add_left 1 depth) early]
    exact early

/-- A level at which no further node settles is the last one at which any does. -/
theorem settledNodes_stable {depth : Nat} (outside : arena.SettlesOutside pass)
    (same : arena.settledNodes pass depth = arena.settledNodes pass (depth + 1)) :
    arena.settledNodes pass (depth + 1) = arena.settledNodes pass (depth + 2) := by
  apply Finset.Subset.antisymm
  · exact arena.settledNodes_mono pass (Nat.le_succ (depth + 1))
  · intro index member
    rw [settledNodes, Finset.mem_filter] at member ⊢
    obtain ⟨inside, settled⟩ := member
    refine ⟨inside, ?_⟩
    have agree : ∀ inner, (arena.traceWithin pass (depth + 2) inner).settled →
        arena.traceWithin pass (depth + 1) inner = arena.traceWithin pass (depth + 2) inner := by
      intro inner settledThere
      have early := settled_of_mem_settledNodes outside same inner settledThere
      exact (arena.traceWithin_succ_of_settled pass _ inner early).symm
    rw [arena.traceWithin_succ_congr pass _ agree settled]
    exact settled

theorem card_settledNodes_stable (outside : arena.SettlesOutside pass) (depth : Nat)
    (same : (arena.settledNodes pass depth).card = (arena.settledNodes pass (depth + 1)).card) :
    (arena.settledNodes pass (depth + 1)).card = (arena.settledNodes pass (depth + 2)).card := by
  have grows := arena.settledNodes_mono pass (Nat.le_succ depth)
  have equal := Finset.eq_of_subset_of_card_le grows (Nat.le_of_eq same.symm)
  rw [settledNodes_stable outside equal]

/-- Whatever settles at all has settled at one level more than there are nodes. -/
theorem traceWithin_size_of_settled (outside : arena.SettlesOutside pass) {depth : Nat}
    (id : NodeId) (settled : (arena.traceWithin pass depth id).settled) :
    arena.traceWithin pass (arena.size + 1) id = arena.traceWithin pass depth id := by
  by_cases shallow : depth ≤ arena.size + 1
  · exact arena.traceWithin_of_le_of_settled pass id shallow settled
  · have deeper : arena.size + 1 ≤ depth := Nat.le_of_not_le shallow
    have level : arena.size ≤ depth := Nat.le_of_succ_le deeper
    -- Levels past the number of nodes add nothing: there is no room for a set to grow further.
    have bounded : ∀ level, (arena.settledNodes pass level).card ≤ arena.size := by
      intro level
      have within := Finset.card_le_univ (arena.settledNodes pass level)
      rwa [Fintype.card_fin] at within
    have sameCard : (arena.settledNodes pass depth).card =
        (arena.settledNodes pass arena.size).card :=
      Nat.stabilises_of_monotone
        (fun _ _ le => Finset.card_le_card (arena.settledNodes_mono pass le)) bounded
        (card_settledNodes_stable outside) level
    have same : arena.settledNodes pass arena.size = arena.settledNodes pass depth :=
      Finset.eq_of_subset_of_card_le (arena.settledNodes_mono pass level) (Nat.le_of_eq sameCard)
    have later : (arena.traceWithin pass (depth + 1) id).settled := by
      rw [arena.traceWithin_succ_of_settled pass depth id settled]
      exact settled
    have early := settled_of_mem_settledNodes outside same id later
    exact (arena.traceWithin_of_le_of_settled pass id deeper early).symm

/-- A walk is its trace at any depth at which this settles. -/
theorem walk_eq_traceWithin (outside : arena.SettlesOutside pass) (depth : Nat) (root : NodeId)
    (settled : (arena.traceStep (arena.traceWithin pass depth) (.child (.node root))).settled) :
    arena.walk pass root =
      arena.traceStep (arena.traceWithin pass depth) (.child (.node root)) := by
  rw [walk_eq_trace]
  exact arena.traceStep_congr_of_settled _ _
    (fun id settledThere => traceWithin_size_of_settled outside id settledThere) _ settled

end Arena

end Unbound
