import Mathlib.Data.List.Nodup
import Unbound.Proofs.Tree.Extent

/-!
# What an arena keeps

As long as 32 bits can count what is stored, no id is given twice, none is that of an absent child,
and what is read through an id or a range is what was stored for it. Nothing else can be read.
-/

set_option autoImplicit false

namespace Unbound

namespace Arena

inductive Call where
  | node (node : Node)
  | list (ids : List NodeId)
deriving DecidableEq, Repr

variable {arena : Arena} {calls : List Call}

def perform (arena : Arena) : Call → Arena
  | .node node => arena.push node
  | .list ids => arena.pushList ids

def performAll (arena : Arena) (calls : List Call) : Arena := calls.foldl perform arena

/-- What a call does where 32 bits might not be enough. -/
def store (arena : Arena) : Call → Except ArenaFull Arena
  | .node node => (arena.alloc node).map Prod.snd
  | .list ids => (arena.allocList ids).map Prod.snd

def nodesGiven (arena : Arena) : List Call → List (NodeId × Node)
  | [] => []
  | .node node :: calls => (arena.nextId, node) :: (arena.push node).nodesGiven calls
  | .list ids :: calls => (arena.pushList ids).nodesGiven calls

def listsGiven (arena : Arena) : List Call → List (NodeRange × List NodeId)
  | [] => []
  | .node node :: calls => (arena.push node).listsGiven calls
  | .list ids :: calls => (arena.nextRange ids, ids) :: (arena.pushList ids).listsGiven calls

def idsGiven (arena : Arena) (calls : List Call) : List NodeId :=
  (arena.listsGiven calls).flatMap Prod.snd

/-! ### One call and all calls -/

theorem performAll_append (arena : Arena) (earlier later : List Call) :
    arena.performAll (earlier ++ later) = (arena.performAll earlier).performAll later :=
  List.foldl_append

theorem extends_perform (arena : Arena) (call : Call) : (arena.perform call).Extends arena := by
  cases call with
  | node node => exact arena.extends_push node
  | list ids => exact arena.extends_pushList ids

theorem extends_performAll (arena : Arena) (calls : List Call) :
    (arena.performAll calls).Extends arena := by
  induction calls generalizing arena with
  | nil => exact arena.extends_refl
  | cons call calls induction =>
      exact (induction (arena.perform call)).trans (arena.extends_perform call)

theorem size_performAll (arena : Arena) (calls : List Call) :
    (arena.performAll calls).size = arena.size + (arena.nodesGiven calls).length := by
  induction calls generalizing arena with
  | nil => rfl
  | cons call calls induction =>
      have further := induction (arena.perform call)
      cases call with
      | node node =>
          rw [perform, size_push] at further
          rw [nodesGiven, List.length_cons, Nat.add_comm _ 1, ← Nat.add_assoc]
          exact further
      | list ids => exact further

/-- The buffer grows by the lists that are stored, and by nothing else. -/
theorem entries_performAll (arena : Arena) (calls : List Call) :
    (arena.performAll calls).entries.toList = arena.entries.toList ++ arena.idsGiven calls := by
  induction calls generalizing arena with
  | nil => exact (List.append_nil _).symm
  | cons call calls induction =>
      have further := induction (arena.perform call)
      cases call with
      | node node => exact further
      | list ids =>
          rw [perform, pushList, Array.toList_append, List.append_assoc] at further
          exact further

theorem lengths_le_of_pushList {ids : List NodeId}
    (fits : (arena.pushList ids).entries.size ≤ maxWord) :
    arena.entries.size ≤ maxWord ∧ ids.length ≤ maxWord := by
  rw [pushList, Array.size_append, List.size_toArray] at fits
  exact ⟨Nat.le_trans (Nat.le_add_right _ _) fits, Nat.le_trans (Nat.le_add_left _ _) fits⟩

/-- Storing goes through as long as 32 bits can count what is stored. -/
theorem foldlM_store (nodesFit : (arena.performAll calls).size ≤ maxWord)
    (entriesFit : (arena.performAll calls).entries.size ≤ maxWord) :
    calls.foldlM store arena = .ok (arena.performAll calls) := by
  induction calls generalizing arena with
  | nil => rfl
  | cons call calls induction =>
      have grown := (arena.perform call).extends_performAll calls
      have stored : arena.store call = .ok (arena.perform call) := by
        rw [store.eq_def, perform.eq_def]
        cases call with
        | node node =>
            have within := Nat.le_trans (arena.extends_perform (.node node)).size
              (Nat.le_trans grown.size nodesFit)
            exact map_eq_ok_iff.mpr ⟨_, alloc_eq_ok_iff.mpr ⟨within, rfl, rfl⟩, rfl⟩
        | list ids =>
            have within := lengths_le_of_pushList (Nat.le_trans grown.entries entriesFit)
            exact map_eq_ok_iff.mpr ⟨_, allocList_eq_ok_iff.mpr ⟨.inr within, rfl, rfl⟩, rfl⟩
      rw [List.foldlM_cons, stored]
      exact induction nodesFit entriesFit

/-! ### Ids -/

theorem indices_nodesGiven (fits : (arena.performAll calls).size ≤ maxWord) :
    (arena.nodesGiven calls).map (fun given => given.1.index) =
      List.range' arena.size (arena.nodesGiven calls).length := by
  induction calls generalizing arena with
  | nil => rfl
  | cons call calls induction =>
      have fitsAfter : ((arena.perform call).performAll calls).size ≤ maxWord := fits
      have further := induction fitsAfter
      cases call with
      | node node =>
          have room : arena.size ≤ maxWord :=
            Nat.le_trans (arena.extends_performAll (.node node :: calls)).size fits
          rw [perform, size_push] at further
          rw [nodesGiven, List.map_cons, List.length_cons, List.range'_succ, further, nextId,
            NodeId.index_ofIndex arena.size room]
      | list ids => exact further

theorem nodup_nodesGiven (fits : (arena.performAll calls).size ≤ maxWord) :
    ((arena.nodesGiven calls).map Prod.fst).Nodup := by
  apply List.Nodup.of_map NodeId.index
  rw [List.map_map]
  exact indices_nodesGiven fits ▸ List.nodup_range'

theorem index_lt_of_mem_nodesGiven {given : NodeId × Node}
    (fits : (arena.performAll calls).size ≤ maxWord) (member : given ∈ arena.nodesGiven calls) :
    given.1.index < (arena.performAll calls).size := by
  have among := List.mem_map_of_mem (f := fun given => given.1.index) member
  rw [indices_nodesGiven fits, List.mem_range'_1] at among
  rw [size_performAll]
  exact among.2

/-! ### Reading back -/

theorem node_of_mem_nodesGiven {given : NodeId × Node}
    (fits : (arena.performAll calls).size ≤ maxWord) (member : given ∈ arena.nodesGiven calls) :
    (arena.performAll calls).node given.1 = .ok given.2 := by
  induction calls generalizing arena with
  | nil => cases member
  | cons call calls induction =>
      have fitsAfter : ((arena.perform call).performAll calls).size ≤ maxWord := fits
      cases call with
      | node node =>
          rcases List.mem_cons.mp member with first | later
          · have room : arena.size ≤ maxWord :=
              Nat.le_trans (arena.extends_performAll (.node node :: calls)).size fits
            have stored := arena.node_push_nextId node room
            rw [first]
            exact ((arena.push node).extends_performAll calls).node _ _ stored
          · exact induction fitsAfter later
      | list ids => exact induction fitsAfter member

theorem list_of_mem_listsGiven {given : NodeRange × List NodeId}
    (fits : (arena.performAll calls).entries.size ≤ maxWord)
    (member : given ∈ arena.listsGiven calls) :
    (arena.performAll calls).list given.1 = .ok given.2 := by
  induction calls generalizing arena with
  | nil => cases member
  | cons call calls induction =>
      have fitsAfter : ((arena.perform call).performAll calls).entries.size ≤ maxWord := fits
      cases call with
      | node node => exact induction fitsAfter member
      | list ids =>
          rcases List.mem_cons.mp member with first | later
          · have grown := (arena.pushList ids).extends_performAll calls
            have stored := arena.list_pushList_nextRange ids
              (.inr (lengths_le_of_pushList (Nat.le_trans grown.entries fits)))
            rw [first]
            exact grown.list _ _ stored
          · exact induction fitsAfter later

theorem range_of_mem_listsGiven {given : NodeRange × List NodeId}
    (member : given ∈ arena.listsGiven calls) (none : given.2 = []) : given.1 = .empty := by
  induction calls generalizing arena with
  | nil => cases member
  | cons call calls induction =>
      cases call with
      | node node => exact induction member
      | list ids =>
          rcases List.mem_cons.mp member with first | later
          · subst first
            change ids = [] at none
            subst none
            rfl
          · exact induction later

theorem exists_node_iff (arena : Arena) (id : NodeId) :
    (∃ node, arena.node id = .ok node) ↔ id.index < arena.size := by
  constructor
  · intro found
    obtain ⟨node, found⟩ := found
    exact (Array.getElem?_eq_some_iff.mp (node_eq_ok_iff.mp found)).choose
  · intro inside
    exact ⟨arena.nodes[id.index], node_eq_ok_iff.mpr (Array.getElem?_eq_getElem inside)⟩

theorem list_performAll_eq_ok_iff {range : NodeRange} {ids : List NodeId} :
    (empty.performAll calls).list range = .ok ids ↔
      range.isEmpty ∧ ids = [] ∨
        ¬ range.isEmpty ∧ range.start.toNat + range.size.toNat ≤ (empty.idsGiven calls).length ∧
          ((empty.idsGiven calls).drop range.start.toNat).take range.size.toNat = ids := by
  have entries : (empty.performAll calls).entries.toList = empty.idsGiven calls :=
    empty.entries_performAll calls
  by_cases none : range.isEmpty
  · rw [list_of_isEmpty _ none]
    simp only [none, Except.ok.injEq, true_and, not_true_eq_false, false_and, or_false]
    exact eq_comm
  · rw [list_eq_ok_iff none, ← Array.length_toList, entries]
    simp only [none, Bool.false_eq_true, false_and, false_or, not_false_eq_true, true_and]

/-- Whatever nodes and lists are stored in an arena, fewer than the largest word of either: each
node has an id of its own, and each id and each range leads to what was stored for it, then and
after any further calls, all of which go through. Apart from the ids below the size and the ranges
that are empty or lie within the lists stored so far, nothing can be read. -/
theorem stored_is_read_back (calls further : List Call)
    (nodesFit : (empty.performAll (calls ++ further)).size < maxWord)
    (entriesFit : (empty.performAll (calls ++ further)).entries.size < maxWord) :
    ((empty.nodesGiven calls).map Prod.fst).Nodup ∧
    (∀ given ∈ empty.nodesGiven calls,
      given.1 ≠ .absent ∧ (empty.performAll (calls ++ further)).node given.1 = .ok given.2) ∧
    (∀ given ∈ empty.listsGiven calls,
      (given.2 = [] → given.1 = .empty) ∧
        (empty.performAll (calls ++ further)).list given.1 = .ok given.2) ∧
    (empty.performAll calls).size = (empty.nodesGiven calls).length ∧
    (∀ id, (∃ node, (empty.performAll calls).node id = .ok node) ↔
      id.index < (empty.performAll calls).size) ∧
    (∀ range ids, (empty.performAll calls).list range = .ok ids ↔
      range.isEmpty ∧ ids = [] ∨
        ¬ range.isEmpty ∧ range.start.toNat + range.size.toNat ≤ (empty.idsGiven calls).length ∧
          ((empty.idsGiven calls).drop range.start.toNat).take range.size.toNat = ids) ∧
    (calls ++ further).foldlM store empty = .ok (empty.performAll (calls ++ further)) := by
  have grown : (empty.performAll (calls ++ further)).Extends (empty.performAll calls) := by
    rw [performAll_append]
    exact extends_performAll _ further
  have nodes : (empty.performAll calls).size < maxWord := Nat.lt_of_le_of_lt grown.size nodesFit
  have entries : (empty.performAll calls).entries.size < maxWord :=
    Nat.lt_of_le_of_lt grown.entries entriesFit
  refine ⟨nodup_nodesGiven (Nat.le_of_lt nodes), ?_, ?_, ?_, exists_node_iff _,
    fun range ids => list_performAll_eq_ok_iff,
    foldlM_store (Nat.le_of_lt nodesFit) (Nat.le_of_lt entriesFit)⟩
  · intro given member
    have index := index_lt_of_mem_nodesGiven (Nat.le_of_lt nodes) member
    constructor
    · intro absent
      rw [absent] at index
      exact absurd (Nat.lt_trans index nodes) (Nat.lt_irrefl maxWord)
    · exact grown.node _ _ (node_of_mem_nodesGiven (Nat.le_of_lt nodes) member)
  · intro given member
    refine ⟨range_of_mem_listsGiven member, ?_⟩
    exact grown.list _ _ (list_of_mem_listsGiven (Nat.le_of_lt entries) member)
  · rw [size_performAll]
    exact Nat.zero_add _

/-- Two nodes and three lists, of which one is empty and one has a hole. -/
def mixedCalls : List Call :=
  [.node ⟨.expression .this, some ⟨0, 4⟩⟩, .list [⟨0⟩, .absent], .list [],
    .node ⟨.statement .empty, none⟩, .list [⟨1⟩]]

theorem stored_is_read_back_of_mixedCalls :
    (empty.performAll (mixedCalls ++ [.list [⟨0⟩]])).size = 2 ∧
    (empty.performAll (mixedCalls ++ [.list [⟨0⟩]])).list ⟨0, 2⟩ = .ok [⟨0⟩, .absent] ∧
    (empty.performAll mixedCalls).list ⟨1, 2⟩ = .ok [.absent, ⟨1⟩] := by
  have nodesFit : (empty.performAll (mixedCalls ++ [.list [⟨0⟩]])).size < maxWord := by decide
  have entriesFit : (empty.performAll (mixedCalls ++ [.list [⟨0⟩]])).entries.size < maxWord := by
    decide
  obtain ⟨_, _, lists, _, _, inside, _⟩ := stored_is_read_back mixedCalls [.list [⟨0⟩]] nodesFit
    entriesFit
  refine ⟨by decide, (lists (⟨0, 2⟩, [⟨0⟩, .absent]) (by decide)).2, ?_⟩
  exact (inside ⟨1, 2⟩ [.absent, ⟨1⟩]).mpr (by decide)

end Arena

end Unbound
