import Unbound.Dangling
import Unbound.Tree.Construct

/-!
# The arena

Nodes stand under their index, and all child lists one after the other in a single buffer. Both only
grow. A node can be read below the size of the arena, a list inside the buffer, and an empty list
always. Storing what 32 bits cannot number fails.
-/

set_option autoImplicit false

namespace Unbound

/-- A construct and the place it was written at. Nodes made by a compiler pass have no place. -/
structure Node where
  construct : Construct
  span : Option Span
deriving DecidableEq, Repr

/-- So many nodes, list entries or elements of one list that 32 bits cannot number the next. -/
structure ArenaFull where
  what : String
  count : Nat
deriving DecidableEq, Repr

namespace ArenaFull

def message (failure : ArenaFull) : String :=
  s!"too many {failure.what}: {failure.count} exceeds u32::MAX"

end ArenaFull

structure Arena where
  nodes : Array Node
  entries : Array NodeId
deriving DecidableEq, Repr

namespace Arena

def empty : Arena := ⟨#[], #[]⟩

instance : EmptyCollection Arena := ⟨empty⟩

instance : Inhabited Arena := ⟨empty⟩

def size (arena : Arena) : Nat := arena.nodes.size

def isEmpty (arena : Arena) : Bool := arena.nodes.isEmpty

def nextId (arena : Arena) : NodeId := .ofIndex arena.size

def push (arena : Arena) (node : Node) : Arena :=
  { arena with nodes := arena.nodes.push node }

def nextRange (arena : Arena) (ids : List NodeId) : NodeRange :=
  if ids.isEmpty then .empty
  else ⟨arena.entries.size.toUInt32, ids.length.toUInt32⟩

def pushList (arena : Arena) (ids : List NodeId) : Arena :=
  { arena with entries := arena.entries ++ ids.toArray }

/-- Stores a node and yields its id. -/
def alloc (arena : Arena) (node : Node) : Except ArenaFull (NodeId × Arena) :=
  if maxWord < arena.size then .error ⟨"nodes", arena.size⟩
  else .ok (arena.nextId, arena.push node)

/-- Stores a list and yields its range. An empty one takes no room. -/
def allocList (arena : Arena) (ids : List NodeId) : Except ArenaFull (NodeRange × Arena) :=
  if ids.isEmpty then .ok (.empty, arena)
  else if maxWord < arena.entries.size then
    .error ⟨"node list entries", arena.entries.size⟩
  else if maxWord < ids.length then .error ⟨"list elements", ids.length⟩
  else .ok (arena.nextRange ids, arena.pushList ids)

def node (arena : Arena) (id : NodeId) : Except Dangling Node :=
  match arena.nodes[id.index]? with
  | some node => .ok node
  | none => .error (.node id)

def list (arena : Arena) (range : NodeRange) : Except Dangling (List NodeId) :=
  if range.isEmpty then .ok []
  else
    let start := range.start.toNat
    let stop := start + range.size.toNat
    if arena.entries.size < stop then .error (.list range)
    else .ok (arena.entries.extract start stop).toList

@[simp] theorem size_push (arena : Arena) (node : Node) :
    (arena.push node).size = arena.size + 1 := by
  simp only [size, push, Array.size_push]

theorem alloc_eq_ok_iff {arena after : Arena} {node : Node} {id : NodeId} :
    arena.alloc node = .ok (id, after) ↔
      arena.size ≤ maxWord ∧ id = arena.nextId ∧ after = arena.push node := by
  rw [alloc]
  split
  case isTrue beyond => simp [Nat.not_le.mpr beyond]
  case isFalse within => simp [Nat.not_lt.mp within, eq_comm]

theorem lt_size_of_alloc_eq_error {arena : Arena} {node : Node} {failure : ArenaFull}
    (failed : arena.alloc node = .error failure) : maxWord < arena.size := by
  rw [alloc] at failed
  split at failed
  case isTrue beyond => exact beyond
  case isFalse => cases failed

theorem allocList_eq_ok_iff {arena after : Arena} {ids : List NodeId} {range : NodeRange} :
    arena.allocList ids = .ok (range, after) ↔
      (ids = [] ∨ arena.entries.size ≤ maxWord ∧ ids.length ≤ maxWord) ∧
        range = arena.nextRange ids ∧ after = arena.pushList ids := by
  cases ids with
  | nil =>
      have unchanged : arena.pushList [] = arena := by rw [pushList, Array.append_empty]
      simp [allocList, nextRange, unchanged, eq_comm]
  | cons first rest =>
      have some : ¬ (first :: rest).isEmpty := Bool.false_ne_true
      rw [allocList, if_neg some]
      split
      case isTrue beyond => simp [Nat.not_le.mpr beyond]
      case isFalse within =>
        split
        case isTrue beyond => simp [Nat.not_le.mpr beyond, -List.length_cons]
        case isFalse short =>
          simp [Nat.not_lt.mp within, Nat.not_lt.mp short, eq_comm, -List.length_cons]

theorem lt_of_allocList_eq_error {arena : Arena} {ids : List NodeId} {failure : ArenaFull}
    (failed : arena.allocList ids = .error failure) :
    maxWord < arena.entries.size + ids.length := by
  rw [allocList] at failed
  split at failed
  case isTrue => cases failed
  case isFalse =>
    split at failed
    case isTrue beyond => exact Nat.lt_add_right ids.length beyond
    case isFalse =>
      split at failed
      case isTrue beyond => exact Nat.lt_add_left arena.entries.size beyond
      case isFalse => cases failed

theorem node_eq_ok_iff {arena : Arena} {id : NodeId} {node : Node} :
    arena.node id = .ok node ↔ arena.nodes[id.index]? = some node := by
  unfold Arena.node
  cases arena.nodes[id.index]? <;> simp

theorem node_push_nextId (arena : Arena) (node : Node) (fits : arena.size ≤ maxWord) :
    (arena.push node).node arena.nextId = .ok node := by
  rw [node_eq_ok_iff, nextId, NodeId.index_ofIndex arena.size fits]
  exact Array.getElem?_push_size

theorem node_push {arena : Arena} {id : NodeId} {known : Node} (node : Node)
    (found : arena.node id = .ok known) : (arena.push node).node id = .ok known := by
  rw [node_eq_ok_iff] at *
  have bound : id.index < arena.nodes.size := (Array.getElem?_eq_some_iff.mp found).choose
  change (arena.nodes.push node)[id.index]? = some known
  rw [Array.getElem?_push_lt bound, ← Array.getElem?_eq_getElem bound]
  exact found

theorem list_of_isEmpty (arena : Arena) {range : NodeRange} (none : range.isEmpty) :
    arena.list range = .ok [] := by
  rw [Arena.list, if_pos none]

theorem list_eq_ok_iff {arena : Arena} {range : NodeRange} {ids : List NodeId}
    (some : ¬ range.isEmpty) :
    arena.list range = .ok ids ↔
      range.start.toNat + range.size.toNat ≤ arena.entries.size ∧
        (arena.entries.toList.drop range.start.toNat).take range.size.toNat = ids := by
  rw [Arena.list, if_neg some]
  dsimp only
  rw [Array.toList_extract, List.extract_eq_take_drop, Nat.add_sub_cancel_left]
  split
  case isTrue outside =>
    constructor
    · intro impossible
      cases impossible
    · intro stored
      exact absurd stored.1 (Nat.not_le.mpr outside)
  case isFalse inside =>
    constructor
    · intro same
      exact ⟨Nat.not_lt.mp inside, Except.ok.inj same⟩
    · intro stored
      exact congrArg Except.ok stored.2

theorem list_pushList {arena : Arena} {range : NodeRange} {ids : List NodeId}
    (added : List NodeId) (found : arena.list range = .ok ids) :
    (arena.pushList added).list range = .ok ids := by
  by_cases none : range.isEmpty
  · rw [list_of_isEmpty arena none] at found
    rw [list_of_isEmpty (arena.pushList added) none]
    exact found
  · rw [list_eq_ok_iff none] at *
    obtain ⟨inside, same⟩ := found
    have reaches : range.start.toNat ≤ arena.entries.toList.length := by
      rw [Array.length_toList]
      exact Nat.le_trans (Nat.le_add_right _ _) inside
    have fills : range.size.toNat ≤ (arena.entries.toList.drop range.start.toNat).length := by
      rw [List.length_drop, Array.length_toList]
      omega
    constructor
    · rw [pushList, Array.size_append]
      exact Nat.le_add_right_of_le inside
    · rw [pushList, Array.toList_append, List.drop_append_of_le_length reaches,
        List.take_append_of_le_length fills]
      exact same

theorem list_pushList_nextRange (arena : Arena) (ids : List NodeId)
    (fits : ids = [] ∨ arena.entries.size ≤ maxWord ∧ ids.length ≤ maxWord) :
    (arena.pushList ids).list (arena.nextRange ids) = .ok ids := by
  cases ids with
  | nil => rfl
  | cons first rest =>
      obtain ⟨within, short⟩ := fits.resolve_left (List.cons_ne_nil first rest)
      unfold maxWord at within short
      have start : (arena.nextRange (first :: rest)).start.toNat = arena.entries.size := by
        change arena.entries.size.toUInt32.toNat = arena.entries.size
        rw [Nat.toUInt32_eq, UInt32.toNat_ofNat']
        omega
      have size : (arena.nextRange (first :: rest)).size.toNat = (first :: rest).length := by
        change (first :: rest).length.toUInt32.toNat = (first :: rest).length
        rw [Nat.toUInt32_eq, UInt32.toNat_ofNat']
        omega
      have some : ¬ (arena.nextRange (first :: rest)).isEmpty := by
        intro none
        have zero : (arena.nextRange (first :: rest)).size = 0 := eq_of_beq none
        rw [zero] at size
        cases size
      rw [list_eq_ok_iff some, start, size]
      constructor
      · rw [pushList, Array.size_append, List.size_toArray]
        exact Nat.le_refl _
      · rw [pushList, Array.toList_append, ← Array.length_toList, List.drop_left]
        exact List.take_length

end Arena

structure Program where
  arena : Arena
  root : NodeId
deriving DecidableEq, Repr

end Unbound
