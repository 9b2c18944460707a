import Mathlib.Data.List.Forall2
import Mathlib.Logic.Relation
import Unbound.Proofs.Name.Interning
import Unbound.Tree.Builder

/-!
# Nodes that span their parts

The span goes from the smallest start to the largest end among the places of all parts but those
that are set aside: the parameters of function declarations, function expressions and methods.
-/

set_option autoImplicit false

namespace Unbound

section

variable {Failure First Second : Type} {action : First → Except Failure Second}
  {items : List First} {results : List Second}

theorem mapM_eq_ok_iff :
    items.mapM action = .ok results ↔
      List.Forall₂ (fun item result => action item = .ok result) items results := by
  induction items generalizing results with
  | nil =>
      rw [List.forall₂_nil_left_iff]
      exact ⟨fun done => (Except.ok.inj done).symm, fun none => congrArg Except.ok none.symm⟩
  | cons item items induction =>
      have one : (item :: items).mapM action = (action item).bind fun result =>
          (items.mapM action).map (result :: ·) := by
        rw [List.mapM_cons]
        rfl
      rw [one, bind_eq_ok_iff, List.forall₂_cons_left_iff]
      simp only [map_eq_ok_iff, induction]
      constructor
      · intro done
        obtain ⟨result, first, rest, others, rfl⟩ := done
        exact ⟨result, rest, first, others, rfl⟩
      · intro related
        obtain ⟨result, rest, first, others, rfl⟩ := related
        exact ⟨result, first, rest, others, rfl⟩

theorem exists_mapM_iff :
    (∃ results, items.mapM action = .ok results) ↔
      ∀ item ∈ items, ∃ result, action item = .ok result := by
  simp only [mapM_eq_ok_iff]
  induction items with
  | nil => simp
  | cons item items induction =>
      rw [List.forall_mem_cons, ← induction]
      simp only [List.forall₂_cons_left_iff]
      constructor
      · intro done
        obtain ⟨_, result, rest, first, others, _⟩ := done
        exact ⟨⟨result, first⟩, rest, others⟩
      · intro both
        obtain ⟨⟨result, first⟩, rest, others⟩ := both
        exact ⟨_, result, rest, first, others, rfl⟩

theorem mem_mapM_iff (done : items.mapM action = .ok results) {result : Second} :
    result ∈ results ↔ ∃ item ∈ items, action item = .ok result := by
  rw [mapM_eq_ok_iff] at done
  induction done with
  | nil => simp
  | @cons item first items others found _ induction =>
      rw [List.mem_cons, induction, List.exists_mem_cons_iff, found, Except.ok.injEq, eq_comm]

end

namespace Span

variable {outer inner : Span}

def Covers (outer inner : Span) : Prop := outer.start ≤ inner.start ∧ inner.stop ≤ outer.stop

theorem covers_refl (span : Span) : span.Covers span := ⟨UInt32.le_refl _, UInt32.le_refl _⟩

theorem Covers.trans {innermost : Span} (first : outer.Covers inner)
    (second : inner.Covers innermost) : outer.Covers innermost :=
  ⟨UInt32.le_trans first.1 second.1, UInt32.le_trans second.2 first.2⟩

theorem stop_merge (left right : Span) :
    (left.merge right).stop = if left.stop ≤ right.stop then right.stop else left.stop := rfl

theorem covers_merge_left (left right : Span) : (left.merge right).Covers left := by
  refine ⟨Std.min_le_left, ?_⟩
  rw [stop_merge]
  split
  case isTrue le => exact le
  case isFalse => exact UInt32.le_refl _

theorem covers_merge_right (left right : Span) : (left.merge right).Covers right := by
  refine ⟨Std.min_le_right, ?_⟩
  rw [stop_merge]
  split
  case isTrue => exact UInt32.le_refl _
  case isFalse less => exact UInt32.le_of_lt (UInt32.not_le.mp less)

structure Encloses (span : Span) (places : List Span) : Prop where
  covers : ∀ place ∈ places, span.Covers place
  start : ∃ place ∈ places, place.start = span.start
  stop : ∃ place ∈ places, place.stop = span.stop

/-- There is a span if there are places, and it encloses them. -/
def Bounds (places : List Span) : Option Span → Prop
  | none => places = []
  | some span => span.Encloses places

theorem encloses_singleton (span : Span) : span.Encloses [span] where
  covers place member := by
    rw [List.mem_singleton.mp member]
    exact covers_refl span
  start := ⟨span, List.mem_singleton_self span, rfl⟩
  stop := ⟨span, List.mem_singleton_self span, rfl⟩

/-- Two places may be merged first. -/
theorem Encloses.of_merge {span left right : Span} {places : List Span}
    (encloses : span.Encloses (left.merge right :: places)) :
    span.Encloses (left :: right :: places) := by
  obtain ⟨covers, start, stop⟩ := encloses
  obtain ⟨merged, others⟩ := List.forall_mem_cons.mp covers
  rw [List.exists_mem_cons_iff] at start stop
  constructor
  · rw [List.forall_mem_cons, List.forall_mem_cons]
    exact ⟨merged.trans (covers_merge_left left right),
      merged.trans (covers_merge_right left right), others⟩
  · rw [List.exists_mem_cons_iff, List.exists_mem_cons_iff]
    rcases start with first | later
    · have either :
          (left.merge right).start = left.start ∨ (left.merge right).start = right.start :=
        Std.min_eq_or
      rcases either with same | same
      · exact .inl (same.symm.trans first)
      · exact .inr (.inl (same.symm.trans first))
    · exact .inr (.inr later)
  · rw [List.exists_mem_cons_iff, List.exists_mem_cons_iff]
    rcases stop with first | later
    · rw [stop_merge] at first
      split at first
      case isTrue => exact .inr (.inl first)
      case isFalse => exact .inl first
    · exact .inr (.inr later)

theorem encloses_foldl_merge (span : Span) (spans : List Span) :
    (spans.foldl merge span).Encloses (span :: spans) := by
  induction spans generalizing span with
  | nil => exact encloses_singleton span
  | cons next spans induction => exact (induction (span.merge next)).of_merge

theorem bounds_hull (places : List Span) : Bounds places (hull places) := by
  cases places with
  | nil => rfl
  | cons span spans => exact encloses_foldl_merge span spans

theorem Bounds.exists_covers {places : List Span} {span : Option Span} {place : Span}
    (bounds : Bounds places span) (member : place ∈ places) :
    ∃ found, span = some found ∧ found.Covers place := by
  cases span with
  | none =>
      rw [show places = [] from bounds] at member
      cases member
  | some found => exact ⟨found, rfl, bounds.covers place member⟩

/-- More places have the same bounds exactly if these cover the others. -/
theorem Bounds.of_more_iff {places more apart : List Span} {span : Option Span}
    (bounds : Bounds places span) (all : ∀ place, place ∈ more ↔ place ∈ places ∨ place ∈ apart) :
    Bounds more span ↔ ∀ place ∈ apart, ∃ found, span = some found ∧ found.Covers place := by
  constructor
  · intro wide place member
    exact wide.exists_covers ((all place).mpr (.inr member))
  · intro covered
    cases span with
    | none =>
        apply List.eq_nil_iff_forall_not_mem.mpr
        intro place member
        rcases (all place).mp member with known | other
        · rw [show places = [] from bounds] at known
          cases known
        · obtain ⟨_, absent, _⟩ := covered place other
          cases absent
    | some span =>
        obtain ⟨covers, ⟨first, firstMember, start⟩, ⟨last, lastMember, stop⟩⟩ := bounds
        refine ⟨?_, ⟨first, (all first).mpr (.inl firstMember), start⟩,
          ⟨last, (all last).mpr (.inl lastMember), stop⟩⟩
        intro place member
        rcases (all place).mp member with known | other
        · exact covers place known
        · obtain ⟨found, same, inside⟩ := covered place other
          cases same
          exact inside

end Span

namespace Construct

def covered : Construct → List Child
  | .function (.declaration name _ body) => [.node name, .node body]
  | .function (.expression name _ body) => [.node name, .node body]
  | .function (.method _ _ body) => [.node body]
  | construct => construct.children

/-- The parts that it leaves out. -/
def setAside : Construct → List Child
  | .function (.declaration _ params _) => [.list params]
  | .function (.expression _ params _) => [.list params]
  | .function (.method _ params _) => [.list params]
  | _ => []

theorem mem_children_iff (construct : Construct) (part : Child) :
    part ∈ construct.children ↔ part ∈ construct.covered ∨ part ∈ construct.setAside := by
  cases construct with
  | function form =>
      cases form with
      | declaration name params body => simp [children, FunctionForm.children, covered, setAside,
          or_left_comm, or_comm]
      | expression name params body => simp [children, FunctionForm.children, covered, setAside,
          or_left_comm, or_comm]
      | method key params body => simp [children, FunctionForm.children, covered, setAside,
          or_comm]
      | _ => simp [covered, setAside]
  | _ => simp [covered, setAside]

theorem children_ne_nil {construct : Construct} (parts : construct.covered ≠ []) :
    construct.children ≠ [] := by
  obtain ⟨part, member⟩ := List.exists_mem_of_ne_nil _ parts
  exact List.ne_nil_of_mem ((construct.mem_children_iff part).mpr (.inl member))

end Construct

namespace Arena

variable {arena after last : Arena}

def read (arena : Arena) : Child → Except Dangling (List NodeId)
  | .node id => .ok [id]
  | .list range => arena.list range

/-- The ids that some parts lead to, in their order. -/
def partIds (arena : Arena) (parts : List Child) : Except Dangling (List NodeId) := do
  return (← parts.mapM arena.read).flatten

def placesOf (arena : Arena) (ids : List NodeId) : Except Dangling (List Span) := do
  return (← (ids.filter NodeId.isPresent).mapM arena.node).filterMap Node.span

def places (arena : Arena) (parts : List Child) : Except Dangling (List Span) := do
  arena.placesOf (← arena.partIds parts)

section

variable {parts : List Child} {ids : List NodeId} {found : List Span}

theorem partIds_eq_ok_iff :
    arena.partIds parts = .ok ids ↔
      ∃ lists, parts.mapM arena.read = .ok lists ∧ lists.flatten = ids :=
  map_eq_ok_iff

theorem placesOf_eq_ok_iff :
    arena.placesOf ids = .ok found ↔
      ∃ nodes, (ids.filter NodeId.isPresent).mapM arena.node = .ok nodes ∧
        nodes.filterMap Node.span = found :=
  map_eq_ok_iff

theorem places_eq_ok_iff :
    arena.places parts = .ok found ↔
      ∃ ids, arena.partIds parts = .ok ids ∧ arena.placesOf ids = .ok found :=
  bind_eq_ok_iff

theorem cover_eq_ok_iff {span : Option Span} :
    arena.cover ids = .ok span ↔
      ∃ found, arena.placesOf ids = .ok found ∧ Span.hull found = span := by
  have shape : arena.cover ids = (arena.placesOf ids).map Span.hull := by
    rw [cover, placesOf]
    cases (ids.filter NodeId.isPresent).mapM arena.node with
    | error failure => rfl
    | ok nodes => rfl
  rw [shape, map_eq_ok_iff]

theorem exists_partIds_iff :
    (∃ ids, arena.partIds parts = .ok ids) ↔ ∀ part ∈ parts, ∃ ids, arena.read part = .ok ids := by
  rw [← exists_mapM_iff]
  constructor
  · intro done
    obtain ⟨ids, done⟩ := done
    obtain ⟨lists, done, _⟩ := partIds_eq_ok_iff.mp done
    exact ⟨lists, done⟩
  · intro done
    obtain ⟨lists, done⟩ := done
    exact ⟨_, partIds_eq_ok_iff.mpr ⟨lists, done, rfl⟩⟩

theorem mem_partIds_iff (done : arena.partIds parts = .ok ids) {id : NodeId} :
    id ∈ ids ↔ ∃ part ∈ parts, ∃ listed, arena.read part = .ok listed ∧ id ∈ listed := by
  obtain ⟨lists, mapped, rfl⟩ := partIds_eq_ok_iff.mp done
  rw [List.mem_flatten]
  simp only [mem_mapM_iff mapped]
  constructor
  · intro found
    obtain ⟨listed, ⟨part, member, same⟩, inside⟩ := found
    exact ⟨part, member, listed, same, inside⟩
  · intro found
    obtain ⟨part, member, listed, same, inside⟩ := found
    exact ⟨listed, ⟨part, member, same⟩, inside⟩

theorem exists_placesOf_iff :
    (∃ found, arena.placesOf ids = .ok found) ↔
      ∀ id ∈ ids, id.isPresent → ∃ node, arena.node id = .ok node := by
  have present : (∀ id ∈ ids.filter NodeId.isPresent, ∃ node, arena.node id = .ok node) ↔
      ∀ id ∈ ids, id.isPresent → ∃ node, arena.node id = .ok node := by
    simp only [List.mem_filter, and_imp]
  rw [← present, ← exists_mapM_iff]
  constructor
  · intro done
    obtain ⟨found, done⟩ := done
    obtain ⟨nodes, done, _⟩ := placesOf_eq_ok_iff.mp done
    exact ⟨nodes, done⟩
  · intro done
    obtain ⟨nodes, done⟩ := done
    exact ⟨_, placesOf_eq_ok_iff.mpr ⟨nodes, done, rfl⟩⟩

theorem mem_placesOf_iff (done : arena.placesOf ids = .ok found) {place : Span} :
    place ∈ found ↔
      ∃ id ∈ ids, id.isPresent ∧ ∃ node, arena.node id = .ok node ∧ node.span = some place := by
  obtain ⟨nodes, mapped, rfl⟩ := placesOf_eq_ok_iff.mp done
  rw [List.mem_filterMap]
  simp only [mem_mapM_iff mapped, List.mem_filter]
  constructor
  · intro located
    obtain ⟨node, ⟨id, ⟨member, present⟩, same⟩, located⟩ := located
    exact ⟨id, member, present, node, same, located⟩
  · intro located
    obtain ⟨id, member, present, node, same, located⟩ := located
    exact ⟨node, ⟨id, ⟨member, present⟩, same⟩, located⟩

theorem partIds_cons_of_read {part : Child} {listed : List NodeId}
    (first : arena.read part = .ok listed) (rest : arena.partIds parts = .ok ids) :
    arena.partIds (part :: parts) = .ok (listed ++ ids) := by
  obtain ⟨lists, mapped, rfl⟩ := partIds_eq_ok_iff.mp rest
  rw [partIds_eq_ok_iff]
  refine ⟨listed :: lists, ?_, List.flatten_cons⟩
  rw [mapM_eq_ok_iff] at mapped ⊢
  exact .cons first mapped

theorem partIds_map_node (ids : List NodeId) : arena.partIds (ids.map .node) = .ok ids := by
  induction ids with
  | nil => rfl
  | cons id ids induction =>
      have first : arena.read (.node id) = .ok [id] := rfl
      exact partIds_cons_of_read first induction

theorem partIds_list {range : NodeRange} (found : arena.list range = .ok ids) :
    arena.partIds [.list range] = .ok ids := by
  have read : arena.read (.list range) = .ok ids := found
  have none : arena.partIds [] = .ok [] := rfl
  rw [partIds_cons_of_read read none, List.append_nil]

end

/-! ### The span of a node -/

/-- All parts of the node can be read. Its span bounds the places of the parts that are not set
aside, and bounds those of all parts exactly if it covers the others. -/
structure Spans (arena : Arena) (node : Node) : Prop where
  covered : ∃ found, arena.places node.construct.covered = .ok found ∧ Span.Bounds found node.span
  children : ∃ found apart, arena.places node.construct.children = .ok found ∧
    arena.places node.construct.setAside = .ok apart ∧
    (Span.Bounds found node.span ↔
      ∀ place ∈ apart, ∃ span, node.span = some span ∧ span.Covers place)

theorem exists_places_children {construct : Construct} {found apart : List Span}
    (covered : arena.places construct.covered = .ok found)
    (setAside : arena.places construct.setAside = .ok apart) :
    ∃ all, arena.places construct.children = .ok all ∧
      ∀ place, place ∈ all ↔ place ∈ found ∨ place ∈ apart := by
  obtain ⟨coveredIds, readCovered, located⟩ := places_eq_ok_iff.mp covered
  obtain ⟨apartIds, readApart, locatedApart⟩ := places_eq_ok_iff.mp setAside
  have readable : ∃ ids, arena.partIds construct.children = .ok ids := by
    rw [exists_partIds_iff]
    intro part member
    rcases (construct.mem_children_iff part).mp member with known | other
    · exact exists_partIds_iff.mp ⟨coveredIds, readCovered⟩ part known
    · exact exists_partIds_iff.mp ⟨apartIds, readApart⟩ part other
  obtain ⟨ids, read⟩ := readable
  have either : ∀ id, id ∈ ids ↔ id ∈ coveredIds ∨ id ∈ apartIds := by
    intro id
    rw [mem_partIds_iff read, mem_partIds_iff readCovered, mem_partIds_iff readApart]
    simp only [construct.mem_children_iff, or_and_right, exists_or]
  have placed : ∃ all, arena.placesOf ids = .ok all := by
    rw [exists_placesOf_iff]
    intro id member
    rcases (either id).mp member with known | other
    · exact exists_placesOf_iff.mp ⟨found, located⟩ id known
    · exact exists_placesOf_iff.mp ⟨apart, locatedApart⟩ id other
  obtain ⟨all, placed⟩ := placed
  refine ⟨all, places_eq_ok_iff.mpr ⟨ids, read, placed⟩, ?_⟩
  intro place
  rw [mem_placesOf_iff placed, mem_placesOf_iff located, mem_placesOf_iff locatedApart]
  simp only [either, or_and_right, exists_or]

theorem Spans.of_hull {node : Node} {found apart : List Span}
    (covered : arena.places node.construct.covered = .ok found)
    (span : Span.hull found = node.span)
    (setAside : arena.places node.construct.setAside = .ok apart) : arena.Spans node := by
  have bounds : Span.Bounds found node.span := by
    rw [← span]
    exact Span.bounds_hull found
  obtain ⟨all, children, either⟩ := exists_places_children covered setAside
  exact ⟨⟨found, covered, bounds⟩, all, apart, children, setAside, bounds.of_more_iff either⟩

/-! ### Growth -/

structure Extends (after before : Arena) : Prop where
  size : before.size ≤ after.size
  entries : before.entries.size ≤ after.entries.size
  node : ∀ id known, before.node id = .ok known → after.node id = .ok known
  list : ∀ range ids, before.list range = .ok ids → after.list range = .ok ids

theorem extends_refl (arena : Arena) : arena.Extends arena :=
  ⟨Nat.le_refl _, Nat.le_refl _, fun _ _ found => found, fun _ _ found => found⟩

theorem Extends.trans (later : last.Extends after) (earlier : after.Extends arena) :
    last.Extends arena where
  size := Nat.le_trans earlier.size later.size
  entries := Nat.le_trans earlier.entries later.entries
  node id known found := later.node id known (earlier.node id known found)
  list range ids found := later.list range ids (earlier.list range ids found)

theorem extends_push (arena : Arena) (node : Node) : (arena.push node).Extends arena where
  size := by
    rw [size_push]
    exact Nat.le_succ _
  entries := Nat.le_refl _
  node _ _ found := node_push node found
  list _ _ found := found

theorem extends_pushList (arena : Arena) (ids : List NodeId) :
    (arena.pushList ids).Extends arena where
  size := Nat.le_refl _
  entries := by
    rw [pushList, Array.size_append]
    exact Nat.le_add_right _ _
  node _ _ found := found
  list _ _ found := list_pushList ids found

theorem Extends.read {part : Child} {ids : List NodeId} (grown : after.Extends arena)
    (found : arena.read part = .ok ids) : after.read part = .ok ids := by
  cases part with
  | node id => exact found
  | list range => exact grown.list range ids found

theorem Extends.places {parts : List Child} {found : List Span} (grown : after.Extends arena)
    (done : arena.places parts = .ok found) : after.places parts = .ok found := by
  obtain ⟨ids, parted, placed⟩ := places_eq_ok_iff.mp done
  obtain ⟨lists, read, rfl⟩ := partIds_eq_ok_iff.mp parted
  obtain ⟨nodes, located, rfl⟩ := placesOf_eq_ok_iff.mp placed
  rw [mapM_eq_ok_iff] at read located
  have readAfter : parts.mapM after.read = .ok lists :=
    mapM_eq_ok_iff.mpr (read.imp fun _ _ same => grown.read same)
  have locatedAfter : (lists.flatten.filter NodeId.isPresent).mapM after.node = .ok nodes :=
    mapM_eq_ok_iff.mpr (located.imp fun id node same => grown.node id node same)
  exact places_eq_ok_iff.mpr ⟨_, partIds_eq_ok_iff.mpr ⟨lists, readAfter, rfl⟩,
    placesOf_eq_ok_iff.mpr ⟨nodes, locatedAfter, rfl⟩⟩

theorem Extends.spans {node : Node} (grown : after.Extends arena) (spans : arena.Spans node) :
    after.Spans node := by
  obtain ⟨⟨found, covered, bounds⟩, all, apart, children, setAside, same⟩ := spans
  exact ⟨⟨found, grown.places covered, bounds⟩, all, apart, grown.places children,
    grown.places setAside, same⟩

/-- What is asked of the nodes from `start` on. Leaves have the span that they were given. -/
def SpansFrom (arena : Arena) (start : Nat) : Prop :=
  ∀ index node, start ≤ index → arena.nodes[index]? = some node →
    node.construct.children ≠ [] → arena.Spans node

theorem SpansFrom.pushList {start : Nat} (spans : arena.SpansFrom start)
    (ids : List NodeId) : (arena.pushList ids).SpansFrom start := by
  intro index node later stored parts
  exact (arena.extends_pushList ids).spans (spans index node later stored parts)

theorem SpansFrom.push {start : Nat} {node : Node} (spans : arena.SpansFrom start)
    (added : node.construct.children ≠ [] → arena.Spans node) :
    (arena.push node).SpansFrom start := by
  intro index other later stored parts
  apply (arena.extends_push node).spans
  change (arena.nodes.push node)[index]? = some other at stored
  rw [Array.getElem?_push] at stored
  split at stored
  case isTrue =>
    cases stored
    exact added parts
  case isFalse => exact spans index other later stored parts

theorem spansFrom_size (arena : Arena) : arena.SpansFrom arena.size := by
  intro index node later stored
  obtain ⟨inside, _⟩ := Array.getElem?_eq_some_iff.mp stored
  exact absurd inside (Nat.not_lt.mpr later)

/-! ### Parts of parts -/

def HasPart (arena : Arena) (select : Construct → List Child) (id part : NodeId) : Prop :=
  part.isPresent ∧ ∃ node ids, arena.node id = .ok node ∧
    arena.partIds (select node.construct) = .ok ids ∧ part ∈ ids

/-- Nodes cover the located ones below them that are reached through certain parts. -/
def CoversBelow (arena : Arena) (select : Construct → List Child) : Prop :=
  ∀ top id, Relation.TransGen (arena.HasPart select) top id →
    ∀ below place, arena.node id = .ok below → below.span = some place →
      ∃ above span, arena.node top = .ok above ∧ above.span = some span ∧ span.Covers place

/-- It is enough that each node covers such parts of its own: a node in between has a span if one
below it has. -/
theorem coversBelow_of_parts {select : Construct → List Child}
    (covers : ∀ id node, arena.node id = .ok node → select node.construct ≠ [] →
      ∃ found, arena.places (select node.construct) = .ok found ∧
        ∀ place ∈ found, ∃ span, node.span = some span ∧ span.Covers place) :
    arena.CoversBelow select := by
  have direct : ∀ id part, arena.HasPart select id part → ∀ below place,
      arena.node part = .ok below → below.span = some place →
      ∃ node span, arena.node id = .ok node ∧ node.span = some span ∧ span.Covers place := by
    intro id part has below place found located
    obtain ⟨present, node, ids, known, read, member⟩ := has
    have parts : select node.construct ≠ [] := by
      intro none
      rw [none] at read
      cases read
      cases member
    obtain ⟨places, done, around⟩ := covers id node known parts
    obtain ⟨other, again, placed⟩ := places_eq_ok_iff.mp done
    rw [read] at again
    cases again
    have among := (mem_placesOf_iff placed).mpr ⟨part, member, present, below, found, located⟩
    obtain ⟨span, own, inside⟩ := around place among
    exact ⟨node, span, known, own, inside⟩
  -- Along the chain downwards: its last step gives a span to the node that the others lead to.
  intro top id inside
  induction inside with
  | single step => exact direct _ _ step
  | tail _ step induction =>
      intro below place found located
      obtain ⟨middle, span, known, own, around⟩ := direct _ _ step below place found located
      obtain ⟨above, outer, foundTop, whole, wider⟩ := induction middle span known own
      exact ⟨above, outer, foundTop, whole, wider.trans around⟩

theorem SpansFrom.spans {id : NodeId} {node : Node} (all : arena.SpansFrom 0)
    (found : arena.node id = .ok node) (parts : node.construct.children ≠ []) :
    arena.Spans node :=
  all id.index node (Nat.zero_le _) (node_eq_ok_iff.mp found) parts

theorem SpansFrom.coversBelow_covered (all : arena.SpansFrom 0) :
    arena.CoversBelow Construct.covered := by
  apply coversBelow_of_parts
  intro id node found parts
  have spans := all.spans found (Construct.children_ne_nil parts)
  obtain ⟨places, read, bounds⟩ := spans.covered
  exact ⟨places, read, fun place member => bounds.exists_covers member⟩

theorem SpansFrom.coversBelow_children (all : arena.SpansFrom 0)
    (around : ∀ node ∈ arena.nodes, ∀ apart, arena.places node.construct.setAside = .ok apart →
      ∀ place ∈ apart, ∃ span, node.span = some span ∧ span.Covers place) :
    arena.CoversBelow Construct.children := by
  apply coversBelow_of_parts
  intro id node found parts
  obtain ⟨places, apart, read, setAside, whole⟩ := (all.spans found parts).children
  have member : node ∈ arena.nodes := Array.mem_of_getElem? (node_eq_ok_iff.mp found)
  have bounds := whole.mpr (around node member apart setAside)
  exact ⟨places, read, fun place member => bounds.exists_covers member⟩

end Arena

end Unbound
