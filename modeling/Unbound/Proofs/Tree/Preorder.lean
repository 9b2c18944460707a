import Unbound.Proofs.Tree.Depth

/-!
# The order of a walk

The landmarks of a node are what a reader meets who goes through the tree below it in preorder:
nodes, ids that lead to none, and lists that cannot be read. The tree may be infinite, so it is
explored down to a given depth. Nothing in this depends on what a visitor refuses, and
`Program.visit` follows the landmarks up to the first one that stops it.
-/

set_option autoImplicit false

namespace Unbound

/-- The values that a constructor may hold, with the parts that each of them contributes. -/
class HasParts (Value : Type) where
  parts : Value → List Child

open HasParts (parts)

instance : HasParts NodeId := ⟨fun id => [.node id]⟩

instance : HasParts NodeRange := ⟨fun range => [.list range]⟩

instance : HasParts Name := ⟨fun _ => []⟩

instance : HasParts Literal := ⟨fun _ => []⟩

instance : HasParts Bool := ⟨fun _ => []⟩

instance : HasParts UnaryOp := ⟨fun _ => []⟩

instance : HasParts UpdateOp := ⟨fun _ => []⟩

instance : HasParts BinaryOp := ⟨fun _ => []⟩

instance : HasParts AssignOp := ⟨fun _ => []⟩

instance : HasParts FunctionForm where
  parts form :=
    match form with
    | .declaration name params body => parts name ++ parts params ++ parts body
    | .expression name params body => parts name ++ parts params ++ parts body
    | .arrow params body => parts params ++ parts body
    | .method key params body => parts key ++ parts params ++ parts body
    | .getter key body => parts key ++ parts body
    | .setter key param body => parts key ++ parts param ++ parts body

instance : HasParts Pattern where
  parts form :=
    match form with
    | .object fields => parts fields
    | .field key element => parts key ++ parts element
    | .array elements => parts elements
    | .withDefault binding initializer => parts binding ++ parts initializer
    | .rest binding => parts binding

instance : HasParts Statement where
  parts form :=
    match form with
    | .block body => parts body
    | .declarations declarators => parts declarators
    | .declarator binding initializer => parts binding ++ parts initializer
    | .expression inner => parts inner
    | .result argument => parts argument
    | .branch test consequent alternate => parts test ++ parts consequent ++ parts alternate
    | .whileLoop test body => parts test ++ parts body
    | .doWhileLoop body test => parts body ++ parts test
    | .forLoop initializer test update body =>
        parts initializer ++ parts test ++ parts update ++ parts body
    | .forInLoop left right body => parts left ++ parts right ++ parts body
    | .selection discriminant cases => parts discriminant ++ parts cases
    | .caseClause test body => parts test ++ parts body
    | .labelled label body => parts label ++ parts body
    | .leave label => parts label
    | .resume label => parts label
    | .throw argument => parts argument
    | .try body handler finalizer => parts body ++ parts handler ++ parts finalizer
    | .empty => []
    | .debugger => []

instance : HasParts Expression where
  parts form :=
    match form with
    | .literal value => parts value
    | .this => []
    | .array elements => parts elements
    | .object properties => parts properties
    | .property key value => parts key ++ parts value
    | .computedProperty key value => parts key ++ parts value
    | .member base property => parts base ++ parts property
    | .computedMember base key => parts base ++ parts key
    | .call callee arguments => parts callee ++ parts arguments
    | .new callee arguments => parts callee ++ parts arguments
    | .unary op operand => parts op ++ parts operand
    | .update op leading operand => parts op ++ parts leading ++ parts operand
    | .binary op left right => parts op ++ parts left ++ parts right
    | .assignment op target value => parts op ++ parts target ++ parts value
    | .conditional test consequent alternate => parts test ++ parts consequent ++ parts alternate
    | .comma items => parts items
    | .paren inner => parts inner
    | .spread argument => parts argument

instance : HasParts Construct where
  parts construct :=
    match construct with
    | .script items => parts items
    | .function form => parts form
    | .functionBody statements => parts statements
    | .catchClause parameter body => parts parameter ++ parts body
    | .binding name => parts name
    | .reference name => parts name
    | .pattern form => parts form
    | .statement form => parts form
    | .expression form => parts form

/-- A walk forgets no field of any construct, and takes them in their order. -/
theorem Construct.children_eq_parts (construct : Construct) :
    construct.children = parts construct := by
  cases construct with
  | function form => cases form <;> rfl
  | pattern form => cases form <;> rfl
  | statement form => cases form <;> rfl
  | expression form => cases form <;> rfl
  | _ => rfl

inductive Landmark where
  | node (id : NodeId) (construct : Construct)
  /-- An id outside the arena. -/
  | missing (id : NodeId)
  /-- A list that reaches outside the buffer. -/
  | unreadable (range : NodeRange)
  /-- A node that lies too deep to be looked at. -/
  | unexplored (id : NodeId)
deriving DecidableEq, Repr

namespace Landmark

/-- Whom a visitor has seen after this place. An id is seen before it is looked up, a list is not
seen itself. -/
def visited : Landmark → List NodeId
  | .node id _ => [id]
  | .missing id => [id]
  | .unreadable _ => []
  | .unexplored _ => []

/-- Why a visitor does not get past this place, if it does not. -/
def stop? (refuses : Construct → Bool) : Landmark → Option (Interruption NodeId)
  | .node id construct => if refuses construct then some (.refused id) else none
  | .missing id => some (.dangling (.node id))
  | .unreadable range => some (.dangling (.list range))
  | .unexplored _ => some .cyclic

def trace (refuses : Construct → Bool) (mark : Landmark) : Trace NodeId NodeId :=
  ⟨mark.visited, mark.stop? refuses⟩

def traceAll (refuses : Construct → Bool) (marks : List Landmark) : Trace NodeId NodeId :=
  .concat (marks.map (trace refuses))

variable {refuses : Construct → Bool}

theorem traceAll_node_of_refused {construct : Construct} (id : NodeId) (marks : List Landmark)
    (refused : refuses construct) :
    traceAll refuses (.node id construct :: marks) = ⟨[id], some (.refused id)⟩ := by
  have broken : (trace refuses (.node id construct)).interruption = some (.refused id) :=
    if_pos refused
  rw [traceAll, List.map_cons, Trace.concat_cons, Trace.append_of_interrupted _ broken]
  exact Trace.ext rfl broken

theorem traceAll_node_of_passed {construct : Construct} (id : NodeId) (marks : List Landmark)
    (passed : ¬ refuses construct) :
    traceAll refuses (.node id construct :: marks) = ⟨[id], none⟩ ++ traceAll refuses marks := by
  have ended : trace refuses (.node id construct) = ⟨[id], none⟩ :=
    Trace.ext rfl (if_neg passed)
  rw [traceAll, List.map_cons, Trace.concat_cons, ended, traceAll]

theorem traceAll_of_passed {marks : List Landmark}
    (passed : ∀ mark ∈ marks, mark.stop? refuses = none) :
    traceAll refuses marks = ⟨marks.flatMap visited, none⟩ := by
  induction marks with
  | nil => rfl
  | cons mark marks induction =>
      have ended : (trace refuses mark).interruption = none := passed mark List.mem_cons_self
      have rest : traceAll refuses marks = ⟨marks.flatMap visited, none⟩ :=
        induction fun other member => passed other (List.mem_cons_of_mem mark member)
      rw [traceAll, List.map_cons, Trace.concat_cons, Trace.append_of_ended _ ended, ← traceAll,
        rest, List.flatMap_cons]
      rfl

theorem traceAll_of_stopped {before after : List Landmark} {mark : Landmark}
    {reason : Interruption NodeId} (passed : ∀ earlier ∈ before, earlier.stop? refuses = none)
    (stopped : mark.stop? refuses = some reason) :
    traceAll refuses (before ++ mark :: after) =
      ⟨(before ++ [mark]).flatMap visited, some reason⟩ := by
  have first : Trace.concat (before.map (trace refuses)) = ⟨before.flatMap visited, none⟩ :=
    traceAll_of_passed passed
  have broken : (trace refuses mark).interruption = some reason := stopped
  rw [traceAll, List.map_append, Trace.concat_append, first, List.map_cons, Trace.concat_cons,
    Trace.append_of_interrupted _ broken, Trace.append_of_ended _ rfl, List.flatMap_append,
    List.flatMap_singleton, trace, stopped]

theorem traceAll_flatMap {Item : Type} (items : List Item) (marks : Item → List Landmark) :
    traceAll refuses (items.flatMap marks) =
      .concat (items.map fun item => traceAll refuses (marks item)) := by
  induction items with
  | nil => rfl
  | cons item items induction =>
      rw [List.flatMap_cons, traceAll, List.map_append, Trace.concat_append,
        ← traceAll, ← traceAll, induction, List.map_cons, Trace.concat_cons]

theorem passed_or_stopped (refuses : Construct → Bool) (marks : List Landmark) :
    (∀ mark ∈ marks, mark.stop? refuses = none) ∨
      ∃ before mark after reason, marks = before ++ mark :: after ∧
        (∀ earlier ∈ before, earlier.stop? refuses = none) ∧ mark.stop? refuses = some reason := by
  induction marks with
  | nil => exact Or.inl nofun
  | cons first marks induction =>
      cases outcome : first.stop? refuses with
      | some reason => exact Or.inr ⟨[], first, marks, reason, rfl, nofun, outcome⟩
      | none =>
          rcases induction with passed | ⟨before, mark, after, reason, same, passed, stopped⟩
          · exact Or.inl (List.forall_mem_cons.mpr ⟨outcome, passed⟩)
          · refine Or.inr ⟨first :: before, mark, after, reason, ?_, ?_, stopped⟩
            · rw [same, List.cons_append]
            · exact List.forall_mem_cons.mpr ⟨outcome, passed⟩

/-- Only places that were not looked at leave it open how the walk goes on. -/
theorem eq_unexplored_of_stop?_eq_cyclic {mark : Landmark}
    (stopped : mark.stop? refuses = some .cyclic) : ∃ id, mark = .unexplored id := by
  cases mark with
  | node id construct =>
      rw [stop?] at stopped
      split at stopped
      case isTrue => cases stopped
      case isFalse => cases stopped
  | missing id => cases stopped
  | unreadable range => cases stopped
  | unexplored id => exact ⟨id, rfl⟩

end Landmark

namespace Arena

/-- The landmarks of a part, where `below` gives those of a node. -/
def partLandmarks (arena : Arena) (below : NodeId → List Landmark) : Child → List Landmark
  | .node id => ([id].filter NodeId.isPresent).flatMap below
  | .list range =>
      match arena.list range with
      | .ok ids => (ids.filter NodeId.isPresent).flatMap below
      | .error _ => [.unreadable range]

/-- The landmarks of a node down to a depth, in preorder. -/
def landmarksWithin (arena : Arena) : Nat → NodeId → List Landmark
  | 0, id => [.unexplored id]
  | depth + 1, id =>
      match arena.node id with
      | .error _ => [.missing id]
      | .ok node =>
          .node id node.construct ::
            (parts node.construct).flatMap (arena.partLandmarks (arena.landmarksWithin depth))

variable {arena : Arena} {refuses : Construct → Bool}

theorem eq_node_of_node_eq_error {id : NodeId} {handle : Dangling}
    (missing : arena.node id = .error handle) : handle = .node id := by
  rw [Arena.node] at missing
  split at missing
  case h_1 => cases missing
  case h_2 => exact (Except.error.inj missing).symm

theorem eq_list_of_list_eq_error {range : NodeRange} {handle : Dangling}
    (missing : arena.list range = .error handle) : handle = .list range := by
  rw [Arena.list] at missing
  split at missing
  case isTrue => cases missing
  case isFalse =>
    dsimp only at missing
    split at missing
    case isTrue => exact (Except.error.inj missing).symm
    case isFalse => cases missing

/-- Absent nodes add nothing to a trace, so they may be left out first. -/
theorem concat_map_child (visit : NodeId → Trace NodeId NodeId) (ids : List NodeId) :
    Trace.concat (ids.map fun id => arena.traceStep visit (.child (.node id))) =
      .concat ((ids.filter NodeId.isPresent).map visit) := by
  induction ids with
  | nil => rfl
  | cons id ids induction =>
      rw [List.map_cons, Trace.concat_cons, induction, traceStep_node]
      by_cases present : id.isPresent
      · rw [if_pos present, List.filter_cons_of_pos present, List.map_cons, Trace.concat_cons]
      · rw [if_neg present, List.filter_cons_of_neg present, Trace.done_append]

theorem traceStep_part {visit : NodeId → Trace NodeId NodeId} {below : NodeId → List Landmark}
    (follows : ∀ id, visit id = Landmark.traceAll refuses (below id)) (part : Child) :
    arena.traceStep visit (.child part) =
      Landmark.traceAll refuses (arena.partLandmarks below part) := by
  have ofIds : ∀ ids : List NodeId,
      Trace.concat (ids.map fun id => arena.traceStep visit (.child (.node id))) =
        Landmark.traceAll refuses ((ids.filter NodeId.isPresent).flatMap below) := by
    intro ids
    rw [concat_map_child, Landmark.traceAll_flatMap, funext follows]
  cases part with
  | node id =>
      have alone := ofIds [id]
      rw [List.map_singleton, Trace.concat_cons, Trace.concat_nil, Trace.append_done] at alone
      exact alone
  | list range =>
      cases found : arena.list range with
      | ok ids =>
          rw [traceStep_list _ _ _ _ found, ofIds, partLandmarks, found]
      | error handle =>
          rw [traceStep_list_dangling _ _ _ _ found, partLandmarks, found,
            eq_list_of_list_eq_error found]
          rfl

theorem traceWithin_preorder (depth : Nat) (id : NodeId) :
    arena.traceWithin (arena.preorder refuses) depth id =
      Landmark.traceAll refuses (arena.landmarksWithin depth id) := by
  induction depth generalizing id with
  | zero => rfl
  | succ depth induction =>
      rw [traceWithin_succ, preorder, landmarksWithin]
      cases found : arena.node id with
      | error handle =>
          rw [eq_node_of_node_eq_error found]
          rfl
      | ok node =>
          dsimp only
          by_cases refused : refuses node.construct
          · rw [if_pos refused, Landmark.traceAll_node_of_refused id _ refused]
            rfl
          · rw [if_neg refused, Landmark.traceAll_node_of_passed id _ refused,
              Landmark.traceAll_flatMap, Construct.children_eq_parts, List.map_cons,
              Trace.concat_cons, List.map_map]
            apply congrArg
            apply congrArg
            apply List.map_congr_left
            intro part _
            exact traceStep_part induction part

theorem settlesOutside_preorder : arena.SettlesOutside (arena.preorder refuses) := by
  intro id outside
  rw [traceWithin_succ, preorder, node_eq_error_of_size_le outside]
  rfl

end Arena

namespace Program

variable (program : Program) (refuses : Construct → Bool)

def landmarks (depth : Nat) : List Landmark :=
  program.arena.partLandmarks (program.arena.landmarksWithin depth) (.node program.root)

variable {program refuses}

/-- The landmarks tell all about a visit, except where it would go deeper than they do. -/
theorem visit_eq_traceAll (depth : Nat)
    (settled : (Landmark.traceAll refuses (program.landmarks depth)).settled) :
    program.visit refuses = Landmark.traceAll refuses (program.landmarks depth) := by
  have follows : program.arena.traceStep
      (program.arena.traceWithin (program.arena.preorder refuses) depth)
      (.child (.node program.root)) = Landmark.traceAll refuses (program.landmarks depth) :=
    Arena.traceStep_part (Arena.traceWithin_preorder depth) _
  rw [← follows] at settled
  rw [visit, Arena.walk_eq_traceWithin Arena.settlesOutside_preorder depth _ settled, follows]

theorem visit_eq_traceAll_size :
    program.visit refuses =
      Landmark.traceAll refuses (program.landmarks (program.arena.size + 1)) := by
  rw [visit, Arena.walk_eq_trace]
  exact Arena.traceStep_part (Arena.traceWithin_preorder _) _

theorem visit_of_passed {depth : Nat}
    (passed : ∀ mark ∈ program.landmarks depth, mark.stop? refuses = none) :
    program.visit refuses = ⟨(program.landmarks depth).flatMap Landmark.visited, none⟩ := by
  have whole := Landmark.traceAll_of_passed passed
  rw [visit_eq_traceAll depth, whole]
  rw [whole]
  rfl

theorem visit_of_stopped {depth : Nat} {before after : List Landmark} {mark : Landmark}
    {reason : Interruption NodeId} (split : program.landmarks depth = before ++ mark :: after)
    (passed : ∀ earlier ∈ before, earlier.stop? refuses = none)
    (stopped : mark.stop? refuses = some reason) (explored : reason ≠ .cyclic) :
    program.visit refuses = ⟨(before ++ [mark]).flatMap Landmark.visited, some reason⟩ := by
  have part : Landmark.traceAll refuses (before ++ mark :: after) =
      ⟨(before ++ [mark]).flatMap Landmark.visited, some reason⟩ :=
    Landmark.traceAll_of_stopped passed stopped
  rw [← split] at part
  rw [visit_eq_traceAll depth, part]
  rw [part, Trace.settled]
  cases reason with
  | dangling handle => rfl
  | refused id => rfl
  | cyclic => exact absurd rfl explored

/-- A visit is cut off only if its landmarks lead ever deeper. -/
theorem visit_interruption_eq_cyclic_iff :
    (program.visit refuses).interruption = some .cyclic ↔
      ∀ depth, ∃ before id after,
        program.landmarks depth = before ++ .unexplored id :: after ∧
          ∀ earlier ∈ before, earlier.stop? refuses = none := by
  constructor
  · intro cyclic depth
    rcases Landmark.passed_or_stopped refuses (program.landmarks depth) with
      passed | ⟨before, mark, after, reason, split, passed, stopped⟩
    · rw [visit_of_passed passed] at cyclic
      cases cyclic
    · by_cases unexplored : reason = .cyclic
      · rw [unexplored] at stopped
        obtain ⟨id, rfl⟩ := Landmark.eq_unexplored_of_stop?_eq_cyclic stopped
        exact ⟨before, id, after, split, passed⟩
      · rw [visit_of_stopped split passed stopped unexplored] at cyclic
        exact absurd (Option.some.inj cyclic) unexplored
  · intro deeper
    obtain ⟨before, id, after, split, passed⟩ := deeper (program.arena.size + 1)
    have stopped : (Landmark.unexplored id).stop? refuses = some .cyclic := rfl
    rw [visit_eq_traceAll_size, split, Landmark.traceAll_of_stopped passed stopped]

/-- A visit goes through the landmarks in order. It sees all of them and ends, or it sees those up
to and including the first that stops it, for the reason that lies there: a refused node, an id that
leads to no node, or a list that cannot be read, which comes after whatever stands below the earlier
fields of its node. Any depth tells this unless what stops the visit lies deeper, and where that is
so at every depth, the visit has no end. -/
theorem visit_follows_landmarks (program : Program) (refuses : Construct → Bool) :
    (∀ depth, (∀ mark ∈ program.landmarks depth, mark.stop? refuses = none) →
      program.visit refuses = ⟨(program.landmarks depth).flatMap Landmark.visited, none⟩) ∧
    (∀ depth before mark after reason, program.landmarks depth = before ++ mark :: after →
      (∀ earlier ∈ before, earlier.stop? refuses = none) → mark.stop? refuses = some reason →
      reason ≠ .cyclic →
      program.visit refuses = ⟨(before ++ [mark]).flatMap Landmark.visited, some reason⟩) ∧
    ((program.visit refuses).interruption = some .cyclic ↔
      ∀ depth, ∃ before id after,
        program.landmarks depth = before ++ .unexplored id :: after ∧
          ∀ earlier ∈ before, earlier.stop? refuses = none) :=
  ⟨fun _ => visit_of_passed,
    fun _ _ _ _ _ => visit_of_stopped,
    visit_interruption_eq_cyclic_iff⟩

/-- A sum of one node with itself, which is what a selection without readable cases chooses by. The
node is a `this` in parentheses. -/
def sharedSum : Program :=
  ⟨⟨#[⟨.expression .this, none⟩, ⟨.expression (.paren ⟨0⟩), none⟩,
      ⟨.expression (.binary .add ⟨1⟩ ⟨1⟩), none⟩, ⟨.statement (.selection ⟨2⟩ ⟨1, 2⟩), none⟩,
      ⟨.script ⟨0, 2⟩, none⟩],
    #[.absent, ⟨3⟩]⟩, ⟨4⟩⟩

theorem visit_of_sharedSum :
    sharedSum.visit (fun _ => false) =
        ⟨[⟨4⟩, ⟨3⟩, ⟨2⟩, ⟨1⟩, ⟨0⟩, ⟨1⟩, ⟨0⟩], some (.dangling (.list ⟨1, 2⟩))⟩ ∧
      sharedSum.visit (· == .expression .this) =
        ⟨[⟨4⟩, ⟨3⟩, ⟨2⟩, ⟨1⟩, ⟨0⟩], some (.refused ⟨0⟩)⟩ ∧
      ({ sharedSum with root := ⟨2⟩ } : Program).visit (fun _ => false) =
        ⟨[⟨2⟩, ⟨1⟩, ⟨0⟩, ⟨1⟩, ⟨0⟩], none⟩ := by
  refine ⟨?_, ?_, ?_⟩
  · exact (visit_follows_landmarks sharedSum _).2.1 5
      ((sharedSum.landmarks 5).take 7) (.unreadable ⟨1, 2⟩) [] _ rfl (by decide) rfl nofun
  · exact (visit_follows_landmarks sharedSum _).2.1 5
      ((sharedSum.landmarks 5).take 4) (.node ⟨0⟩ (.expression .this))
      ((sharedSum.landmarks 5).drop 5) _ rfl (by decide) rfl nofun
  · exact (visit_follows_landmarks { sharedSum with root := ⟨2⟩ } _).1 3 (by decide)

end Program

end Unbound
