import Unbound.Tree.Arena

/-!
# Walking a tree

A pass says for each node which steps to take there: report an event, go on to a part, or give up.
`Arena.traceWithin` is the meaning of a walk, by recursion on how many nodes may still lie on top of
each other. `Arena.walk` computes it with a list of the steps that are still to be taken, so that
deep trees need no deep recursion.

A path longer than the number of nodes, with one more for an id that leads nowhere, runs in a cycle;
the walk is then interrupted as `cyclic`.
-/

set_option autoImplicit false

namespace Unbound

inductive Step (Event Refusal : Type) where
  | emit (event : Event)
  | child (part : Child)
  | refuse (refusal : Refusal)
  | dangle (handle : Dangling)

abbrev Pass (Event Refusal : Type) := NodeId → List (Step Event Refusal)

inductive Interruption (Refusal : Type) where
  | dangling (handle : Dangling)
  | cyclic
  | refused (refusal : Refusal)
deriving DecidableEq, Repr

@[ext] structure Trace (Event Refusal : Type) where
  events : List Event
  interruption : Option (Interruption Refusal)
deriving DecidableEq, Repr

namespace Trace

variable {Event Refusal : Type}

def done : Trace Event Refusal := ⟨[], none⟩

def interrupted (interruption : Interruption Refusal) : Trace Event Refusal :=
  ⟨[], some interruption⟩

/-- One trace after the other. Nothing comes after an interruption. -/
def append (first second : Trace Event Refusal) : Trace Event Refusal :=
  match first.interruption with
  | none => ⟨first.events ++ second.events, second.interruption⟩
  | some _ => first

instance : Append (Trace Event Refusal) := ⟨append⟩

def concat (traces : List (Trace Event Refusal)) : Trace Event Refusal := traces.foldr append done

@[simp] theorem events_interrupted (interruption : Interruption Refusal) :
    (interrupted interruption : Trace Event Refusal).events = [] := rfl

@[simp] theorem interruption_interrupted (interruption : Interruption Refusal) :
    (interrupted interruption : Trace Event Refusal).interruption = some interruption := rfl

@[simp] theorem done_append (trace : Trace Event Refusal) : done ++ trace = trace := rfl

@[simp] theorem append_done (trace : Trace Event Refusal) : trace ++ done = trace := by
  obtain ⟨events, interruption⟩ := trace
  cases interruption with
  | none => exact Trace.ext (List.append_nil events) rfl
  | some interruption => rfl

@[simp] theorem interrupted_append (interruption : Interruption Refusal)
    (trace : Trace Event Refusal) :
    interrupted interruption ++ trace = interrupted interruption := rfl

@[simp] theorem events_emitted_append (events : List Event) (trace : Trace Event Refusal) :
    (⟨events, none⟩ : Trace Event Refusal) ++ trace =
      ⟨events ++ trace.events, trace.interruption⟩ := rfl

theorem append_assoc (first second third : Trace Event Refusal) :
    first ++ second ++ third = first ++ (second ++ third) := by
  obtain ⟨events, interruption⟩ := first
  cases interruption with
  | some interruption => rfl
  | none =>
      obtain ⟨later, second⟩ := second
      cases second with
      | some interruption => rfl
      | none => exact Trace.ext (List.append_assoc events later third.events) rfl

@[simp] theorem concat_nil : concat ([] : List (Trace Event Refusal)) = done := rfl

@[simp] theorem concat_cons (trace : Trace Event Refusal) (traces : List (Trace Event Refusal)) :
    concat (trace :: traces) = trace ++ concat traces := rfl

@[simp] theorem concat_append (first second : List (Trace Event Refusal)) :
    concat (first ++ second) = concat first ++ concat second := by
  induction first with
  | nil => rfl
  | cons trace first induction => rw [List.cons_append, concat_cons, induction, concat_cons,
      append_assoc]

end Trace

namespace Arena

variable {Event Refusal : Type}

/-- The trace of one step, where `visit` is what happens at a node. -/
def traceStep (arena : Arena) (visit : NodeId → Trace Event Refusal) :
    Step Event Refusal → Trace Event Refusal
  | .emit event => ⟨[event], none⟩
  | .refuse refusal => .interrupted (.refused refusal)
  | .dangle handle => .interrupted (.dangling handle)
  | .child (.node id) => if id.isPresent then visit id else .done
  | .child (.list range) =>
      match arena.list range with
      | .error handle => .interrupted (.dangling handle)
      | .ok ids => .concat (ids.map fun id => if id.isPresent then visit id else .done)

theorem traceStep_emit (arena : Arena) (visit : NodeId → Trace Event Refusal) (event : Event) :
    arena.traceStep visit (.emit event) = ⟨[event], none⟩ := rfl

theorem traceStep_refuse (arena : Arena) (visit : NodeId → Trace Event Refusal)
    (refusal : Refusal) :
    arena.traceStep visit (.refuse refusal) = .interrupted (.refused refusal) := rfl

theorem traceStep_dangle (arena : Arena) (visit : NodeId → Trace Event Refusal)
    (handle : Dangling) :
    arena.traceStep visit (.dangle handle) = .interrupted (.dangling handle) := rfl

theorem traceStep_node (arena : Arena) (visit : NodeId → Trace Event Refusal) (id : NodeId) :
    arena.traceStep visit (.child (.node id)) = if id.isPresent then visit id else .done := rfl

theorem traceStep_list (arena : Arena) (visit : NodeId → Trace Event Refusal)
    (range : NodeRange) (ids : List NodeId) (found : arena.list range = .ok ids) :
    arena.traceStep visit (.child (.list range)) =
      .concat (ids.map fun id => arena.traceStep visit (.child (.node id))) := by
  simp only [traceStep, found]

theorem traceStep_list_dangling (arena : Arena) (visit : NodeId → Trace Event Refusal)
    (range : NodeRange) (handle : Dangling) (found : arena.list range = .error handle) :
    arena.traceStep visit (.child (.list range)) = .interrupted (.dangling handle) := by
  simp only [traceStep, found]

/-- The trace of a pass at a node that may have up to `depth` nodes on top of each other. -/
def traceWithin (arena : Arena) (pass : Pass Event Refusal) : Nat → NodeId → Trace Event Refusal
  | 0, _ => .interrupted .cyclic
  | depth + 1, id => .concat ((pass id).map (arena.traceStep (arena.traceWithin pass depth)))

/-- A step that is still to be taken, and how many nodes may lie on top of each other there. -/
structure Pending (Event Refusal : Type) where
  depth : Nat
  step : Step Event Refusal

namespace Pending

def totalTurns {Item : Type} (count : Item → Nat) : List Item → Nat
  | [] => 0
  | item :: items => count item + totalTurns count items

@[simp] theorem totalTurns_nil {Item : Type} (count : Item → Nat) : totalTurns count [] = 0 := rfl

@[simp] theorem totalTurns_cons {Item : Type} (count : Item → Nat) (item : Item)
    (items : List Item) :
    totalTurns count (item :: items) = count item + totalTurns count items := rfl

@[simp] theorem totalTurns_append {Item : Type} (count : Item → Nat) (first second : List Item) :
    totalTurns count (first ++ second) = totalTurns count first + totalTurns count second := by
  induction first with
  | nil => exact (Nat.zero_add _).symm
  | cons item items induction =>
      rw [List.cons_append, totalTurns_cons, induction, totalTurns_cons, Nat.add_assoc]

@[simp] theorem totalTurns_map {Item Other : Type} (count : Other → Nat) (make : Item → Other)
    (items : List Item) :
    totalTurns count (items.map make) = totalTurns (fun item => count (make item)) items := by
  induction items with
  | nil => rfl
  | cons item items induction => rw [List.map_cons, totalTurns_cons, induction, totalTurns_cons]

def stepTurns (arena : Arena) (visit : NodeId → Nat) : Step Event Refusal → Nat
  | .emit _ => 1
  | .refuse _ => 1
  | .dangle _ => 1
  | .child (.node id) => visit id + 1
  | .child (.list range) =>
      match arena.list range with
      | .error _ => 1
      | .ok ids => totalTurns (fun id => visit id + 1) ids + 1

theorem stepTurns_emit (arena : Arena) (visit : NodeId → Nat) (event : Event) :
    stepTurns arena visit (.emit event : Step Event Refusal) = 1 := rfl

theorem stepTurns_node (arena : Arena) (visit : NodeId → Nat) (id : NodeId) :
    stepTurns arena visit (.child (.node id) : Step Event Refusal) = visit id + 1 := rfl

theorem stepTurns_list (arena : Arena) (visit : NodeId → Nat) (range : NodeRange)
    (ids : List NodeId) (found : arena.list range = .ok ids) :
    stepTurns arena visit (.child (.list range) : Step Event Refusal) =
      totalTurns (fun id => visit id + 1) ids + 1 := by
  simp only [stepTurns, found]

def nodeTurns (arena : Arena) (pass : Pass Event Refusal) : Nat → NodeId → Nat
  | 0, _ => 0
  | depth + 1, id => totalTurns (stepTurns arena (nodeTurns arena pass depth)) (pass id)

def turns (arena : Arena) (pass : Pass Event Refusal) (pending : Pending Event Refusal) : Nat :=
  stepTurns arena (nodeTurns arena pass pending.depth) pending.step

def trace (arena : Arena) (pass : Pass Event Refusal) (pending : Pending Event Refusal) :
    Trace Event Refusal :=
  arena.traceStep (arena.traceWithin pass pending.depth) pending.step

end Pending

/-- Takes the steps of an agenda one by one. The events so far are collected last one first. -/
def run (arena : Arena) (pass : Pass Event Refusal) (collected : List Event) :
    List (Pending Event Refusal) → Trace Event Refusal
  | [] => ⟨collected.reverse, none⟩
  | ⟨_, .emit event⟩ :: agenda => arena.run pass (event :: collected) agenda
  | ⟨_, .refuse refusal⟩ :: _ => ⟨collected.reverse, some (.refused refusal)⟩
  | ⟨_, .dangle handle⟩ :: _ => ⟨collected.reverse, some (.dangling handle)⟩
  | ⟨depth, .child (.list range)⟩ :: agenda =>
      match found : arena.list range with
      | .error handle => ⟨collected.reverse, some (.dangling handle)⟩
      | .ok ids =>
          arena.run pass collected (ids.map (fun id => ⟨depth, .child (.node id)⟩) ++ agenda)
  | ⟨0, .child (.node id)⟩ :: agenda =>
      if id.isPresent then ⟨collected.reverse, some .cyclic⟩ else arena.run pass collected agenda
  | ⟨depth + 1, .child (.node id)⟩ :: agenda =>
      if id.isPresent then
        arena.run pass collected ((pass id).map (fun step => ⟨depth, step⟩) ++ agenda)
      else arena.run pass collected agenda
termination_by agenda => Pending.totalTurns (Pending.turns arena pass) agenda
decreasing_by
  · simp [Pending.turns, Pending.stepTurns_emit]
  · simp [Pending.turns, Pending.stepTurns_node, Pending.stepTurns_list _ _ _ _ found]
  · simp [Pending.turns, Pending.stepTurns_node]
  · simp [Pending.turns, Pending.stepTurns_node, Pending.nodeTurns]
  · simp [Pending.turns, Pending.stepTurns_node]

def walk (arena : Arena) (pass : Pass Event Refusal) (root : NodeId) : Trace Event Refusal :=
  arena.run pass [] [⟨arena.size + 1, .child (.node root)⟩]

theorem run_eq_concat (arena : Arena) (pass : Pass Event Refusal) (collected : List Event)
    (agenda : List (Pending Event Refusal)) :
    arena.run pass collected agenda =
      ⟨collected.reverse, none⟩ ++ Trace.concat (agenda.map (Pending.trace arena pass)) := by
  fun_induction arena.run pass collected agenda with
  | case1 collected => simp
  | case2 collected depth event agenda induction =>
      rw [induction]
      simp [Pending.trace, traceStep_emit]
  | case3 => simp [Pending.trace, traceStep_refuse]
  | case4 => simp [Pending.trace, traceStep_dangle]
  | case5 collected depth range agenda handle found =>
      simp [Pending.trace, traceStep_list_dangling, found]
  | case6 collected depth range agenda ids found induction =>
      rw [induction]
      simp [Pending.trace, traceStep_list _ _ _ _ found, Function.comp_def]
  | case7 collected id agenda present =>
      simp [Pending.trace, traceStep_node, present, traceWithin]
  | case8 collected id agenda missing induction =>
      rw [induction]
      simp [Pending.trace, traceStep_node, missing]
  | case9 collected depth id agenda present induction =>
      rw [induction]
      simp [Pending.trace, traceStep_node, present, traceWithin, Function.comp_def]
  | case10 collected depth id agenda missing induction =>
      rw [induction]
      simp [Pending.trace, traceStep_node, missing]

theorem walk_eq_trace (arena : Arena) (pass : Pass Event Refusal) (root : NodeId) :
    arena.walk pass root =
      arena.traceStep (arena.traceWithin pass (arena.size + 1)) (.child (.node root)) := by
  rw [walk, run_eq_concat]
  simp [Pending.trace]

/-- Reports every node before its parts, and gives up after a node whose construct is refused. A
node is reported before it is looked up. -/
def preorder (arena : Arena) (refuses : Construct → Bool) : Pass NodeId NodeId := fun id =>
  .emit id ::
    match arena.node id with
    | .error handle => [.dangle handle]
    | .ok node =>
        if refuses node.construct then [.refuse id] else node.construct.children.map .child

end Arena

/-- The nodes of a program in the order of a walk from its root, up to the first refused one. -/
def Program.visit (program : Program) (refuses : Construct → Bool) : Trace NodeId NodeId :=
  program.arena.walk (program.arena.preorder refuses) program.root

end Unbound
