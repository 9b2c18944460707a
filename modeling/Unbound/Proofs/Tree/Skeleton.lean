import Unbound.Tree.Walk

/-!
# The skeleton of a program

What a skeleton leaves out is set to one fixed value, so two programs have the same skeleton exactly
if they agree in all that is kept. A walk takes the same way through both.
-/

set_option autoImplicit false

namespace Unbound

def FunctionForm.skeleton : FunctionForm → FunctionForm
  | .method _ params body => .method .empty params body
  | .getter _ body => .getter .empty body
  | .setter _ param body => .setter .empty param body
  | form => form

def Pattern.skeleton : Pattern → Pattern
  | .field _ element => .field .empty element
  | form => form

def Statement.skeleton : Statement → Statement
  | .labelled _ body => .labelled .empty body
  | .leave _ => .leave .empty
  | .resume _ => .resume .empty
  | form => form

def Expression.skeleton : Expression → Expression
  | .literal _ => .literal .null
  | .property _ value => .property .empty value
  | .member base _ => .member base .empty
  -- What `typeof` asks for counts as declared, so it is the one operator that matters.
  | .unary .typeOf operand => .unary .typeOf operand
  | .unary _ operand => .unary .not operand
  | .update _ _ operand => .update .increment true operand
  | .binary _ left right => .binary .add left right
  | .assignment _ target value => .assignment .plain target value
  | form => form

def Construct.skeleton : Construct → Construct
  | .function form => .function form.skeleton
  | .pattern form => .pattern form.skeleton
  | .statement form => .statement form.skeleton
  | .expression form => .expression form.skeleton
  | construct => construct

/-- The place of a node is kept only if the node is a reference. -/
def Node.skeleton (node : Node) : Node :=
  match node.construct with
  | .reference name => ⟨.reference name, node.span⟩
  | construct => ⟨construct.skeleton, none⟩

def Arena.skeleton (arena : Arena) : Arena := ⟨arena.nodes.map Node.skeleton, arena.entries⟩

def Program.skeleton (program : Program) : Program := ⟨program.arena.skeleton, program.root⟩

namespace Arena

variable (arena : Arena)

theorem size_skeleton : arena.skeleton.size = arena.size := Array.size_map

theorem node_skeleton (id : NodeId) :
    arena.skeleton.node id = (arena.node id).map Node.skeleton := by
  rw [node, node, skeleton, Array.getElem?_map]
  cases arena.nodes[id.index]? with
  | none => rfl
  | some found => rfl

end Arena

variable {Event Other Refusal : Type}

def Step.mapEvent (map : Event → Other) : Step Event Refusal → Step Other Refusal
  | .emit event => .emit (map event)
  | .child part => .child part
  | .refuse refusal => .refuse refusal
  | .dangle handle => .dangle handle

namespace Trace

/-- A map of traces that goes along with how traces are put together. -/
structure Respects (map : Trace Event Refusal → Trace Other Refusal) : Prop where
  done : map .done = .done
  interrupted : ∀ interruption, map (.interrupted interruption) = .interrupted interruption
  append : ∀ first second, map (first ++ second) = map first ++ map second

theorem Respects.concat {map : Trace Event Refusal → Trace Other Refusal} (respects : Respects map)
    (traces : List (Trace Event Refusal)) :
    map (concat traces) = .concat (traces.map map) := by
  induction traces with
  | nil => exact respects.done
  | cons trace traces induction =>
      rw [concat_cons, respects.append, induction, List.map_cons, concat_cons]

/-- Going on to a part does not depend on the events, so the map may be applied below. -/
theorem Respects.traceStep_child {map : Trace Event Refusal → Trace Other Refusal}
    (respects : Respects map) (arena : Arena) (visit : NodeId → Trace Event Refusal)
    (part : Child) :
    map (arena.traceStep visit (.child part)) =
      arena.traceStep (fun id => map (visit id)) (.child part) := by
  have ofNode : ∀ id : NodeId, map (arena.traceStep visit (.child (.node id))) =
      arena.traceStep (fun id => map (visit id)) (.child (.node id)) := by
    intro id
    rw [Arena.traceStep_node, Arena.traceStep_node]
    split
    case isTrue => rfl
    case isFalse => exact respects.done
  cases part with
  | node id => exact ofNode id
  | list range =>
      cases found : arena.list range with
      | error handle =>
          rw [Arena.traceStep_list_dangling _ _ _ _ found,
            Arena.traceStep_list_dangling _ _ _ _ found, respects.interrupted]
      | ok ids =>
          rw [Arena.traceStep_list _ _ _ _ found, Arena.traceStep_list _ _ _ _ found,
            respects.concat, List.map_map]
          apply congrArg
          apply List.map_congr_left
          intro id _
          exact ofNode id

def mapEvents (map : Event → Other) (trace : Trace Event Refusal) : Trace Other Refusal :=
  ⟨trace.events.map map, trace.interruption⟩

theorem respects_mapEvents (map : Event → Other) :
    Respects (mapEvents map : Trace Event Refusal → Trace Other Refusal) where
  done := rfl
  interrupted _ := rfl
  append first second := by
    obtain ⟨events, interruption⟩ := first
    cases interruption with
    | some interruption => rfl
    | none => exact Trace.ext List.map_append rfl

end Trace

namespace Arena

variable (arena : Arena) (map : Event → Other)

theorem mapEvents_traceStep (visit : NodeId → Trace Event Refusal) (step : Step Event Refusal) :
    (arena.traceStep visit step).mapEvents map =
      arena.traceStep (fun id => (visit id).mapEvents map) (step.mapEvent map) := by
  cases step with
  | child part => exact (Trace.respects_mapEvents map).traceStep_child arena visit part
  | _ => rfl

theorem traceStep_skeleton (visit : NodeId → Trace Event Refusal) (step : Step Event Refusal) :
    arena.skeleton.traceStep visit step = arena.traceStep visit step := by
  cases step with
  | child part => cases part <;> rfl
  | _ => rfl

/-- A pass that takes the same steps at every node of the skeleton, up to a map of its events,
leaves the same trace. -/
theorem mapEvents_traceWithin_skeleton {onSkeleton pass : Pass Event Refusal}
    (same : ∀ id, (onSkeleton id).map (Step.mapEvent map) = (pass id).map (Step.mapEvent map))
    (depth : Nat) (id : NodeId) :
    (arena.skeleton.traceWithin onSkeleton depth id).mapEvents map =
      (arena.traceWithin pass depth id).mapEvents map := by
  induction depth generalizing id with
  | zero => rfl
  | succ depth induction =>
      have mapped : ∀ (visit : NodeId → Trace Event Refusal) (steps : List (Step Event Refusal)),
          (Trace.concat (steps.map (arena.traceStep visit))).mapEvents map =
            .concat ((steps.map (Step.mapEvent map)).map
              (arena.traceStep fun id => (visit id).mapEvents map)) := by
        intro visit steps
        rw [(Trace.respects_mapEvents map).concat, List.map_map, List.map_map]
        apply congrArg
        apply List.map_congr_left
        intro step _
        exact arena.mapEvents_traceStep map visit step
      have below : (fun id => (arena.skeleton.traceWithin onSkeleton depth id).mapEvents map) =
          fun id => (arena.traceWithin pass depth id).mapEvents map := funext induction
      have sameWay : arena.skeleton.traceStep (arena.skeleton.traceWithin onSkeleton depth) =
          arena.traceStep (arena.skeleton.traceWithin onSkeleton depth) :=
        funext (arena.traceStep_skeleton _)
      rw [traceWithin, traceWithin, sameWay, mapped, mapped, same, below]

theorem mapEvents_walk_skeleton {onSkeleton pass : Pass Event Refusal}
    (same : ∀ id, (onSkeleton id).map (Step.mapEvent map) = (pass id).map (Step.mapEvent map))
    (root : NodeId) :
    (arena.skeleton.walk onSkeleton root).mapEvents map = (arena.walk pass root).mapEvents map := by
  rw [walk_eq_trace, walk_eq_trace, traceStep_skeleton, size_skeleton, mapEvents_traceStep,
    mapEvents_traceStep]
  have below := arena.mapEvents_traceWithin_skeleton map same (arena.size + 1)
  simp only [below]

end Arena

end Unbound
