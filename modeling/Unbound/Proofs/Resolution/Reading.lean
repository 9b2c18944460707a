import Unbound.Check
import Unbound.Proofs.Tree.Depth
import Unbound.Proofs.Resolution.Outline

/-!
# The check reads the outline

The walk of a check reports the events of the outline and is interrupted if there is none.
-/

set_option autoImplicit false

namespace Unbound

namespace Outline

def events : Outline → List ScopeEvent
  | .nothing => []
  | .use name span => [.reference name span]
  | .declare name span => [.declare name span]
  | .next first second => first.events ++ second.events
  | .scope inner => .enter :: (inner.events ++ [.leave])

/-- A trace ends with the events of the outline, or is interrupted where there is none. -/
def Follows : Option Outline → Trace ScopeEvent Empty → Prop
  | some outline, trace => trace = ⟨outline.events, none⟩
  | none, trace => trace.interruption ≠ none

theorem follows_interrupted (interruption : Interruption Empty) :
    Follows none (.interrupted interruption) := by
  intro ended
  cases ended

theorem follows_join_cons {first : Option Outline} {rest : List (Option Outline)}
    {trace traces : Trace ScopeEvent Empty} (head : Follows first trace)
    (tail : Follows (join rest) traces) : Follows (join (first :: rest)) (trace ++ traces) := by
  cases first with
  | none =>
      cases outcome : trace.interruption with
      | none => exact absurd outcome head
      | some interruption =>
          change (trace ++ traces).interruption ≠ none
          rw [Trace.append_of_interrupted traces outcome, outcome]
          exact Option.some_ne_none interruption
  | some outline =>
      have ended : trace = ⟨outline.events, none⟩ := head
      subst ended
      rw [Trace.events_emitted_append]
      cases remaining : join rest with
      | none =>
          rw [remaining] at tail
          have joined : join (some outline :: rest) = none := by
            simp only [join, remaining]
            rfl
          rw [joined]
          exact tail
      | some later =>
          rw [remaining] at tail
          have finished : traces = ⟨later.events, none⟩ := tail
          subst finished
          have joined : join (some outline :: rest) = some (.next outline later) := by
            simp only [join, remaining]
            rfl
          rw [joined]
          rfl

theorem follows_join_map {Item : Type} (items : List Item) (outline : Item → Option Outline)
    (trace : Item → Trace ScopeEvent Empty)
    (follows : ∀ item, Follows (outline item) (trace item)) :
    Follows (join (items.map outline)) (.concat (items.map trace)) := by
  induction items with
  | nil => rfl
  | cons item items induction => exact follows_join_cons (follows item) induction

theorem follows_joinInScope {parts : List (Option Outline)} {trace : Trace ScopeEvent Empty}
    (follows : Follows (join parts) trace) :
    Follows (joinInScope parts) (⟨[.enter], none⟩ ++ (trace ++ ⟨[.leave], none⟩)) := by
  rw [joinInScope]
  cases joined : join parts with
  | none =>
      rw [joined] at follows
      cases outcome : trace.interruption with
      | none => exact absurd outcome follows
      | some interruption =>
          rw [Trace.append_of_interrupted _ outcome]
          exact follows
  | some outline =>
      rw [joined] at follows
      have ended : trace = ⟨outline.events, none⟩ := follows
      subst ended
      rfl

end Outline

namespace Arena

open Outline

variable (arena : Arena) {visit : NodeId → Option Outline}
  {trace : NodeId → Trace ScopeEvent Empty}

theorem follows_outlinePart (follows : ∀ id, Follows (visit id) (trace id)) (part : Child) :
    Follows (arena.outlinePart visit part) (arena.traceStep trace (.child part)) := by
  have ofNode : ∀ id : NodeId, Follows (if id.isPresent then visit id else some .nothing)
      (arena.traceStep trace (.child (.node id))) := by
    intro id
    rw [traceStep_node]
    split
    case isTrue => exact follows id
    case isFalse => rfl
  cases part with
  | node id => exact ofNode id
  | list range =>
      rw [outlinePart]
      cases found : arena.list range with
      | error handle =>
          rw [traceStep_list_dangling _ _ _ _ found]
          exact follows_interrupted _
      | ok ids =>
          rw [traceStep_list _ _ _ _ found]
          exact follows_join_map ids _ _ ofNode

theorem follows_children (follows : ∀ id, Follows (visit id) (trace id)) (parts : List Child) :
    Follows (join (parts.map (arena.outlinePart visit)))
      (.concat ((parts.map Step.child).map (arena.traceStep trace))) := by
  rw [List.map_map]
  exact follows_join_map parts _ _ (arena.follows_outlinePart follows)

theorem concat_inScope (steps : Check.Steps) :
    Trace.concat ((Check.inScope steps).map (arena.traceStep trace)) =
      ⟨[.enter], none⟩ ++ (.concat (steps.map (arena.traceStep trace)) ++ ⟨[.leave], none⟩) := by
  rw [Check.inScope, List.map_cons, List.map_append, Trace.concat_cons, Trace.concat_append,
    traceStep_emit, List.map_singleton, Trace.concat_cons, traceStep_emit, Trace.concat_nil,
    Trace.append_done]

theorem follows_inScope_children (follows : ∀ id, Follows (visit id) (trace id))
    (parts : List Child) :
    Follows (joinInScope (parts.map (arena.outlinePart visit)))
      (.concat ((Check.inScope (parts.map .child)).map (arena.traceStep trace))) := by
  rw [concat_inScope]
  exact follows_joinInScope (arena.follows_children follows parts)

theorem follows_functionParts (follows : ∀ id, Follows (visit id) (trace id))
    (argumentsName : Name) (params : NodeRange) (body : NodeId) :
    Follows
      (join [some (.declare argumentsName none), arena.outlinePart visit (.list params),
        arena.outlinePart visit (.node body)])
      (.concat ([.emit (.declare argumentsName none), .child (.list params),
        .child (.node body)].map (arena.traceStep trace))) :=
  follows_join_cons rfl (arena.follows_children follows [.list params, .node body])

theorem follows_functionScope (follows : ∀ id, Follows (visit id) (trace id))
    (argumentsName : Name) (name : NodeId) (params : NodeRange) (body : NodeId) :
    Follows
      (joinInScope [arena.outlinePart visit (.node name), some (.declare argumentsName none),
        arena.outlinePart visit (.list params), arena.outlinePart visit (.node body)])
      (.concat ((Check.functionScope argumentsName name params body).map
        (arena.traceStep trace))) := by
  rw [Check.functionScope, concat_inScope]
  apply follows_joinInScope
  exact follows_join_cons (arena.follows_outlinePart follows (.node name))
    (arena.follows_functionParts follows argumentsName params body)

theorem follows_unnamedFunctionScope (follows : ∀ id, Follows (visit id) (trace id))
    (argumentsName : Name) (params : NodeRange) (body : NodeId) :
    Follows
      (joinInScope [some (.declare argumentsName none), arena.outlinePart visit (.list params),
        arena.outlinePart visit (.node body)])
      (.concat ((Check.functionScope argumentsName .absent params body).map
        (arena.traceStep trace))) := by
  rw [Check.functionScope, concat_inScope]
  exact follows_joinInScope (arena.follows_functionParts follows argumentsName params body)

theorem outlineOwnName_eq (name : NodeId) :
    arena.outlineOwnName name =
      match arena.bindingName? name with
      | .error _ => none
      | .ok none => some .nothing
      | .ok (some (own, span)) => some (.declare own span) := by
  rw [outlineOwnName, bindingName?]
  by_cases present : name.isPresent
  · rw [if_pos present, if_pos present]
    cases arena.node name with
    | error handle => rfl
    | ok node =>
        obtain ⟨construct, span⟩ := node
        cases construct with
        | binding own => rfl
        | _ => rfl
  · rw [if_neg present, if_neg present]

theorem follows_declaration (follows : ∀ id, Follows (visit id) (trace id))
    (argumentsName : Name) (name : NodeId) (params : NodeRange) (body : NodeId)
    (span : Option Span) :
    Follows
      (arena.outlineNode argumentsName (arena.outlinePart visit)
        ⟨.function (.declaration name params body), span⟩)
      (.concat ((Check.steps arena argumentsName
        ⟨.function (.declaration name params body), span⟩).map (arena.traceStep trace))) := by
  have scope := arena.follows_unnamedFunctionScope follows argumentsName params body
  have alone := follows_join_cons scope (show Follows (join []) .done from rfl)
  rw [Trace.append_done] at alone
  simp only [outlineNode, Check.steps]
  rw [outlineOwnName_eq]
  cases arena.bindingName? name with
  | error handle => exact follows_interrupted _
  | ok binding =>
      cases binding with
      | none =>
          have silent : Follows (some .nothing) .done := rfl
          have joined := follows_join_cons silent alone
          rw [Trace.done_append] at joined
          exact joined
      | some binding => exact follows_join_cons rfl alone

/-- A name that is asked for is declared where it is asked for; its node is not walked. -/
theorem follows_typeOf (follows : ∀ id, Follows (visit id) (trace id))
    (argumentsName : Name) (operand : NodeId) (span : Option Span) :
    Follows
      (arena.outlineNode argumentsName (arena.outlinePart visit)
        ⟨.expression (.unary .typeOf operand), span⟩)
      (.concat ((Check.steps arena argumentsName
        ⟨.expression (.unary .typeOf operand), span⟩).map (arena.traceStep trace))) := by
  simp only [outlineNode, Check.steps]
  cases arena.node operand with
  | error handle => exact follows_interrupted _
  | ok node =>
      obtain ⟨construct, place⟩ := node
      cases construct with
      | reference name => rfl
      | _ => exact arena.follows_children follows [.node operand]

theorem follows_outlineNode (follows : ∀ id, Follows (visit id) (trace id))
    (argumentsName : Name) (node : Node) :
    Follows (arena.outlineNode argumentsName (arena.outlinePart visit) node)
      (.concat ((Check.steps arena argumentsName node).map (arena.traceStep trace))) := by
  obtain ⟨construct, span⟩ := node
  cases construct with
  | script items => exact arena.follows_children follows _
  | functionBody statements => exact arena.follows_children follows _
  | binding name => rfl
  | reference name => rfl
  | pattern form => exact arena.follows_children follows _
  | statement form => exact arena.follows_children follows _
  | catchClause parameter body =>
      exact arena.follows_inScope_children follows [.node parameter, .node body]
  | function form =>
      cases form with
      | declaration name params body =>
          exact arena.follows_declaration follows argumentsName name params body span
      | expression name params body =>
          exact arena.follows_functionScope follows argumentsName name params body
      | arrow params body =>
          exact arena.follows_unnamedFunctionScope follows argumentsName params body
      | method key params body =>
          exact arena.follows_unnamedFunctionScope follows argumentsName params body
      | getter key body => exact arena.follows_inScope_children follows [.node body]
      | setter key param body =>
          exact arena.follows_inScope_children follows [.node param, .node body]
  | expression form =>
      cases form with
      | unary op operand =>
          cases op with
          | typeOf => exact arena.follows_typeOf follows argumentsName operand span
          | _ => exact arena.follows_children follows _
      | _ => exact arena.follows_children follows _

theorem follows_outlineWithin (argumentsName : Name) (depth : Nat) (id : NodeId) :
    Follows (arena.outlineWithin argumentsName depth id)
      (arena.traceWithin (Check.pass arena argumentsName) depth id) := by
  induction depth generalizing id with
  | zero => exact follows_interrupted .cyclic
  | succ depth induction =>
      rw [traceWithin_succ, outlineWithin, Check.pass]
      cases arena.node id with
      | error handle => exact follows_interrupted _
      | ok node => exact arena.follows_outlineNode induction argumentsName node

theorem settlesOutside_check (argumentsName : Name) :
    arena.SettlesOutside (Check.pass arena argumentsName) := by
  intro id outside
  rw [traceWithin_succ, Check.pass, node_eq_error_of_size_le outside]
  rfl

end Arena

namespace Program

open Outline

variable {program : Program} {argumentsName : Name} {outline : Outline}

theorem scopeTrace_of_hasOutline (outlined : program.HasOutline argumentsName outline) :
    program.scopeTrace argumentsName = ⟨outline.events, none⟩ := by
  obtain ⟨depth, read⟩ := outlined
  have follows := program.arena.follows_outlinePart
    (program.arena.follows_outlineWithin argumentsName depth) (.node program.root)
  rw [read] at follows
  have settled := congrArg Trace.settled follows
  rw [scopeTrace, Arena.walk_eq_traceWithin (program.arena.settlesOutside_check argumentsName)
    depth program.root settled]
  exact follows

/-- A program has an outline exactly if the walk of its check runs to the end. -/
theorem exists_hasOutline_iff :
    (∃ outline, program.HasOutline argumentsName outline) ↔
      (program.scopeTrace argumentsName).interruption = none := by
  constructor
  · intro found
    obtain ⟨outline, outlined⟩ := found
    rw [scopeTrace_of_hasOutline outlined]
  · intro ended
    rw [scopeTrace, Arena.walk_eq_trace] at ended
    have follows := program.arena.follows_outlinePart
      (program.arena.follows_outlineWithin argumentsName (program.arena.size + 1))
      (.node program.root)
    cases read : program.arena.outlinePart
        (program.arena.outlineWithin argumentsName (program.arena.size + 1))
        (.node program.root) with
    | none =>
        rw [read] at follows
        exact absurd ended follows
    | some outline => exact ⟨outline, program.arena.size + 1, read⟩

end Program

end Unbound
