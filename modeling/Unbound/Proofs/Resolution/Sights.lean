import Unbound.Proofs.Scope.Nesting
import Unbound.Proofs.Tree.Skeleton

/-!
# Where events come from

The sights of a program are the nodes that the walk of the check comes to, each followed by what is
reported there and below. Without the nodes they are the events of the check.
-/

set_option autoImplicit false

namespace Unbound

inductive Sight where
  | node (id : NodeId)
  | report (event : ScopeEvent)
deriving DecidableEq, Repr

namespace Sight

def event? : Sight → Option ScopeEvent
  | .node _ => none
  | .report event => some event

def eventsOf (sights : List Sight) : List ScopeEvent := sights.filterMap event?

theorem eventsOf_append (first second : List Sight) :
    eventsOf (first ++ second) = eventsOf first ++ eventsOf second := List.filterMap_append

end Sight

/-- The steps of a check, with every node reported before its steps. -/
def Check.sightPass (arena : Arena) (argumentsName : Name) : Pass Sight Empty := fun id =>
  .emit (.node id) :: (Check.pass arena argumentsName id).map (Step.mapEvent .report)

namespace Trace

def reports (trace : Trace Sight Empty) : Trace ScopeEvent Empty :=
  ⟨Sight.eventsOf trace.events, trace.interruption⟩

theorem respects_reports : Respects reports where
  done := rfl
  interrupted _ := rfl
  append first second := by
    obtain ⟨sights, interruption⟩ := first
    cases interruption with
    | some interruption => rfl
    | none => exact Trace.ext (Sight.eventsOf_append sights second.events) rfl

end Trace

namespace Arena

variable (arena : Arena)

theorem reports_traceStep (visit : NodeId → Trace Sight Empty) (step : Step ScopeEvent Empty) :
    (arena.traceStep visit (step.mapEvent .report)).reports =
      arena.traceStep (fun id => (visit id).reports) step := by
  cases step with
  | child part => exact Trace.respects_reports.traceStep_child arena visit part
  | _ => rfl

/-- The nodes aside, sights are what a check reports. -/
theorem reports_traceWithin (argumentsName : Name) (depth : Nat) (id : NodeId) :
    (arena.traceWithin (Check.sightPass arena argumentsName) depth id).reports =
      arena.traceWithin (Check.pass arena argumentsName) depth id := by
  induction depth generalizing id with
  | zero => rfl
  | succ depth induction =>
      have below : (fun id =>
          (arena.traceWithin (Check.sightPass arena argumentsName) depth id).reports) =
          arena.traceWithin (Check.pass arena argumentsName) depth := funext induction
      rw [traceWithin_succ, traceWithin_succ, Check.sightPass, List.map_cons, Trace.concat_cons,
        Trace.respects_reports.append, Trace.respects_reports.concat, List.map_map, List.map_map]
      have unseen : (arena.traceStep (arena.traceWithin (Check.sightPass arena argumentsName) depth)
          (.emit (.node id))).reports = .done := rfl
      rw [unseen, Trace.done_append]
      apply congrArg
      apply List.map_congr_left
      intro step _
      rw [← below]
      exact arena.reports_traceStep _ step

theorem settlesOutside_sights (argumentsName : Name) :
    arena.SettlesOutside (Check.sightPass arena argumentsName) := by
  intro id outside
  rw [traceWithin_succ, Check.sightPass, Check.pass, node_eq_error_of_size_le outside]
  rfl

end Arena

namespace Program

variable (program : Program) (argumentsName : Name)

def sightTrace : Trace Sight Empty :=
  program.arena.walk (Check.sightPass program.arena argumentsName) program.root

def sights : List Sight := (program.sightTrace argumentsName).events

theorem reports_sightTrace :
    (program.sightTrace argumentsName).reports = program.scopeTrace argumentsName := by
  have below := funext (program.arena.reports_traceWithin argumentsName (program.arena.size + 1))
  rw [sightTrace, scopeTrace, Arena.walk_eq_trace, Arena.walk_eq_trace, ← below]
  exact program.arena.reports_traceStep _ (.child (.node program.root))

theorem events_scopeTrace :
    (program.scopeTrace argumentsName).events = Sight.eventsOf (program.sights argumentsName) := by
  rw [← reports_sightTrace]
  rfl

/-- The scope that is active when a check first comes to the node. The root is open when it begins.
-/
def scopeOf? (id : NodeId) : Option ScopeHandle :=
  let before := (program.sights argumentsName).takeWhile (· ≠ .node id)
  ((Nesting.empty.step .enter).after (Sight.eventsOf before)).handles.head?

end Program

end Unbound
