import Unbound.Proofs.Resolution.Deferred
import Unbound.Proofs.Scope.Places
import Unbound.Proofs.Tree.Skeleton

/-!
# Only bindings, uses and their nesting matter

A check gives the same result on a program and on its skeleton: the two walks report the same events
but for the places of declarations, and these a chain of scopes never looks at.
-/

set_option autoImplicit false

namespace Unbound

def ScopeEvent.unplaced : ScopeEvent → ScopeEvent
  | .declare name _ => .declare name none
  | event => event

namespace Check

namespace Session

def unplaced (session : Session) : Session := { session with chain := session.chain.unplaced }

theorem step_unplaced (session : Session) (event : ScopeEvent) :
    session.unplaced.step event.unplaced = (session.step event).map unplaced := by
  obtain ⟨chain, entered⟩ := session
  cases event with
  | enter => rfl
  | declare name span =>
      apply congrArg Except.ok
      exact congrArg (Session.mk · entered) (chain.unplaced_declare name span).symm
  | reference name span =>
      apply congrArg Except.ok
      exact congrArg (Session.mk · entered) (chain.unplaced_reference name span).symm
  | leave =>
      cases entered with
      | nil => rfl
      | cons handle entered =>
          have left := chain.leave_unplaced handle
          simp only [ScopeEvent.unplaced, unplaced, step]
          rw [left]
          cases chain.leave handle with
          | mk outcome after =>
              cases outcome with
              | error failure => rfl
              | ok free => rfl

theorem replay_unplaced (session : Session) (events : List ScopeEvent) :
    session.unplaced.replay (events.map .unplaced) = (session.replay events).map unplaced := by
  induction events generalizing session with
  | nil => rfl
  | cons event events induction =>
      rw [List.map_cons, replay_cons, replay_cons, step_unplaced]
      cases session.step event with
      | error failure => rfl
      | ok next => exact induction next

end Session

def Steps.unplaced (steps : Steps) : Steps := steps.map (Step.mapEvent .unplaced)

end Check

namespace Arena

variable (arena : Arena)

theorem bindingName?_skeleton (id : NodeId) :
    arena.skeleton.bindingName? id =
      (arena.bindingName? id).map (Option.map fun own => (own.1, none)) := by
  rw [bindingName?, bindingName?, node_skeleton]
  split
  case isFalse => rfl
  case isTrue =>
    cases arena.node id with
    | error handle => rfl
    | ok node =>
        obtain ⟨construct, span⟩ := node
        cases construct <;> rfl

end Arena

namespace Check

variable (arena : Arena) (argumentsName : Name)

theorem unplaced_steps_declaration (name : NodeId) (params : NodeRange) (body : NodeId)
    (span other : Option Span) :
    Steps.unplaced (steps arena.skeleton argumentsName
        ⟨.function (.declaration name params body), span⟩) =
      Steps.unplaced (steps arena argumentsName
        ⟨.function (.declaration name params body), other⟩) := by
  simp only [steps]
  rw [arena.bindingName?_skeleton]
  cases arena.bindingName? name with
  | error handle => rfl
  | ok own =>
      cases own with
      | none => rfl
      | some own => rfl

theorem unplaced_steps_typeOf (operand : NodeId) (span other : Option Span) :
    Steps.unplaced (steps arena.skeleton argumentsName
        ⟨.expression (.unary .typeOf operand), span⟩) =
      Steps.unplaced (steps arena argumentsName
        ⟨.expression (.unary .typeOf operand), other⟩) := by
  simp only [steps]
  rw [arena.node_skeleton]
  cases arena.node operand with
  | error handle => rfl
  | ok node =>
      obtain ⟨construct, place⟩ := node
      cases construct <;> rfl

theorem unplaced_steps_skeleton (node : Node) :
    Steps.unplaced (steps arena.skeleton argumentsName node.skeleton) =
      Steps.unplaced (steps arena argumentsName node) := by
  obtain ⟨construct, span⟩ := node
  cases construct with
  | function form =>
      cases form with
      | declaration name params body =>
          exact unplaced_steps_declaration arena argumentsName name params body none span
      | _ => rfl
  | pattern form => cases form <;> rfl
  | statement form => cases form <;> rfl
  | expression form =>
      cases form with
      | unary op operand =>
          cases op with
          | typeOf => exact unplaced_steps_typeOf arena argumentsName operand none span
          | _ => rfl
      | _ => rfl
  | _ => rfl

theorem unplaced_pass_skeleton (id : NodeId) :
    Steps.unplaced (pass arena.skeleton argumentsName id) =
      Steps.unplaced (pass arena argumentsName id) := by
  rw [pass, pass, arena.node_skeleton]
  cases arena.node id with
  | error handle => rfl
  | ok node => exact unplaced_steps_skeleton arena argumentsName node

end Check

namespace Program

theorem unplaced_scopeTrace_skeleton (program : Program) (argumentsName : Name) :
    (program.skeleton.scopeTrace argumentsName).mapEvents ScopeEvent.unplaced =
      (program.scopeTrace argumentsName).mapEvents ScopeEvent.unplaced :=
  program.arena.mapEvents_walk_skeleton _
    (Check.unplaced_pass_skeleton program.arena argumentsName) program.root

theorem check_eq_unplaced (program : Program) (ambient : Ambient) (interner : Interner) :
    program.check ambient interner =
      (do
        let trace := (program.scopeTrace interner.argumentsName).mapEvents .unplaced
        let session ← ((ambient.session interner).unplaced.replay trace.events).mapError .scope
        match trace.interruption with
        | some interruption => .error (.ofInterruption interruption)
        | none => (session.chain.leave ⟨0⟩).1.mapError .scope) := by
  rw [check_eq]
  dsimp only [Trace.mapEvents]
  rw [Check.Session.replay_unplaced]
  cases (ambient.session interner).replay (program.scopeTrace interner.argumentsName).events with
  | error failure => rfl
  | ok session =>
      have left := congrArg Prod.fst (session.chain.leave_unplaced ⟨0⟩)
      cases (program.scopeTrace interner.argumentsName).interruption with
      | some interruption => rfl
      | none => exact congrArg (Except.mapError CheckError.scope) left.symm

theorem check_skeleton (program : Program) (ambient : Ambient) (interner : Interner) :
    program.skeleton.check ambient interner = program.check ambient interner := by
  rw [check_eq_unplaced, check_eq_unplaced, unplaced_scopeTrace_skeleton]

/-- Two programs that agree in their roots, their child lists and the skeletons of their nodes, one
by one, have the same check: keys, member names, labels, literals, operators other than `typeof` and
all places but those of references make no difference. -/
theorem check_eq_of_skeleton_eq {first second : Program} (root : first.root = second.root)
    (entries : first.arena.entries = second.arena.entries)
    (nodes : first.arena.nodes.map Node.skeleton = second.arena.nodes.map Node.skeleton)
    (ambient : Ambient) (interner : Interner) :
    first.check ambient interner = second.check ambient interner := by
  have same : first.skeleton = second.skeleton := by
    rw [skeleton, skeleton, Arena.skeleton, Arena.skeleton, root, entries, nodes]
  rw [← first.check_skeleton, ← second.check_skeleton, same]

/-- The tree of `label: undefined.member;`, with a place for its nodes other than the variable. -/
def labelledMember (label member : Name) (span : Option Span) : Program where
  arena :=
    { nodes := #[
        ⟨.reference ⟨1073741826⟩, some ⟨7, 16⟩⟩,
        ⟨.expression (.member ⟨0⟩ member), span⟩,
        ⟨.statement (.expression ⟨1⟩), span⟩,
        ⟨.statement (.labelled label ⟨2⟩), span⟩,
        ⟨.script ⟨0, 1⟩, span⟩]
      entries := #[⟨3⟩] }
  root := ⟨4⟩

theorem check_labelledMember :
    (labelledMember ⟨1073741826⟩ ⟨1073741826⟩ (some ⟨3, 9⟩)).check ∅ Interner.initial =
      .ok [⟨⟨1073741826⟩, ⟨7, 16⟩⟩] := by
  have apart : (labelledMember ⟨268435456⟩ ⟨536870912⟩ none).check ∅ Interner.initial =
      .ok [⟨⟨1073741826⟩, ⟨7, 16⟩⟩] :=
    check_eq_ok_of_located ⟨5, rfl⟩ (by decide +kernel) (by decide)
  rw [← apart]
  apply check_eq_of_skeleton_eq
  · rfl
  · rfl
  · decide +kernel

end Program

end Unbound
