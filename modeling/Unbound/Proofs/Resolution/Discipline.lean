import Unbound.Proofs.Resolution.Deferred

/-!
# Stack discipline

The handles that are still to be left are always those of the innermost open scopes, so leaving one
never meets another scope, and what remains of a visit is in the scope that was active before.
-/

set_option autoImplicit false

namespace Unbound

/-- Names may have been added, but each one that was there before still has the place it had. -/
def Occurrences.Extends (after before : Occurrences) : Prop :=
  ∀ name place, before.find? name = some place → after.find? name = some place

theorem Occurrences.extends_gather (occurrences : Occurrences)
    (added : List (Name × Option Span)) : (occurrences.gather added).Extends occurrences := by
  intro name place known
  rw [find?_gather, known, Option.some_or]

structure Scope.Extends (after before : Scope) : Prop where
  handle : after.handle = before.handle
  declarations : after.declarations.Extends before.declarations
  references : after.references.Extends before.references

theorem Scope.extends_extend (scope : Scope) (outline : Outline) :
    (scope.extend outline).Extends scope where
  handle := rfl
  declarations := scope.declarations.extends_gather outline.declarations
  references := scope.references.extends_gather outline.pending

theorem Scope.declarations_extend (scope : Scope) (outline : Outline) :
    (scope.extend outline).declarations = scope.declarations.gather outline.declarations := rfl

/-- The constructs whose declarations all belong to a scope of their own. -/
def Construct.declaresWithin : Construct → Bool
  | .function (.declaration ..) => false
  | .function _ => true
  | .catchClause .. => true
  | _ => false

namespace Arena

open Outline

variable {arena : Arena} {argumentsName : Name} {part : Child → Option Outline} {node : Node}
  {outline : Outline}

theorem declarations_of_declaresWithin (within : node.construct.declaresWithin)
    (outlined : arena.outlineNode argumentsName part node = some outline) :
    outline.declarations = [] := by
  have closed : ∃ parts, joinInScope parts = some outline := by
    obtain ⟨construct, span⟩ := node
    cases construct with
    | catchClause parameter body => exact ⟨_, outlined⟩
    | function form =>
        cases form with
        | declaration name params body => cases within
        | _ => exact ⟨_, outlined⟩
    | _ => cases within
  obtain ⟨parts, joined⟩ := closed
  obtain ⟨inner, _, rfl⟩ := joinInScope_eq_some_iff.mp joined
  rfl

theorem declarations_of_declaration {name : NodeId} {params : NodeRange} {body : NodeId}
    (declares : node.construct = .function (.declaration name params body))
    (outlined : arena.outlineNode argumentsName part node = some outline) :
    outline.declarations = [] ∨
      ∃ own span, arena.bindingName? name = .ok (some (own, span)) ∧
        outline.declarations = [(own, span)] := by
  simp only [outlineNode, declares] at outlined
  obtain ⟨ownName, closed, named, rest, rfl⟩ := join_cons_eq_some_iff.mp outlined
  obtain ⟨function, none, joined, last, rfl⟩ := join_cons_eq_some_iff.mp rest
  obtain ⟨inner, _, rfl⟩ := joinInScope_eq_some_iff.mp joined
  cases last
  have only : (Outline.next ownName (.next (.scope inner) .nothing)).declarations =
      ownName.declarations := List.append_nil ownName.declarations
  rw [only]
  rw [outlineOwnName_eq] at named
  cases binding : arena.bindingName? name with
  | error handle =>
      rw [binding] at named
      cases named
  | ok bound =>
      rw [binding] at named
      cases bound with
      | none =>
          cases named
          exact Or.inl rfl
      | some bound =>
          obtain ⟨own, span⟩ := bound
          cases named
          rw [declarations]
          split
          case isTrue => exact Or.inl rfl
          case isFalse => exact Or.inr ⟨own, span, rfl, rfl⟩

end Arena

namespace ScopeChain

def handles (chain : ScopeChain) : List ScopeHandle := chain.scopes.map Scope.handle

@[simp] theorem handles_declare (chain : ScopeChain) (name : Name) (span : Option Span) :
    (chain.declare name span).handles = chain.handles := by
  obtain ⟨scopes, opened⟩ := chain
  rw [declare]
  split
  case isTrue => rfl
  case isFalse => cases scopes <;> rfl

@[simp] theorem handles_reference (chain : ScopeChain) (name : Name) (span : Option Span) :
    (chain.reference name span).handles = chain.handles := by
  obtain ⟨scopes, opened⟩ := chain
  cases scopes <;> rfl

end ScopeChain

namespace Check.Session

/-- The scopes still to be left are the innermost open ones, and around them are those of `base`. -/
def Above (session : Session) (base : List ScopeHandle) : Prop :=
  session.chain.handles = session.entered ++ base

variable {session : Session} {base : List ScopeHandle}

theorem step_leave_of_above (rooted : base ≠ []) (above : session.Above base) :
    ∃ next, session.step .leave = .ok next ∧ next.Above base := by
  obtain ⟨⟨scopes, opened, interner⟩, entered⟩ := session
  cases entered with
  | nil => exact ⟨_, rfl, above⟩
  | cons handle entered =>
      obtain ⟨scope, outer, rfl, rfl, handles⟩ := List.map_eq_cons_iff.mp above
      cases outer with
      | nil => exact absurd (List.append_eq_nil_iff.mp handles.symm).2 rooted
      | cons parent rest =>
          exact ⟨_, step_leave_inner interner scope parent rest opened entered, handles⟩

theorem step_of_above (event : ScopeEvent) (rooted : base ≠ []) (above : session.Above base) :
    ∃ next, session.step event = .ok next ∧ next.Above base := by
  cases event with
  | enter =>
      have pushed := congrArg (List.cons (ScopeHandle.mk session.chain.opened)) above
      exact ⟨_, rfl, pushed⟩
  | declare name span =>
      exact ⟨_, rfl, (session.chain.handles_declare name span).trans above⟩
  | reference name span =>
      exact ⟨_, rfl, (session.chain.handles_reference name span).trans above⟩
  | leave => exact step_leave_of_above rooted above

/-- Events in any order and number are replayed without failure, those of a walk that was
interrupted among them. -/
theorem replay_of_above (events : List ScopeEvent) (rooted : base ≠ [])
    (above : session.Above base) :
    ∃ next, session.replay events = .ok next ∧ next.Above base := by
  induction events generalizing session with
  | nil => exact ⟨session, rfl, above⟩
  | cons event events induction =>
      obtain ⟨next, stepped, above⟩ := step_of_above event rooted above
      rw [replay_cons, stepped]
      exact induction above

/-- What a check does at a node: it walks the tree from there and replays the events. -/
def visit (session : Session) (arena : Arena) (argumentsName : Name) (id : NodeId) :
    Except ScopeError Session :=
  session.replay (arena.walk (Check.pass arena argumentsName) id).events

end Check.Session

namespace Program

theorem check_of_interrupted {program : Program} {interner : Interner}
    {interruption : Interruption Empty} (ambient : Ambient)
    (interrupted : (program.scopeTrace interner.argumentsName).interruption = some interruption) :
    program.check ambient interner = .error (.ofInterruption interruption) := by
  have above : (ambient.session interner).Above [⟨0⟩] := rfl
  obtain ⟨next, replayed, _⟩ := Check.Session.replay_of_above
    (program.scopeTrace interner.argumentsName).events (List.cons_ne_nil _ _) above
  rw [check_eq]
  dsimp only
  rw [replayed, interrupted]
  rfl

theorem exists_hasOutline_of_check_eq_scope {program : Program} {ambient : Ambient}
    {interner : Interner} {reason : ScopeError}
    (failed : program.check ambient interner = .error (.scope reason)) :
    ∃ outline, program.HasOutline interner.argumentsName outline := by
  rw [exists_hasOutline_iff]
  cases ended : (program.scopeTrace interner.argumentsName).interruption with
  | none => rfl
  | some interruption =>
      rw [check_of_interrupted ambient ended] at failed
      cases interruption with
      | dangling handle => cases failed
      | cyclic => cases failed
      | refused refusal => cases refusal

theorem check_ne_mismatch (program : Program) (ambient : Ambient) (interner : Interner)
    (closing : ScopeHandle) (active : Option ScopeHandle) :
    program.check ambient interner ≠ .error (.scope (.mismatch closing active)) := by
  intro failed
  obtain ⟨outline, outlined⟩ := exists_hasOutline_of_check_eq_scope failed
  obtain ⟨name, _, same, _⟩ := firstFree?_of_check_eq_error outlined failed
  injection same with same
  exact ScopeError.ofUndefined_ne_mismatch interner name closing active same.symm

theorem declarations_of_hasOutline {program : Program} {argumentsName : Name} {outline : Outline}
    {node : Node} (outlined : program.HasOutline argumentsName outline)
    (found : program.arena.node program.root = .ok node) :
    (node.construct.declaresWithin → outline.declarations = []) ∧
    ∀ name params body, node.construct = .function (.declaration name params body) →
      outline.declarations = [] ∨
        ∃ own span, program.arena.bindingName? name = .ok (some (own, span)) ∧
          outline.declarations = [(own, span)] := by
  obtain ⟨depth, read⟩ := outlined
  rw [Arena.outlinePart] at read
  split at read
  case isFalse =>
    cases read
    exact ⟨fun _ => rfl, fun _ _ _ _ => Or.inl rfl⟩
  case isTrue =>
    cases depth with
    | zero => cases read
    | succ depth =>
        rw [Arena.outlineWithin, found] at read
        constructor
        · intro within
          exact Arena.declarations_of_declaresWithin within read
        · intro name params body declares
          exact Arena.declarations_of_declaration declares read

/-- Visiting a node never fails if the walk from there ends. The same scopes are open afterwards,
those outside the active one are as they were, and the active one has only been added to. It gains
no declaration from a function or clause that has a scope of its own, and from a function
declaration at most the name of the function. In particular no check leaves a scope out of turn. -/
theorem visit_extends_active_scope :
    (∀ (arena : Arena) (argumentsName : Name) (id : NodeId) (active : Scope) (outer : List Scope)
        (opened : Nat) (interner : Interner) (entered : List ScopeHandle),
      (arena.walk (Check.pass arena argumentsName) id).interruption = none →
      ∃ after later,
        (Check.Session.mk ⟨active :: outer, opened, interner⟩ entered).visit arena argumentsName
            id =
          .ok ⟨⟨after :: outer, later, interner⟩, entered⟩ ∧
        after.Extends active ∧
        ∀ node, arena.node id = .ok node →
          (node.construct.declaresWithin → after.declarations = active.declarations) ∧
          ∀ name params body,
            node.construct = .function (.declaration name params body) →
              after.declarations = active.declarations ∨
              ∃ own span, arena.bindingName? name = .ok (some (own, span)) ∧
                after.declarations = active.declarations.insertIfNew own span) ∧
    ∀ (program : Program) (ambient : Ambient) (interner : Interner) (closing : ScopeHandle)
        (current : Option ScopeHandle),
      program.check ambient interner ≠ .error (.scope (.mismatch closing current)) := by
  refine ⟨?_, check_ne_mismatch⟩
  intro arena argumentsName id active outer opened interner entered ended
  have ends : (scopeTrace ⟨arena, id⟩ argumentsName).interruption = none := ended
  obtain ⟨outline, outlined⟩ := exists_hasOutline_iff.mpr ends
  refine ⟨active.extend outline, opened + outline.scopeCount, ?_, active.extends_extend outline, ?_⟩
  · rw [Check.Session.visit]
    change (Check.Session.mk ⟨active :: outer, opened, interner⟩ entered).replay
      (scopeTrace ⟨arena, id⟩ argumentsName).events = _
    rw [scopeTrace_of_hasOutline outlined]
    exact Check.Session.replay_outline interner outline active outer opened entered
  · intro node found
    obtain ⟨within, declaring⟩ := declarations_of_hasOutline outlined found
    constructor
    · intro declaresWithin
      rw [Scope.declarations_extend, within declaresWithin, Occurrences.gather_nil]
    · intro name params body declares
      rcases declaring name params body declares with none | own
      · left
        rw [Scope.declarations_extend, none, Occurrences.gather_nil]
      · right
        obtain ⟨own, span, bound, only⟩ := own
        refine ⟨own, span, bound, ?_⟩
        rw [Scope.declarations_extend, only, Occurrences.gather_cons, Occurrences.gather_nil]

/-- The arrow function of `shadowed`, in a scope within another one, where `set` has been used. -/
theorem visit_of_arrow_function :
    (shadowed.arena.walk (Check.pass shadowed.arena Interner.initial.argumentsName)
        ⟨4⟩).interruption = none ∧
      ∃ after later,
        (Check.Session.mk
            ⟨[⟨⟨1⟩, ∅, (∅ : Occurrences).insertIfNew ⟨536870912⟩ (some ⟨24, 27⟩)⟩, ⟨⟨0⟩, ∅, ∅⟩], 2,
              Interner.initial⟩
            [⟨1⟩]).visit shadowed.arena Interner.initial.argumentsName ⟨4⟩ =
          .ok ⟨⟨[after, ⟨⟨0⟩, ∅, ∅⟩], later, Interner.initial⟩, [⟨1⟩]⟩ ∧
        after.handle = ⟨1⟩ ∧ after.declarations = ∅ ∧
        after.references.find? ⟨536870912⟩ = some (some ⟨24, 27⟩) := by
  have outlined : ∃ outline,
      (Program.mk shadowed.arena ⟨4⟩).HasOutline Interner.initial.argumentsName outline :=
    ⟨_, 3, rfl⟩
  have ended := exists_hasOutline_iff.mp outlined
  obtain ⟨after, later, visited, extended, declared⟩ := visit_extends_active_scope.1 shadowed.arena
    Interner.initial.argumentsName ⟨4⟩
    ⟨⟨1⟩, ∅, (∅ : Occurrences).insertIfNew ⟨536870912⟩ (some ⟨24, 27⟩)⟩ [⟨⟨0⟩, ∅, ∅⟩] 2
    Interner.initial [⟨1⟩] ended
  exact ⟨ended, after, later, visited, extended.handle, (declared _ rfl).1 rfl,
    extended.references _ _ rfl⟩

end Program

end Unbound
