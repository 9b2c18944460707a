import Unbound.Proofs.Scope.Gathering
import Unbound.Proofs.Resolution.Reading

/-!
# Replaying an outline on a chain of scopes

Visiting a piece of a program adds to the active scope what is declared in it directly and the uses
that no scope within it declares, and changes nothing else.
-/

set_option autoImplicit false

namespace Unbound

namespace Outline

/-- What the scope in which the outline stands records as declared. -/
def declarations : Outline → List (Name × Option Span)
  | .nothing => []
  | .use _ _ => []
  | .declare name span => if name.isEmpty then [] else [(name, span)]
  | .next first second => first.declarations ++ second.declarations
  | .scope _ => []

/-- The uses that no scope within the outline declares, in the order of the walk. -/
def pending : Outline → List (Name × Option Span)
  | .nothing => []
  | .use name span => [(name, span)]
  | .declare _ _ => []
  | .next first second => first.pending ++ second.pending
  | .scope inner => inner.pending.filter fun use => use.1 ∉ inner.declarations.map Prod.fst

def scopeCount : Outline → Nat
  | .nothing => 0
  | .use _ _ => 0
  | .declare _ _ => 0
  | .next first second => first.scopeCount + second.scopeCount
  | .scope inner => inner.scopeCount + 1

end Outline

def Scope.extend (scope : Scope) (outline : Outline) : Scope :=
  { scope with
    declarations := scope.declarations.gather outline.declarations
    references := scope.references.gather outline.pending }

namespace ScopeChain

variable (interner : Interner)

theorem declare_active (scope : Scope) (outer : List Scope) (opened : Nat) (name : Name)
    (span : Option Span) :
    (ScopeChain.mk (scope :: outer) opened interner).declare name span =
      ⟨scope.extend (.declare name span) :: outer, opened, interner⟩ := by
  rw [declare, Scope.extend, Outline.declarations, Outline.pending]
  split
  case isTrue => rfl
  case isFalse => rfl

theorem leave_inner (scope parent : Scope) (rest : List Scope) (opened : Nat) :
    (ScopeChain.mk (scope :: parent :: rest) opened interner).leave scope.handle =
      (.ok [], ⟨parent.promote scope :: rest, opened, interner⟩) := by
  simp only [leave, if_true]

theorem leave_root (scope : Scope) (opened : Nat) :
    (ScopeChain.mk [scope] opened interner).leave scope.handle =
      (freeVariables interner scope.unresolved, ⟨[], opened, interner⟩) := by
  simp only [leave, if_true]

end ScopeChain

namespace Scope

theorem extend_next (scope : Scope) (first second : Outline) :
    scope.extend (.next first second) = (scope.extend first).extend second := by
  simp only [extend, Outline.declarations, Outline.pending, Occurrences.gather_append]

/-- Handing outwards what an inner scope leaves unresolved is visiting that scope. -/
theorem promote_extend (outer : Scope) (handle : ScopeHandle) (inner : Outline) :
    outer.promote ((Scope.mk handle ∅ ∅).extend inner) = outer.extend (.scope inner) :=
  promote_gather outer handle inner.declarations inner.pending

end Scope

namespace Check.Session

variable (interner : Interner)

theorem replay_append (session : Session) (first second : List ScopeEvent) :
    session.replay (first ++ second) =
      (session.replay first).bind fun next => next.replay second :=
  List.foldlM_append

theorem replay_cons (session : Session) (event : ScopeEvent) (events : List ScopeEvent) :
    session.replay (event :: events) =
      (session.step event).bind fun next => next.replay events :=
  List.foldlM_cons

theorem step_leave_inner (scope parent : Scope) (rest : List Scope) (opened : Nat)
    (entered : List ScopeHandle) :
    (Session.mk ⟨scope :: parent :: rest, opened, interner⟩ (scope.handle :: entered)).step .leave =
      .ok ⟨⟨parent.promote scope :: rest, opened, interner⟩, entered⟩ := by
  simp only [step, ScopeChain.leave_inner]

theorem replay_outline (outline : Outline) (scope : Scope) (outer : List Scope) (opened : Nat)
    (entered : List ScopeHandle) :
    (Session.mk ⟨scope :: outer, opened, interner⟩ entered).replay outline.events =
      .ok ⟨⟨scope.extend outline :: outer, opened + outline.scopeCount, interner⟩, entered⟩ := by
  induction outline generalizing scope outer opened entered with
  | nothing => rfl
  | use name span => rfl
  | declare name span =>
      rw [Outline.events, replay_cons, step, ScopeChain.declare_active]
      rfl
  | next first second visitFirst visitSecond =>
      rw [Outline.events, replay_append, visitFirst]
      change (Session.mk _ entered).replay second.events = _
      rw [visitSecond, Scope.extend_next, Outline.scopeCount, Nat.add_assoc]
  | scope inner visitInner =>
      -- The inner visit starts from an empty scope, which is closed into the one around it.
      let fresh : Scope := ⟨⟨opened⟩, ∅, ∅⟩
      have visited := visitInner fresh (scope :: outer) (opened + 1) (⟨opened⟩ :: entered)
      have left := step_leave_inner interner (fresh.extend inner) scope outer
        (opened + 1 + inner.scopeCount) entered
      have count : opened + 1 + inner.scopeCount = opened + (inner.scopeCount + 1) := by omega
      rw [Scope.promote_extend, count] at left
      rw [Outline.events, replay_cons]
      change (Session.mk ⟨fresh :: scope :: outer, opened + 1, interner⟩
        (⟨opened⟩ :: entered)).replay _ = _
      rw [replay_append, visited, count]
      change (Session.mk _ _).replay [.leave] = _
      rw [replay_cons]
      change (Session.step ⟨_, (fresh.extend inner).handle :: entered⟩ .leave).bind _ = _
      rw [left]
      rfl

end Check.Session

namespace Ambient

theorem events_outline (ambient : Ambient) :
    ambient.outline.events = ambient.chain.map fun name => .declare name none := by
  rw [outline_eq_foldr_chain]
  induction ambient.chain with
  | nil => rfl
  | cons name names induction =>
      rw [List.foldr_cons, Outline.events, induction]
      rfl

theorem replay_outline (ambient : Ambient) (chain : ScopeChain) :
    (Check.Session.mk chain []).replay ambient.outline.events =
      .ok ⟨ambient.chain.foldl (fun chain name => chain.declare name none) chain, []⟩ := by
  rw [events_outline]
  induction ambient.chain generalizing chain with
  | nil => rfl
  | cons name names induction =>
      rw [List.map_cons, Check.Session.replay_cons, List.foldl_cons]
      exact induction (chain.declare name none)

theorem foldl_declare (ambient : Ambient) (scope : Scope) (opened : Nat) (interner : Interner) :
    ambient.chain.foldl (fun chain name => chain.declare name none)
        (ScopeChain.mk [scope] opened interner) =
      ⟨[scope.extend ambient.outline], opened + ambient.outline.scopeCount, interner⟩ := by
  have asDeclared := ambient.replay_outline ⟨[scope], opened, interner⟩
  rw [Check.Session.replay_outline] at asDeclared
  exact (congrArg Check.Session.chain (Except.ok.inj asDeclared)).symm

def session (ambient : Ambient) (interner : Interner) : Check.Session :=
  ⟨⟨[(Scope.mk ⟨0⟩ ∅ ∅).extend ambient.outline], 1 + ambient.outline.scopeCount, interner⟩, []⟩

theorem replay_session (ambient : Ambient) (interner : Interner) (outline : Outline) :
    (ambient.session interner).replay outline.events =
      .ok ⟨⟨[(Scope.mk ⟨0⟩ ∅ ∅).extend (.next ambient.outline outline)],
        1 + ambient.outline.scopeCount + outline.scopeCount, interner⟩, []⟩ := by
  rw [session, Check.Session.replay_outline, Scope.extend_next]

end Ambient

namespace CheckError

variable {Result : Type} {outcome : Except ScopeError Result}

theorem mapError_scope_eq_ok_iff {result : Result} :
    outcome.mapError scope = .ok result ↔ outcome = .ok result := by
  cases outcome with
  | error reason => simp [Except.mapError]
  | ok other => simp [Except.mapError]

theorem mapError_scope_eq_error_iff {failure : CheckError} :
    outcome.mapError scope = .error failure ↔
      ∃ reason, failure = .scope reason ∧ outcome = .error reason := by
  cases outcome with
  | error reason => simp [Except.mapError, eq_comm]
  | ok other => simp [Except.mapError]

end CheckError

namespace Program

theorem check_eq (program : Program) (ambient : Ambient) (interner : Interner) :
    program.check ambient interner =
      (do
        let trace := program.scopeTrace interner.argumentsName
        let session ← ((ambient.session interner).replay trace.events).mapError .scope
        match trace.interruption with
        | some interruption => .error (.ofInterruption interruption)
        | none => (session.chain.leave ⟨0⟩).1.mapError .scope) := by
  rw [Ambient.session, ← ambient.foldl_declare]
  rfl

theorem check_of_hasOutline {program : Program} {interner : Interner} {outline : Outline}
    (ambient : Ambient) (outlined : program.HasOutline interner.argumentsName outline) :
    program.check ambient interner =
      (freeVariables interner ((∅ : Occurrences).gather (ambient.around outline).pending)).mapError
        .scope := by
  let all : Scope := (Scope.mk ⟨0⟩ ∅ ∅).extend (.next ambient.outline outline)
  have closed := ScopeChain.leave_root interner all
    (1 + ambient.outline.scopeCount + outline.scopeCount)
  have pending : all.unresolved = (∅ : Occurrences).gather (ambient.around outline).pending :=
    Scope.unresolved_gather _ _ _
  rw [check_eq, scopeTrace_of_hasOutline outlined]
  dsimp only
  rw [ambient.replay_session]
  change ((ScopeChain.mk [all] _ _).leave all.handle).1.mapError CheckError.scope = _
  rw [closed, pending]

end Program

end Unbound
