import Unbound.Proofs.Scope.Rearrangement
import Unbound.Proofs.Resolution.Discipline

/-!
# The order in which a scope lists its uses

A table that is kept by hashing yields its entries in an order of its own. `Program.checkIn` is the
check with such an order, chosen freely for each scope. It succeeds exactly if the check does, and
the result is the same unless two names left in the root share their place.
-/

set_option autoImplicit false

namespace Unbound

/-- For every scope, the order in which its uses are gone through when it is left. -/
structure Enumeration where
  arrange : ScopeHandle → Occurrences → Occurrences
  rearranged : ∀ (handle : ScopeHandle) (uses : Occurrences), uses.Rearranged (arrange handle uses)

def Enumeration.reversed : Enumeration where
  arrange _ uses :=
    { entries := uses.entries.reverse
      distinct := by
        rw [List.map_reverse, List.nodup_reverse]
        exact uses.distinct }
  rearranged _ uses := (List.reverse_perm uses.entries).symm

def Enumeration.recorded : Enumeration where
  arrange _ uses := uses
  rearranged _ uses := .refl uses

def Scope.arranged (scope : Scope) (enumeration : Enumeration) : Scope :=
  { scope with references := enumeration.arrange scope.handle scope.references }

namespace ScopeChain

def arranged (chain : ScopeChain) (enumeration : Enumeration) : ScopeChain :=
  { chain with scopes := chain.scopes.modifyHead fun scope => scope.arranged enumeration }

/-- Leaves a scope as `leave` does, going through its uses in the order of the enumeration. -/
def leaveIn (enumeration : Enumeration) (chain : ScopeChain) (handle : ScopeHandle) :
    Except ScopeError (List FreeVariable) × ScopeChain :=
  (chain.arranged enumeration).leave handle

end ScopeChain

namespace Check.Session

def arranged (session : Session) (enumeration : Enumeration) : Session :=
  { session with chain := session.chain.arranged enumeration }

def stepIn (enumeration : Enumeration) (session : Session) : ScopeEvent → Except ScopeError Session
  | .leave => (session.arranged enumeration).step .leave
  | event => session.step event

def replayIn (enumeration : Enumeration) (session : Session) (events : List ScopeEvent) :
    Except ScopeError Session :=
  events.foldlM (stepIn enumeration) session

theorem arranged_recorded (session : Session) : session.arranged .recorded = session := by
  obtain ⟨⟨scopes, opened, interner⟩, entered⟩ := session
  cases scopes with
  | nil => rfl
  | cons scope outer => rfl

theorem replayIn_recorded (session : Session) (events : List ScopeEvent) :
    session.replayIn .recorded events = session.replay events := by
  have step : stepIn .recorded = Session.step := by
    funext session event
    cases event with
    | leave => exact congrArg (fun session => session.step .leave) session.arranged_recorded
    | _ => rfl
  rw [replayIn, replay, step]

structure Rearranged (left right : Session) : Prop where
  chain : left.chain.Rearranged right.chain
  entered : left.entered = right.entered

end Check.Session

theorem Scope.rearranged_arranged (scope : Scope) (enumeration : Enumeration) :
    scope.Rearranged (scope.arranged enumeration) :=
  ⟨rfl, rfl, enumeration.rearranged scope.handle scope.references⟩

theorem ScopeChain.Rearranged.arranged {left right : ScopeChain} (enumeration : Enumeration)
    (same : left.Rearranged right) : left.Rearranged (right.arranged enumeration) := by
  obtain ⟨leftScopes, leftOpened, leftInterner⟩ := left
  obtain ⟨rightScopes, rightOpened, rightInterner⟩ := right
  obtain ⟨scopes, opened, interner⟩ := same
  cases scopes with
  | nil => exact ⟨.nil, opened, interner⟩
  | cons active outer =>
      have arranged := active.trans (Scope.rearranged_arranged _ enumeration)
      exact ⟨.cons arranged outer, opened, interner⟩

theorem ScopeChain.Rearranged.leaveIn_root {root : Scope} {opened : Nat} {interner : Interner}
    {chain : ScopeChain} (enumeration : Enumeration)
    (same : (ScopeChain.mk [root] opened interner).Rearranged chain) :
    ∃ unresolved, root.unresolved.Rearranged unresolved ∧
      (chain.leaveIn enumeration root.handle).1 = freeVariables interner unresolved := by
  obtain ⟨scopes, later, other⟩ := chain
  cases same.interner
  obtain ⟨other, rest, sameRoot, nothing, rfl⟩ := List.forall₂_cons_left_iff.mp same.scopes
  cases nothing
  have arranged := sameRoot.trans (other.rearranged_arranged enumeration)
  refine ⟨_, arranged.unresolved, ?_⟩
  rw [arranged.handle]
  exact congrArg Prod.fst (ScopeChain.leave_root interner (other.arranged enumeration) later)

namespace Check.Session

variable {left right next : Session} (enumeration : Enumeration)

theorem step_leave (chain : ScopeChain) (handle : ScopeHandle) (entered : List ScopeHandle) :
    (Session.mk chain (handle :: entered)).step .leave =
      (chain.leave handle).1.map fun _ => ⟨(chain.leave handle).2, entered⟩ := by
  simp only [step]
  rcases chain.leave handle with ⟨outcome, after⟩
  cases outcome with
  | error failure => rfl
  | ok free => rfl

theorem step_leave_of_rearranged (same : left.Rearranged right)
    (stepped : left.step .leave = .ok next) :
    ∃ other, right.step .leave = .ok other ∧ next.Rearranged other := by
  obtain ⟨leftChain, leftEntered⟩ := left
  obtain ⟨rightChain, rightEntered⟩ := right
  obtain ⟨chain, entered⟩ := same
  cases entered
  cases leftEntered with
  | nil =>
      cases stepped
      exact ⟨_, rfl, chain, rfl⟩
  | cons handle entered =>
      obtain ⟨sameChain, sameOutcome⟩ := chain.leave handle
      rw [step_leave] at stepped
      rw [step_leave]
      cases outcome : (leftChain.leave handle).1 with
      | error failure =>
          rw [outcome] at stepped
          cases stepped
      | ok free =>
          rw [outcome] at stepped
          cases stepped
          obtain ⟨others, passed⟩ := sameOutcome.mp ⟨free, outcome⟩
          rw [passed]
          exact ⟨_, rfl, sameChain, rfl⟩

theorem stepIn_of_rearranged (event : ScopeEvent) (same : left.Rearranged right)
    (stepped : left.step event = .ok next) :
    ∃ other, right.stepIn enumeration event = .ok other ∧ next.Rearranged other := by
  cases event with
  | enter =>
      cases stepped
      refine ⟨_, rfl, same.chain.enter, ?_⟩
      rw [same.chain.opened, same.entered]
  | declare name span =>
      cases stepped
      exact ⟨_, rfl, same.chain.declare name span, same.entered⟩
  | reference name span =>
      cases stepped
      exact ⟨_, rfl, same.chain.reference name span, same.entered⟩
  | leave =>
      have arranged : left.Rearranged (right.arranged enumeration) :=
        ⟨same.chain.arranged enumeration, same.entered⟩
      exact step_leave_of_rearranged arranged stepped

theorem replayIn_of_rearranged (events : List ScopeEvent) (same : left.Rearranged right)
    (replayed : left.replay events = .ok next) :
    ∃ other, right.replayIn enumeration events = .ok other ∧ next.Rearranged other := by
  induction events generalizing left right with
  | nil =>
      cases replayed
      exact ⟨right, rfl, same⟩
  | cons event events induction =>
      rw [replay_cons] at replayed
      cases stepped : left.step event with
      | error failure =>
          rw [stepped] at replayed
          cases replayed
      | ok middle =>
          rw [stepped] at replayed
          obtain ⟨otherMiddle, otherStepped, sameMiddle⟩ :=
            stepIn_of_rearranged enumeration event same stepped
          obtain ⟨other, otherReplayed, sameNext⟩ := induction sameMiddle replayed
          refine ⟨other, ?_, sameNext⟩
          rw [replayIn, List.foldlM_cons, otherStepped]
          exact otherReplayed

end Check.Session

namespace Ambient

/-- No two names have their first free uses at the same place, and no two have theirs without one.
-/
def DistinctPlaces (ambient : Ambient) (outline : Outline) : Prop :=
  ∀ left right first second, ambient.firstFree? outline left = some first →
    ambient.firstFree? outline right = some second → first.span = second.span → left = right

theorem distinctPlaces_iff {ambient : Ambient} {outline : Outline} :
    ambient.DistinctPlaces outline ↔
      (((∅ : Occurrences).gather (ambient.around outline).pending).entries.map Prod.snd).Nodup := by
  rw [List.nodup_map_iff_inj_on (List.Nodup.of_map _ (Occurrences.distinct _))]
  constructor
  · intro distinct left inLeft right inRight same
    obtain ⟨first, firstLeft, placeLeft⟩ := mem_entries_pending_iff.mp inLeft
    obtain ⟨second, firstRight, placeRight⟩ := mem_entries_pending_iff.mp inRight
    apply Prod.ext
    · apply distinct left.1 right.1 first second firstLeft firstRight
      rw [placeLeft, placeRight, same]
    · exact same
  · intro distinct left right first second firstLeft firstRight same
    have inLeft := mem_entries_pending_iff.mpr ⟨first, firstLeft, rfl⟩
    have inRight := mem_entries_pending_iff.mpr ⟨second, firstRight, rfl⟩
    exact congrArg Prod.fst (distinct _ inLeft _ inRight same)

end Ambient

namespace Program

/-- The check, where every scope goes through its uses in the order of the enumeration. -/
def checkIn (enumeration : Enumeration) (program : Program) (ambient : Ambient)
    (interner : Interner) : Except CheckError (List FreeVariable) := do
  let (root, chain) := (ScopeChain.empty interner).enter
  let chain := ambient.chain.foldl (fun chain name => chain.declare name none) chain
  let trace := program.scopeTrace interner.argumentsName
  let session ← ((⟨chain, []⟩ : Check.Session).replayIn enumeration trace.events).mapError .scope
  match trace.interruption with
  | some interruption => .error (.ofInterruption interruption)
  | none => (session.chain.leaveIn enumeration root).1.mapError .scope

variable {program : Program} {interner : Interner} {outline : Outline}

theorem checkIn_eq (enumeration : Enumeration) (program : Program) (ambient : Ambient)
    (interner : Interner) :
    program.checkIn enumeration ambient interner =
      (do
        let trace := program.scopeTrace interner.argumentsName
        let session ← ((ambient.session interner).replayIn enumeration trace.events).mapError .scope
        match trace.interruption with
        | some interruption => .error (.ofInterruption interruption)
        | none => (session.chain.leaveIn enumeration ⟨0⟩).1.mapError .scope) := by
  rw [Ambient.session, ← ambient.foldl_declare]
  rfl

theorem checkIn_of_interrupted {interruption : Interruption Empty} (enumeration : Enumeration)
    (ambient : Ambient)
    (interrupted : (program.scopeTrace interner.argumentsName).interruption = some interruption) :
    program.checkIn enumeration ambient interner = .error (.ofInterruption interruption) := by
  have above : (ambient.session interner).Above [⟨0⟩] := rfl
  obtain ⟨next, replayed, _⟩ := Check.Session.replay_of_above
    (program.scopeTrace interner.argumentsName).events (List.cons_ne_nil _ _) above
  obtain ⟨other, otherReplayed, _⟩ := Check.Session.replayIn_of_rearranged enumeration _
    ⟨.refl _, rfl⟩ replayed
  rw [checkIn_eq]
  dsimp only
  rw [otherReplayed, interrupted]
  rfl

theorem checkIn_recorded (program : Program) (ambient : Ambient) (interner : Interner) :
    program.checkIn .recorded ambient interner = program.check ambient interner := by
  rw [checkIn_eq, check_eq]
  dsimp only
  rw [Check.Session.replayIn_recorded]
  cases (ambient.session interner).replay (program.scopeTrace interner.argumentsName).events with
  | error reason => rfl
  | ok session =>
      cases (program.scopeTrace interner.argumentsName).interruption with
      | some interruption => rfl
      | none =>
          have arranged : session.chain.arranged .recorded = session.chain :=
            congrArg Check.Session.chain session.arranged_recorded
          exact congrArg (fun chain => (chain.leave ⟨0⟩).1.mapError CheckError.scope) arranged

/-- Whatever the orders, the names left in the root are the pending ones, in some order. -/
theorem checkIn_of_hasOutline (enumeration : Enumeration) (ambient : Ambient)
    (outlined : program.HasOutline interner.argumentsName outline) :
    ∃ unresolved : Occurrences,
      ((∅ : Occurrences).gather (ambient.around outline).pending).Rearranged unresolved ∧
        program.checkIn enumeration ambient interner =
          (freeVariables interner unresolved).mapError .scope := by
  obtain ⟨other, replayed, same⟩ := Check.Session.replayIn_of_rearranged enumeration outline.events
    ⟨.refl _, rfl⟩ (ambient.replay_session interner outline)
  obtain ⟨unresolved, left, closed⟩ := same.chain.leaveIn_root enumeration
  have pending := Scope.unresolved_gather ⟨0⟩ (Outline.next ambient.outline outline).declarations
    (Outline.next ambient.outline outline).pending
  refine ⟨unresolved, pending ▸ left, ?_⟩
  rw [checkIn_eq, scopeTrace_of_hasOutline outlined]
  dsimp only
  rw [replayed]
  exact congrArg (Except.mapError CheckError.scope) closed

theorem exists_checkIn_eq_ok_iff (program : Program) (ambient : Ambient) (interner : Interner)
    (enumeration : Enumeration) :
    (∃ free, program.checkIn enumeration ambient interner = .ok free) ↔
      ∃ free, program.check ambient interner = .ok free := by
  cases ended : (program.scopeTrace interner.argumentsName).interruption with
  | some interruption =>
      rw [checkIn_of_interrupted enumeration ambient ended, check_of_interrupted ambient ended]
  | none =>
      obtain ⟨outline, outlined⟩ := exists_hasOutline_iff.mpr ended
      obtain ⟨unresolved, rearranged, checked⟩ := checkIn_of_hasOutline enumeration ambient outlined
      rw [checked, check_of_hasOutline ambient outlined]
      simp only [CheckError.mapError_scope_eq_ok_iff, exists_freeVariables_eq_ok_iff,
        List.Perm.mem_iff rearranged]

/-- Whatever the orders in which scopes go through their uses, the check succeeds or fails alike.
Its result is the same unless two free names share a place or have none, and a report is always
sorted by places, with no name in it twice. -/
theorem check_ignores_enumeration (program : Program) (ambient : Ambient) (interner : Interner)
    (enumeration : Enumeration) :
    ((∃ free, program.checkIn enumeration ambient interner = .ok free) ↔
      ∃ free, program.check ambient interner = .ok free) ∧
    (∀ outline, program.HasOutline interner.argumentsName outline →
      ambient.DistinctPlaces outline →
      program.checkIn enumeration ambient interner = program.check ambient interner) ∧
    ((∀ outline, ¬ program.HasOutline interner.argumentsName outline) →
      program.checkIn enumeration ambient interner = program.check ambient interner) ∧
    ∀ free, program.checkIn enumeration ambient interner = .ok free →
      (free.map FreeVariable.name).Nodup ∧
        free.Pairwise fun left right =>
          left.span.start < right.span.start ∨
            left.span.start = right.span.start ∧ left.span.stop ≤ right.span.stop := by
  refine ⟨exists_checkIn_eq_ok_iff program ambient interner enumeration, ?_, ?_, ?_⟩
  · intro outline outlined distinct
    obtain ⟨unresolved, rearranged, checked⟩ := checkIn_of_hasOutline enumeration ambient outlined
    have same :=
      freeVariables_eq_of_perm interner rearranged (Ambient.distinctPlaces_iff.mp distinct)
    rw [checked, check_of_hasOutline ambient outlined, same]
  · intro endless
    cases ended : (program.scopeTrace interner.argumentsName).interruption with
    | none =>
        obtain ⟨outline, outlined⟩ := exists_hasOutline_iff.mpr ended
        exact absurd outlined (endless outline)
    | some interruption =>
        rw [checkIn_of_interrupted enumeration ambient ended, check_of_interrupted ambient ended]
  · intro free passed
    obtain ⟨found, passes⟩ :=
      (exists_checkIn_eq_ok_iff program ambient interner enumeration).mp ⟨free, passed⟩
    obtain ⟨outline, outlined⟩ := exists_hasOutline_of_check_eq_ok passes
    obtain ⟨unresolved, _, checked⟩ := checkIn_of_hasOutline enumeration ambient outlined
    rw [checked, CheckError.mapError_scope_eq_ok_iff] at passed
    refine ⟨nodup_of_freeVariables_eq_ok passed, ?_⟩
    apply (pairwise_of_freeVariables_eq_ok passed).imp
    intro left right precedes
    exact Span.precedes_iff.mp precedes

/-- The root of `shadowed` holds two names. Backwards they come in the wrong order, until they are
sorted. -/
theorem check_of_shadowed_backwards :
    ∃ outline, shadowed.HasOutline Interner.initial.argumentsName outline ∧
      (∅ : Ambient).DistinctPlaces outline ∧
      shadowed.checkIn .reversed ∅ Interner.initial =
        .ok [⟨⟨1073741826⟩, ⟨13, 22⟩⟩, ⟨⟨536870912⟩, ⟨24, 27⟩⟩] := by
  have outlined : ∃ outline, shadowed.HasOutline Interner.initial.argumentsName outline ∧
      (∅ : Ambient).DistinctPlaces outline :=
    ⟨_, ⟨5, rfl⟩, Ambient.distinctPlaces_iff.mpr (by decide +kernel)⟩
  obtain ⟨outline, outlined, distinct⟩ := outlined
  have same := (check_ignores_enumeration shadowed ∅ Interner.initial .reversed).2.1 outline
    outlined distinct
  rw [check_shadowed] at same
  exact ⟨outline, outlined, distinct, same⟩

end Program

end Unbound
