import Unbound.Proofs.Scope.Nesting

/-!
# Handles of scopes

A handle is given out once and closes its scope at most once. Leaving a scope can fail in two ways:
one leaves everything as it was, the other closes the root and reports a name in it.
-/

set_option autoImplicit false

namespace Unbound

namespace ScopeChain

/-- Whether a scope is closed when the handle is left. It is closed even if a name in it turns out
not to be defined. -/
def accepts (chain : ScopeChain) (handle : ScopeHandle) : Bool :=
  match (chain.leave handle).1 with
  | .error (.mismatch _ _) => false
  | _ => true

/-- The handles that the calls are answered with, in the order in which they are given out. -/
def issued (chain : ScopeChain) : List ScopeCall → List ScopeHandle
  | [] => []
  | .enter :: calls => chain.enter.1 :: chain.enter.2.issued calls
  | call :: calls => (chain.perform call).issued calls

/-- The handles whose scopes the calls close, in the order of closing. -/
def closed (chain : ScopeChain) : List ScopeCall → List ScopeHandle
  | [] => []
  | .leave handle :: calls =>
      if chain.accepts handle then handle :: (chain.perform (.leave handle)).closed calls
      else (chain.perform (.leave handle)).closed calls
  | call :: calls => (chain.perform call).closed calls

variable {chain : ScopeChain} {handle : ScopeHandle}

theorem accepts_iff : chain.accepts handle ↔ chain.active? = some handle := by
  constructor
  · intro accepted
    apply by_contradiction
    intro other
    rw [accepts, chain.leave_of_ne handle other] at accepted
    cases accepted
  · intro active
    rw [accepts]
    rcases leave_cases active with root | inner
    · obtain ⟨root, _, _, left⟩ := root
      rw [left]
      split
      case h_1 closing current failed => exact absurd failed (freeVariables_ne_mismatch _ _)
      case h_2 => rfl
    · obtain ⟨scope, parent, rest, _, _, left⟩ := inner
      rw [left]

theorem leave_of_not_accepts (rejected : ¬ chain.accepts handle) :
    chain.leave handle = (.error (.mismatch handle chain.active?), chain) :=
  chain.leave_of_ne handle (accepts_iff.not.mp rejected)

theorem leave_of_generatedUndefined {text : String}
    (failed : (chain.leave handle).1 = .error (.generatedUndefined text)) :
    chain.handles = [handle] ∧ (chain.leave handle).2 = { chain with scopes := [] } := by
  have accepted : chain.accepts handle := by rw [accepts, failed]
  rcases leave_cases (accepts_iff.mp accepted) with root | inner
  · obtain ⟨root, only, same, left⟩ := root
    constructor
    · rw [handles, only, List.map_singleton, same]
    · rw [left]
  · obtain ⟨scope, parent, rest, _, _, left⟩ := inner
    rw [left] at failed
    cases failed

/-- Every call is an event to the handles, or none. -/
theorem nesting_perform (chain : ScopeChain) (call : ScopeCall) :
    (chain.perform call).nesting = chain.nesting ∨
      ∃ event, chain.nesting.event? call = some event ∧
        (chain.perform call).nesting = chain.nesting.step event := by
  cases amounts : chain.nesting.event? call with
  | none => exact Or.inl (congrArg nesting (perform_of_event?_eq_none amounts))
  | some event =>
      refine Or.inr ⟨event, rfl, ?_⟩
      rw [perform_of_event? amounts, nesting_apply]

theorem numbered_perform (numbered : chain.nesting.Numbered) (call : ScopeCall) :
    (chain.perform call).nesting.Numbered := by
  rcases chain.nesting_perform call with same | stepped
  · rw [same]
    exact numbered
  · obtain ⟨event, _, stepped⟩ := stepped
    rw [stepped]
    exact numbered.step event

theorem left_perform (left : chain.nesting.Left handle) (call : ScopeCall) :
    (chain.perform call).nesting.Left handle := by
  rcases chain.nesting_perform call with same | stepped
  · rw [same]
    exact left
  · obtain ⟨event, _, stepped⟩ := stepped
    rw [stepped]
    exact left.step event

theorem opened_le_perform (chain : ScopeChain) (call : ScopeCall) :
    chain.opened ≤ (chain.perform call).opened := by
  rcases chain.nesting_perform call with same | stepped
  · exact Nat.le_of_eq (congrArg Nesting.opened same).symm
  · obtain ⟨event, _, stepped⟩ := stepped
    have opened : (chain.perform call).opened = (chain.nesting.step event).opened :=
      congrArg Nesting.opened stepped
    rw [opened]
    exact chain.nesting.opened_le_step event

theorem opened_le_of_mem_issued {calls : List ScopeCall} (member : handle ∈ chain.issued calls) :
    chain.opened ≤ handle.number := by
  induction calls generalizing chain with
  | nil => cases member
  | cons call calls induction =>
      cases call with
      | enter =>
          rcases List.mem_cons.mp member with rfl | later
          · exact Nat.le_refl chain.opened
          · exact Nat.le_of_succ_le (induction later)
      | declare name span =>
          exact Nat.le_trans (chain.opened_le_perform (.declare name span)) (induction member)
      | reference name span =>
          exact Nat.le_trans (chain.opened_le_perform (.reference name span)) (induction member)
      | leave other =>
          exact Nat.le_trans (chain.opened_le_perform (.leave other)) (induction member)

theorem nodup_issued (chain : ScopeChain) (calls : List ScopeCall) :
    (chain.issued calls).Nodup := by
  induction calls generalizing chain with
  | nil => exact .nil
  | cons call calls induction =>
      cases call with
      | enter =>
          apply List.nodup_cons.mpr
          refine ⟨?_, induction chain.enter.2⟩
          intro again
          exact Nat.not_succ_le_self chain.opened (opened_le_of_mem_issued again)
      | declare name span => exact induction (chain.declare name span)
      | reference name span => exact induction (chain.reference name span)
      | leave other => exact induction (chain.leave other).2

theorem not_mem_closed_of_left {calls : List ScopeCall} (left : chain.nesting.Left handle) :
    handle ∉ chain.closed calls := by
  induction calls generalizing chain with
  | nil => exact List.not_mem_nil
  | cons call calls induction =>
      have later := induction (left_perform left call)
      cases call with
      | enter => exact later
      | declare name span => exact later
      | reference name span => exact later
      | leave other =>
          rw [closed]
          split
          case isFalse => exact later
          case isTrue accepted =>
            rw [List.mem_cons, not_or]
            refine ⟨?_, later⟩
            intro same
            rw [accepts_iff, ← same, ← head?_handles] at accepted
            exact left.2 (List.mem_of_mem_head? accepted)

theorem nodup_closed {calls : List ScopeCall} (numbered : chain.nesting.Numbered) :
    (chain.closed calls).Nodup := by
  induction calls generalizing chain with
  | nil => exact .nil
  | cons call calls induction =>
      have later := induction (numbered_perform numbered call)
      cases call with
      | enter => exact later
      | declare name span => exact later
      | reference name span => exact later
      | leave other =>
          rw [closed]
          split
          case isFalse => exact later
          case isTrue accepted =>
            have active := accepts_iff.mp accepted
            have left : (chain.perform (.leave other)).nesting.Left other := by
              rw [perform, nesting_leave active]
              exact numbered.left_step_leave (chain.head?_handles.trans active)
            exact List.nodup_cons.mpr ⟨not_mem_closed_of_left left, later⟩

theorem closed_append (chain : ScopeChain) (first second : List ScopeCall) :
    chain.closed (first ++ second) =
      chain.closed first ++ (first.foldl perform chain).closed second := by
  induction first generalizing chain with
  | nil => rfl
  | cons call first induction =>
      cases call with
      | leave other =>
          rw [List.cons_append, closed, closed, induction]
          split
          case isTrue => rfl
          case isFalse => rfl
      | _ => exact induction _

theorem numbered_afterCalls (interner : Interner) (calls : List ScopeCall) :
    (afterCalls interner calls).nesting.Numbered := by
  rw [afterCalls]
  have start : (empty interner).nesting.Numbered := Nesting.numbered_empty
  generalize empty interner = chain at start
  induction calls generalizing chain with
  | nil => exact start
  | cons call calls induction => exact induction _ (numbered_perform start call)

/-- After any calls the handles of the open scopes grow from the root inwards. No handle was given
out twice, none is accepted but that of the active scope, and none was accepted twice or is ever
accepted again. A rejected handle changes nothing. If a name in the root is not defined, the root is
closed all the same, and what remains is a chain without open scopes that goes on counting. -/
theorem handles_are_never_confused (interner : Interner) (calls : List ScopeCall) :
    ((afterCalls interner calls).handles.Pairwise fun inner outer =>
      outer.number < inner.number) ∧
    ((empty interner).issued calls).Nodup ∧
    (∀ handle, (afterCalls interner calls).accepts handle ↔
      (afterCalls interner calls).active? = some handle) ∧
    ((empty interner).closed calls).Nodup ∧
    (∀ handle ∈ (empty interner).closed calls, ¬ (afterCalls interner calls).accepts handle) ∧
    (∀ handle, ¬ (afterCalls interner calls).accepts handle →
      (afterCalls interner calls).leave handle =
        (.error (.mismatch handle (afterCalls interner calls).active?),
          afterCalls interner calls)) ∧
    ∀ handle text,
      ((afterCalls interner calls).leave handle).1 = .error (.generatedUndefined text) →
      (afterCalls interner calls).handles = [handle] ∧
        ((afterCalls interner calls).leave handle).2 =
          { afterCalls interner calls with scopes := [] } := by
  have numbered := numbered_afterCalls interner calls
  have start : (empty interner).nesting.Numbered := Nesting.numbered_empty
  refine ⟨numbered.falling, (empty interner).nodup_issued calls, fun handle => accepts_iff,
    nodup_closed start, ?_, ?_, ?_⟩
  · intro handle member accepted
    -- One more call to leave the scope would close it a second time.
    have distinct : ((empty interner).closed (calls ++ [.leave handle])).Nodup :=
      nodup_closed start
    rw [closed_append, ← afterCalls, closed, if_pos accepted, List.nodup_append] at distinct
    exact distinct.2.2 handle member handle List.mem_cons_self rfl
  · intro handle rejected
    exact leave_of_not_accepts rejected
  · intro handle text failed
    exact leave_of_generatedUndefined failed

/-- The second scope has been left when the third one takes its place; then it is left again, and
so are the third one and the root, where a name made up by a compiler pass is used. -/
def staleCalls : List ScopeCall :=
  [.enter, .reference ⟨1073741826⟩ none, .enter, .leave ⟨1⟩, .enter, .leave ⟨1⟩, .leave ⟨2⟩]

theorem handles_of_staleCalls :
    (empty .initial).issued staleCalls = [⟨0⟩, ⟨1⟩, ⟨2⟩] ∧
      (empty .initial).closed staleCalls = [⟨1⟩, ⟨2⟩] ∧
      (afterCalls .initial staleCalls).leave ⟨1⟩ =
        (.error (.mismatch ⟨1⟩ (some ⟨0⟩)), afterCalls .initial staleCalls) ∧
      ((afterCalls .initial staleCalls).leave ⟨0⟩).1 = .error (.generatedUndefined "undefined") ∧
      ((afterCalls .initial staleCalls).leave ⟨0⟩).2 = ⟨[], 3, .initial⟩ := by
  obtain ⟨_, _, _, _, closed, rejected, failing⟩ := handles_are_never_confused .initial staleCalls
  have stale : ⟨1⟩ ∈ (empty .initial).closed staleCalls := by decide
  have known : Interner.initial.lookup ⟨1073741826⟩ = .ok "undefined" := by decide +kernel
  have undefined : ((afterCalls .initial staleCalls).leave ⟨0⟩).1 =
      .error (.generatedUndefined "undefined") := by
    rw [← ScopeError.ofUndefined_of_lookup known]
    rfl
  exact ⟨rfl, rfl, rejected ⟨1⟩ (closed ⟨1⟩ stale), undefined, (failing _ _ undefined).2⟩

end ScopeChain

end Unbound
