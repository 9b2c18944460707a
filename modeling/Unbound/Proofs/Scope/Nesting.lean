import Unbound.Proofs.Resolution.Discipline

/-!
# Which scopes are open

Handles are numbered in the order of entering, so those of the open scopes grow from the root
inwards. A call to leave a scope is an event if the handle is that of the active scope, and
otherwise none.
-/

set_option autoImplicit false

namespace Unbound

/-- The handles of the open scopes, the active one first, and how many scopes were ever opened. -/
structure Nesting where
  handles : List ScopeHandle
  opened : Nat
deriving DecidableEq, Repr

namespace Nesting

def empty : Nesting := ⟨[], 0⟩

def step (nesting : Nesting) : ScopeEvent → Nesting
  | .enter => ⟨⟨nesting.opened⟩ :: nesting.handles, nesting.opened + 1⟩
  | .leave => { nesting with handles := nesting.handles.tail }
  | .declare _ _ => nesting
  | .reference _ _ => nesting

def after (nesting : Nesting) (events : List ScopeEvent) : Nesting := events.foldl step nesting

/-- Handles grow from the root inwards, and all of them have been given out. -/
structure Numbered (nesting : Nesting) : Prop where
  falling : nesting.handles.Pairwise fun inner outer => outer.number < inner.number
  given : ∀ handle ∈ nesting.handles, handle.number < nesting.opened

/-- The scope has been opened, and it has been left since. -/
def Left (nesting : Nesting) (handle : ScopeHandle) : Prop :=
  handle.number < nesting.opened ∧ handle ∉ nesting.handles

variable {nesting : Nesting}

theorem after_append (nesting : Nesting) (first second : List ScopeEvent) :
    nesting.after (first ++ second) = (nesting.after first).after second :=
  List.foldl_append

theorem after_declares (nesting : Nesting) (names : List Name) :
    nesting.after (names.map fun name => .declare name none) = nesting := by
  induction names with
  | nil => rfl
  | cons name names induction => exact induction

theorem numbered_empty : empty.Numbered where
  falling := .nil
  given _ member := by cases member

theorem Numbered.step (numbered : nesting.Numbered) (event : ScopeEvent) :
    (nesting.step event).Numbered := by
  cases event with
  | enter =>
      constructor
      · exact List.pairwise_cons.mpr ⟨numbered.given, numbered.falling⟩
      · intro handle member
        rcases List.mem_cons.mp member with rfl | outer
        · exact Nat.lt_succ_self nesting.opened
        · exact Nat.lt_succ_of_lt (numbered.given handle outer)
  | leave =>
      constructor
      · exact numbered.falling.sublist (List.tail_sublist nesting.handles)
      · intro handle member
        exact numbered.given handle (List.mem_of_mem_tail member)
  | declare name span => exact numbered
  | reference name span => exact numbered

theorem opened_le_step (nesting : Nesting) (event : ScopeEvent) :
    nesting.opened ≤ (nesting.step event).opened := by
  cases event with
  | enter => exact Nat.le_succ nesting.opened
  | _ => exact Nat.le_refl nesting.opened

theorem opened_le_after (nesting : Nesting) (events : List ScopeEvent) :
    nesting.opened ≤ (nesting.after events).opened := by
  induction events generalizing nesting with
  | nil => exact Nat.le_refl nesting.opened
  | cons event events induction =>
      exact Nat.le_trans (nesting.opened_le_step event) (induction (nesting.step event))

theorem Left.step {handle : ScopeHandle} (left : nesting.Left handle) (event : ScopeEvent) :
    (nesting.step event).Left handle := by
  obtain ⟨given, closed⟩ := left
  refine ⟨Nat.lt_of_lt_of_le given (nesting.opened_le_step event), ?_⟩
  cases event with
  | enter =>
      intro member
      rcases List.mem_cons.mp member with rfl | outer
      · exact Nat.lt_irrefl _ given
      · exact closed outer
  | leave => exact fun member => closed (List.mem_of_mem_tail member)
  | declare name span => exact closed
  | reference name span => exact closed

theorem Left.after {handle : ScopeHandle} (left : nesting.Left handle)
    (events : List ScopeEvent) : (nesting.after events).Left handle := by
  induction events generalizing nesting with
  | nil => exact left
  | cons event events induction => exact induction (left.step event)

/-- A scope that has been opened and is open later has been open all the time. -/
theorem mem_handles_of_mem_handles_after {handle : ScopeHandle}
    (given : handle.number < nesting.opened) {events : List ScopeEvent}
    (later : handle ∈ (nesting.after events).handles) : handle ∈ nesting.handles := by
  by_contra closed
  exact (Left.after ⟨given, closed⟩ events).2 later

theorem Numbered.left_step_leave {handle : ScopeHandle} (numbered : nesting.Numbered)
    (active : nesting.handles.head? = some handle) : (nesting.step .leave).Left handle := by
  obtain ⟨handles, opened⟩ := nesting
  obtain ⟨outer, rfl⟩ := List.head?_eq_some_iff.mp active
  refine ⟨numbered.given handle List.mem_cons_self, ?_⟩
  intro member
  exact Nat.lt_irrefl _ ((List.pairwise_cons.mp numbered.falling).1 handle member)

end Nesting

inductive ScopeCall where
  | enter
  | declare (name : Name) (span : Option Span)
  | reference (name : Name) (span : Option Span)
  | leave (handle : ScopeHandle)
deriving DecidableEq, Repr

namespace Nesting

/-- What a call comes to where these scopes are open. A call to leave a scope that is not the active
one is no event. -/
def event? (nesting : Nesting) : ScopeCall → Option ScopeEvent
  | .enter => some .enter
  | .declare name span => some (.declare name span)
  | .reference name span => some (.reference name span)
  | .leave handle => if nesting.handles.head? = some handle then some .leave else none

def eventsOf (nesting : Nesting) : List ScopeCall → List ScopeEvent
  | [] => []
  | call :: calls =>
      match nesting.event? call with
      | none => nesting.eventsOf calls
      | some event => event :: (nesting.step event).eventsOf calls

end Nesting

namespace ScopeChain

def nesting (chain : ScopeChain) : Nesting := ⟨chain.handles, chain.opened⟩

def apply (chain : ScopeChain) : ScopeEvent → ScopeChain
  | .enter => chain.enter.2
  | .declare name span => chain.declare name span
  | .reference name span => chain.reference name span
  | .leave =>
      match chain.active? with
      | none => chain
      | some handle => (chain.leave handle).2

def applyAll (chain : ScopeChain) (events : List ScopeEvent) : ScopeChain :=
  events.foldl apply chain

theorem applyAll_append (chain : ScopeChain) (first second : List ScopeEvent) :
    chain.applyAll (first ++ second) = (chain.applyAll first).applyAll second :=
  List.foldl_append

theorem head?_handles (chain : ScopeChain) : chain.nesting.handles.head? = chain.active? :=
  List.head?_map

theorem leave_cases {chain : ScopeChain} {handle : ScopeHandle}
    (active : chain.active? = some handle) :
    (∃ root, chain.scopes = [root] ∧ root.handle = handle ∧
      chain.leave handle =
        (freeVariables chain.interner root.unresolved, { chain with scopes := [] })) ∨
    ∃ scope parent rest, chain.scopes = scope :: parent :: rest ∧ scope.handle = handle ∧
      chain.leave handle = (.ok [], { chain with scopes := parent.promote scope :: rest }) := by
  obtain ⟨scopes, opened, interner⟩ := chain
  cases scopes with
  | nil => cases active
  | cons scope outer =>
      cases active
      cases outer with
      | nil => exact Or.inl ⟨scope, rfl, rfl, leave_root interner scope opened⟩
      | cons parent rest =>
          have left := leave_inner interner scope parent rest opened
          exact Or.inr ⟨scope, parent, rest, rfl, rfl, left⟩

@[simp] theorem opened_declare (chain : ScopeChain) (name : Name) (span : Option Span) :
    (chain.declare name span).opened = chain.opened := by
  obtain ⟨scopes, opened, interner⟩ := chain
  rw [declare]
  split
  case isTrue => rfl
  case isFalse => cases scopes <;> rfl

@[simp] theorem opened_reference (chain : ScopeChain) (name : Name) (span : Option Span) :
    (chain.reference name span).opened = chain.opened := by
  obtain ⟨scopes, opened, interner⟩ := chain
  cases scopes <;> rfl

theorem nesting_leave {chain : ScopeChain} {handle : ScopeHandle}
    (active : chain.active? = some handle) :
    (chain.leave handle).2.nesting = chain.nesting.step .leave := by
  rcases leave_cases active with root | inner
  · obtain ⟨root, only, _, left⟩ := root
    rw [left, nesting, nesting, handles, handles, only]
    rfl
  · obtain ⟨scope, parent, rest, open', _, left⟩ := inner
    rw [left, nesting, nesting, handles, handles, open']
    rfl

theorem nesting_apply (chain : ScopeChain) (event : ScopeEvent) :
    (chain.apply event).nesting = chain.nesting.step event := by
  cases event with
  | enter => rfl
  | declare name span =>
      rw [apply, nesting, handles_declare, opened_declare]
      rfl
  | reference name span =>
      rw [apply, nesting, handles_reference, opened_reference]
      rfl
  | leave =>
      rw [apply]
      cases active : chain.active? with
      | some handle => exact nesting_leave active
      | none =>
          have nothing : chain.nesting.handles = [] := by
            rw [← List.head?_eq_none_iff, head?_handles, active]
          rw [Nesting.step, nothing]
          exact congrArg (Nesting.mk · chain.opened) nothing

theorem nesting_applyAll (chain : ScopeChain) (events : List ScopeEvent) :
    (chain.applyAll events).nesting = chain.nesting.after events := by
  induction events generalizing chain with
  | nil => rfl
  | cons event events induction =>
      rw [applyAll, List.foldl_cons, ← applyAll, induction, nesting_apply]
      rfl

def perform (chain : ScopeChain) : ScopeCall → ScopeChain
  | .enter => chain.enter.2
  | .declare name span => chain.declare name span
  | .reference name span => chain.reference name span
  | .leave handle => (chain.leave handle).2

def afterCalls (interner : Interner) (calls : List ScopeCall) : ScopeChain :=
  calls.foldl perform (empty interner)

/-- No call puts other texts in the place of those given at the start. -/
theorem interner_perform (chain : ScopeChain) (call : ScopeCall) :
    (chain.perform call).interner = chain.interner := by
  obtain ⟨scopes, opened, interner⟩ := chain
  cases call with
  | enter => rfl
  | declare name span =>
      rw [perform, declare]
      split
      case isTrue => rfl
      case isFalse => cases scopes <;> rfl
  | reference name span => cases scopes <;> rfl
  | leave handle =>
      cases scopes with
      | nil => rfl
      | cons scope outer =>
          rw [perform, leave]
          dsimp only
          split
          case isTrue => cases outer <;> rfl
          case isFalse => rfl

theorem interner_afterCalls (interner : Interner) (calls : List ScopeCall) :
    (afterCalls interner calls).interner = interner :=
  List.foldlRecOn (motive := fun chain : ScopeChain => chain.interner = interner) calls perform rfl
    fun chain same call _ => (chain.interner_perform call).trans same

theorem perform_of_event? {chain : ScopeChain} {call : ScopeCall} {event : ScopeEvent}
    (amounts : chain.nesting.event? call = some event) :
    chain.perform call = chain.apply event := by
  cases call with
  | enter =>
      cases amounts
      rfl
  | declare name span =>
      cases amounts
      rfl
  | reference name span =>
      cases amounts
      rfl
  | leave handle =>
      rw [Nesting.event?, head?_handles] at amounts
      split at amounts
      case isFalse => cases amounts
      case isTrue active =>
        cases amounts
        rw [perform, apply, active]

/-- A call that is no event changes nothing. -/
theorem perform_of_event?_eq_none {chain : ScopeChain} {call : ScopeCall}
    (nothing : chain.nesting.event? call = none) : chain.perform call = chain := by
  cases call with
  | enter => cases nothing
  | declare name span => cases nothing
  | reference name span => cases nothing
  | leave handle =>
      rw [Nesting.event?, head?_handles] at nothing
      split at nothing
      case isTrue => cases nothing
      case isFalse other => rw [perform, chain.leave_of_ne handle other]

theorem foldl_perform (chain : ScopeChain) (calls : List ScopeCall) :
    calls.foldl perform chain = chain.applyAll (chain.nesting.eventsOf calls) := by
  induction calls generalizing chain with
  | nil => rfl
  | cons call calls induction =>
      rw [List.foldl_cons, induction, Nesting.eventsOf]
      cases amounts : chain.nesting.event? call with
      | none => rw [perform_of_event?_eq_none amounts]
      | some event =>
          rw [perform_of_event? amounts, nesting_apply]
          rfl

theorem afterCalls_eq_applyAll (interner : Interner) (calls : List ScopeCall) :
    afterCalls interner calls = (empty interner).applyAll (Nesting.empty.eventsOf calls) :=
  foldl_perform (empty interner) calls

end ScopeChain

end Unbound
