import Unbound.Proofs.Scope.Handles
import Unbound.Proofs.Scope.History

/-!
# Closing scopes after any calls

Closing an inner scope finds nothing yet, and closing a root finds what is unresolved in the
lifetime of that root. Earlier roots and rejected calls leave nothing behind.
-/

set_option autoImplicit false

namespace Unbound

theorem mem_iff_find?_of_freeVariables_eq_ok {interner : Interner} {unresolved : Occurrences}
    {free : List FreeVariable} (passed : freeVariables interner unresolved = .ok free)
    (found : FreeVariable) :
    found ∈ free ↔ unresolved.find? found.name = some (some found.span) := by
  rw [← Occurrences.mem_entries_iff, ← List.mem_map_of_injective FreeVariable.entry_injective]
  exact (mem_entries_iff_of_freeVariables_eq_ok passed found.entry).symm

namespace History

variable {history : History} {root : ScopeHandle} {name : Name}

theorem isSome_firstUnresolved?_iff :
    (history.firstUnresolved? root name).isSome ↔
      ∃ use ∈ history.uses, history.Unresolved root name use := by
  rw [firstUnresolved?, List.find?_isSome]
  simp only [decide_eq_true_eq]

variable {interner : Interner} {unresolved : Occurrences}
  (kept : ∀ name, unresolved.find? name =
    (history.firstUnresolved? root name).map ScopedUse.span)

include kept

theorem mem_freeVariables_iff {free : List FreeVariable}
    (passed : freeVariables interner unresolved = .ok free) (found : FreeVariable) :
    found ∈ free ↔
      ∃ use, history.firstUnresolved? root found.name = some use ∧
        use.span = some found.span := by
  rw [mem_iff_find?_of_freeVariables_eq_ok passed, kept, Option.map_eq_some_iff]

theorem mem_names_freeVariables_iff {free : List FreeVariable}
    (passed : freeVariables interner unresolved = .ok free) :
    name ∈ free.map FreeVariable.name ↔
      ∃ use ∈ history.uses, history.Unresolved root name use := by
  rw [mem_names_iff_of_freeVariables_eq_ok passed, ← Occurrences.isSome_find?_iff, kept,
    Option.isSome_map, isSome_firstUnresolved?_iff]

theorem firstUnresolved?_of_freeVariables_eq_error {failure : ScopeError}
    (failed : freeVariables interner unresolved = .error failure) :
    ∃ name use, failure = .ofUndefined interner name ∧
      history.firstUnresolved? root name = some use ∧ use.span = none := by
  obtain ⟨name, rfl, member⟩ := mem_entries_of_freeVariables_eq_error failed
  rw [Occurrences.mem_entries_iff, kept, Option.map_eq_some_iff] at member
  obtain ⟨use, first, unplaced⟩ := member
  exact ⟨name, use, rfl, first, unplaced⟩

end History

namespace ScopeChain

/-- The calls that are events, each with the scopes that are open when it is made. -/
def historyOf (calls : List ScopeCall) : History :=
  Nesting.empty.history (Nesting.empty.eventsOf calls)

variable {interner : Interner} {calls : List ScopeCall} {handle : ScopeHandle}

theorem leave_of_one_lt_depth {chain : ScopeChain} (accepted : chain.accepts handle)
    (inner : 1 < chain.depth) : (chain.leave handle).1 = .ok [] := by
  rcases leave_cases (accepts_iff.mp accepted) with root | nested
  · obtain ⟨root, only, _, _⟩ := root
    rw [depth, only] at inner
    exact absurd inner (Nat.lt_irrefl 1)
  · obtain ⟨scope, parent, rest, _, _, left⟩ := nested
    rw [left]

theorem exists_root_of_depth_eq_one {chain : ScopeChain} (accepted : chain.accepts handle)
    (single : chain.depth = 1) :
    ∃ root, chain.scopes = [root] ∧ root.handle = handle ∧
      (chain.leave handle).1 = freeVariables chain.interner root.unresolved := by
  rcases leave_cases (accepts_iff.mp accepted) with last | nested
  · obtain ⟨root, only, same, left⟩ := last
    exact ⟨root, only, same, congrArg Prod.fst left⟩
  · obtain ⟨scope, parent, rest, nest, _, _⟩ := nested
    rw [depth, nest, List.length_cons, List.length_cons] at single
    omega

theorem find?_unresolved_afterCalls {root : Scope}
    (only : (afterCalls interner calls).scopes = [root]) (name : Name) :
    root.unresolved.find? name =
      ((historyOf calls).firstUnresolved? root.handle name).map ScopedUse.span := by
  rw [afterCalls_eq_applyAll] at only
  exact find?_unresolved_applyAll only name

/-- Closing a scope that is not a root answers with no names. Closing a root, if it does not fail,
answers with the names that have an unresolved use in the lifetime of the root, each once and at the
first such use. It fails only for a name whose first such use has no place. -/
theorem calls_resolve_lexically (interner : Interner) (calls : List ScopeCall)
    (handle : ScopeHandle) (accepted : (afterCalls interner calls).accepts handle) :
    (1 < (afterCalls interner calls).depth →
      ((afterCalls interner calls).leave handle).1 = .ok []) ∧
    ((afterCalls interner calls).depth = 1 →
      (∀ free, ((afterCalls interner calls).leave handle).1 = .ok free →
        (free.map FreeVariable.name).Nodup ∧
        (∀ name, name ∈ free.map FreeVariable.name ↔
          ∃ use ∈ (historyOf calls).uses, (historyOf calls).Unresolved handle name use) ∧
        ∀ found, found ∈ free ↔
          ∃ use, (historyOf calls).firstUnresolved? handle found.name = some use ∧
            use.span = some found.span) ∧
      ∀ failure, ((afterCalls interner calls).leave handle).1 = .error failure →
        ∃ name use, failure = .ofUndefined interner name ∧
          (historyOf calls).firstUnresolved? handle name = some use ∧ use.span = none) := by
  refine ⟨leave_of_one_lt_depth accepted, ?_⟩
  intro single
  obtain ⟨root, only, rfl, closes⟩ := exists_root_of_depth_eq_one accepted single
  have kept := find?_unresolved_afterCalls only
  rw [closes, interner_afterCalls]
  constructor
  · intro free passed
    exact ⟨nodup_of_freeVariables_eq_ok passed,
      fun _ => History.mem_names_freeVariables_iff kept passed,
      History.mem_freeVariables_iff kept passed⟩
  · intro failure failed
    exact History.firstUnresolved?_of_freeVariables_eq_error kept failed

/-- Two roots, one after the other. In the second one `undefined` is used in an inner scope and
again further out, and `set` is declared only after its use; a stale handle is left in between. -/
def twoRoots : List ScopeCall :=
  [.enter, .reference ⟨536870912⟩ (some ⟨0, 3⟩), .leave ⟨0⟩,
    .enter, .enter, .reference ⟨536870912⟩ (some ⟨5, 8⟩), .reference ⟨1073741826⟩ (some ⟨9, 18⟩),
    .leave ⟨0⟩, .leave ⟨2⟩, .declare ⟨536870912⟩ none, .reference ⟨1073741826⟩ (some ⟨20, 29⟩)]

theorem calls_resolve_twoRoots :
    (afterCalls .initial twoRoots).accepts ⟨1⟩ ∧ (afterCalls .initial twoRoots).depth = 1 ∧
      ∃ free, ((afterCalls .initial twoRoots).leave ⟨1⟩).1 = .ok free ∧
        (∀ name, name ∈ free.map FreeVariable.name ↔
          ∃ use ∈ (historyOf twoRoots).uses, (historyOf twoRoots).Unresolved ⟨1⟩ name use) ∧
        FreeVariable.mk ⟨1073741826⟩ ⟨9, 18⟩ ∈ free := by
  have accepted : (afterCalls .initial twoRoots).accepts ⟨1⟩ := by decide
  have passed : ((afterCalls .initial twoRoots).leave ⟨1⟩).1 =
      .ok ([⟨⟨1073741826⟩, ⟨9, 18⟩⟩].mergeSort FreeVariable.precedes) :=
    freeVariables_of_located rfl
  obtain ⟨_, names, reports⟩ :=
    ((calls_resolve_lexically .initial twoRoots ⟨1⟩ accepted).2 rfl).1 _ passed
  exact ⟨accepted, rfl, _, passed, names, (reports _).mpr ⟨_, rfl, rfl⟩⟩

end ScopeChain

end Unbound
