import Unbound.Proofs.Scope.Gathering

/-!
# Places of declarations do not matter

A scope only ever asks whether a name was declared, so the places of declarations can be forgotten.
-/

set_option autoImplicit false

namespace Unbound

namespace Occurrences

def unplaced (occurrences : Occurrences) : Occurrences where
  entries := occurrences.entries.map fun entry => (entry.1, none)
  distinct := by
    rw [List.map_map]
    exact occurrences.distinct

theorem entries_unplaced (occurrences : Occurrences) :
    occurrences.unplaced.entries = occurrences.entries.map fun entry => (entry.1, none) := rfl

theorem mem_unplaced {occurrences : Occurrences} {name : Name} :
    name ∈ occurrences.unplaced ↔ name ∈ occurrences := by
  rw [mem_iff, mem_iff, entries_unplaced, List.map_map]
  rfl

theorem unplaced_insertIfNew (occurrences : Occurrences) (name : Name) (span : Option Span) :
    (occurrences.insertIfNew name span).unplaced = occurrences.unplaced.insertIfNew name none := by
  by_cases known : name ∈ occurrences
  · rw [insertIfNew_of_mem span known, insertIfNew_of_mem none (mem_unplaced.mpr known)]
  · apply ext_entries
    rw [entries_insertIfNew_of_not_mem none (fun member => known (mem_unplaced.mp member)),
      entries_unplaced, entries_insertIfNew_of_not_mem span known, List.map_append]
    rfl

end Occurrences

namespace Scope

def unplaced (scope : Scope) : Scope := { scope with declarations := scope.declarations.unplaced }

theorem unresolved_unplaced (scope : Scope) : scope.unplaced.unresolved = scope.unresolved := by
  apply Occurrences.without_congr
  intro name
  exact Occurrences.mem_unplaced

theorem unplaced_promote (outer inner : Scope) :
    (outer.promote inner).unplaced = outer.unplaced.promote inner.unplaced := by
  rw [promote, promote, unresolved_unplaced]
  rfl

end Scope

namespace ScopeChain

def unplaced (chain : ScopeChain) : ScopeChain :=
  { chain with scopes := chain.scopes.map .unplaced }

theorem unplaced_declare (chain : ScopeChain) (name : Name) (span : Option Span) :
    (chain.declare name span).unplaced = chain.unplaced.declare name none := by
  obtain ⟨scopes, opened⟩ := chain
  rw [declare, declare]
  split
  case isTrue => rfl
  case isFalse =>
    cases scopes with
    | nil => rfl
    | cons scope outer =>
        have declared := scope.declarations.unplaced_insertIfNew name span
        simp only [unplaced, List.map_cons, Scope.unplaced, declared]

theorem unplaced_reference (chain : ScopeChain) (name : Name) (span : Option Span) :
    (chain.reference name span).unplaced = chain.unplaced.reference name span := by
  obtain ⟨scopes, opened⟩ := chain
  cases scopes with
  | nil => rfl
  | cons scope outer => rfl

theorem leave_unplaced (chain : ScopeChain) (handle : ScopeHandle) :
    chain.unplaced.leave handle = ((chain.leave handle).1, (chain.leave handle).2.unplaced) := by
  obtain ⟨scopes, opened⟩ := chain
  cases scopes with
  | nil => rfl
  | cons scope outer =>
      have sameHandle : scope.unplaced.handle = scope.handle := rfl
      simp only [leave, unplaced, List.map_cons]
      rw [sameHandle]
      split
      case isFalse => rfl
      case isTrue =>
        cases outer with
        | nil =>
            rw [List.map_nil]
            dsimp only
            rw [Scope.unresolved_unplaced]
        | cons parent rest =>
            rw [List.map_cons]
            dsimp only
            rw [List.map_cons, Scope.unplaced_promote]

end ScopeChain

end Unbound
