import Unbound.Proofs.Scope.FreeVariables

/-!
# Scopes whose uses are kept in another order

Each name stands once in a table of uses, so chains of scopes that agree up to the order of their
tables still agree after every operation.
-/

set_option autoImplicit false

namespace Unbound

namespace Occurrences

def Rearranged (left right : Occurrences) : Prop := left.entries.Perm right.entries

namespace Rearranged

variable {left right : Occurrences}

theorem refl (occurrences : Occurrences) : occurrences.Rearranged occurrences := List.Perm.refl _

theorem trans {third : Occurrences} (first : left.Rearranged right)
    (second : right.Rearranged third) : left.Rearranged third := List.Perm.trans first second

theorem mem_iff (same : left.Rearranged right) {name : Name} : name ∈ left ↔ name ∈ right :=
  (List.Perm.map Prod.fst same).mem_iff

theorem insertIfNew (same : left.Rearranged right) (name : Name) (span : Option Span) :
    (left.insertIfNew name span).Rearranged (right.insertIfNew name span) := by
  by_cases known : name ∈ left
  · rw [insertIfNew_of_mem span known, insertIfNew_of_mem span (same.mem_iff.mp known)]
    exact same
  · have absent : name ∉ right := fun member => known (same.mem_iff.mpr member)
    rw [Rearranged, entries_insertIfNew_of_not_mem span known,
      entries_insertIfNew_of_not_mem span absent]
    exact List.Perm.append_right [(name, span)] same

theorem without (same : left.Rearranged right) (known : Occurrences) :
    (left.without known).Rearranged (right.without known) := List.Perm.filter _ same

theorem union {inner other : Occurrences} (same : left.Rearranged right)
    (sameInner : inner.Rearranged other) : (left ∪ inner).Rearranged (right ∪ other) := by
  rw [Rearranged, entries_union, entries_union]
  simp only [same.mem_iff]
  exact List.Perm.append same (List.Perm.filter _ sameInner)

end Rearranged

end Occurrences

/-- The two scopes differ in nothing but the order in which their uses are kept. -/
structure Scope.Rearranged (left right : Scope) : Prop where
  handle : left.handle = right.handle
  declarations : left.declarations = right.declarations
  references : left.references.Rearranged right.references

namespace Scope.Rearranged

variable {left right inner other : Scope}

theorem refl (scope : Scope) : scope.Rearranged scope := ⟨rfl, rfl, .refl _⟩

theorem trans {third : Scope} (first : left.Rearranged right) (second : right.Rearranged third) :
    left.Rearranged third where
  handle := first.handle.trans second.handle
  declarations := first.declarations.trans second.declarations
  references := first.references.trans second.references

theorem unresolved (same : left.Rearranged right) :
    left.unresolved.Rearranged right.unresolved := by
  rw [Scope.unresolved, Scope.unresolved, same.declarations]
  exact same.references.without right.declarations

theorem promote (same : left.Rearranged right) (sameInner : inner.Rearranged other) :
    (left.promote inner).Rearranged (right.promote other) where
  handle := same.handle
  declarations := same.declarations
  references := same.references.union sameInner.unresolved

end Scope.Rearranged

structure ScopeChain.Rearranged (left right : ScopeChain) : Prop where
  scopes : List.Forall₂ Scope.Rearranged left.scopes right.scopes
  opened : left.opened = right.opened
  interner : left.interner = right.interner

namespace ScopeChain.Rearranged

variable {left right : ScopeChain}

theorem refl (chain : ScopeChain) : chain.Rearranged chain :=
  ⟨List.forall₂_same.mpr fun scope _ => .refl scope, rfl, rfl⟩

theorem enter (same : left.Rearranged right) : left.enter.2.Rearranged right.enter.2 := by
  obtain ⟨scopes, opened, interner⟩ := same
  rw [ScopeChain.enter, ScopeChain.enter, opened]
  exact ⟨.cons (.refl _) scopes, rfl, interner⟩

theorem declare (same : left.Rearranged right) (name : Name) (span : Option Span) :
    (left.declare name span).Rearranged (right.declare name span) := by
  obtain ⟨leftScopes, leftOpened, leftInterner⟩ := left
  obtain ⟨rightScopes, rightOpened, rightInterner⟩ := right
  obtain ⟨scopes, opened, interner⟩ := same
  rw [ScopeChain.declare, ScopeChain.declare]
  split
  case isTrue => exact ⟨scopes, opened, interner⟩
  case isFalse =>
    cases scopes with
    | nil => exact ⟨.nil, opened, interner⟩
    | cons active outer =>
        have declarations := congrArg (fun known => known.insertIfNew name span)
          active.declarations
        exact ⟨.cons ⟨active.handle, declarations, active.references⟩ outer, opened, interner⟩

theorem reference (same : left.Rearranged right) (name : Name) (span : Option Span) :
    (left.reference name span).Rearranged (right.reference name span) := by
  obtain ⟨leftScopes, leftOpened, leftInterner⟩ := left
  obtain ⟨rightScopes, rightOpened, rightInterner⟩ := right
  obtain ⟨scopes, opened, interner⟩ := same
  cases scopes with
  | nil => exact ⟨.nil, opened, interner⟩
  | cons active outer =>
      have references := active.references.insertIfNew name span
      exact ⟨.cons ⟨active.handle, active.declarations, references⟩ outer, opened, interner⟩

/-- A scope is left in both chains or in neither. The lists found at the root may differ. -/
theorem leave (same : left.Rearranged right) (handle : ScopeHandle) :
    (left.leave handle).2.Rearranged (right.leave handle).2 ∧
      ((∃ free, (left.leave handle).1 = .ok free) ↔ ∃ free, (right.leave handle).1 = .ok free) := by
  obtain ⟨leftScopes, leftOpened, leftInterner⟩ := left
  obtain ⟨rightScopes, rightOpened, rightInterner⟩ := right
  obtain ⟨scopes, opened, interner⟩ := same
  cases scopes with
  | nil => exact ⟨⟨.nil, opened, interner⟩, Iff.rfl⟩
  | cons active outer =>
      rw [ScopeChain.leave, ScopeChain.leave]
      dsimp only
      rw [active.handle]
      split
      case isFalse =>
        refine ⟨⟨.cons active outer, opened, interner⟩, ?_⟩
        simp
      case isTrue =>
        cases outer with
        | nil =>
            refine ⟨⟨.nil, opened, interner⟩, ?_⟩
            rw [exists_freeVariables_eq_ok_iff, exists_freeVariables_eq_ok_iff]
            simp only [List.Perm.mem_iff active.unresolved]
        | cons parent rest =>
            exact ⟨⟨.cons (parent.promote active) rest, opened, interner⟩, by simp⟩

end ScopeChain.Rearranged

end Unbound
