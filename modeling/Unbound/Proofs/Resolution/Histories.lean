import Unbound.Proofs.Scope.Lifetimes

/-!
# The history of a check

The report of a check can be read off the history of its events alone.
-/

set_option autoImplicit false

namespace Unbound

namespace ScopeChain

theorem applyAll_outline (outline : Outline) (scope : Scope) (outer : List Scope) (opened : Nat)
    (interner : Interner) :
    (ScopeChain.mk (scope :: outer) opened interner).applyAll outline.events =
      ⟨scope.extend outline :: outer, opened + outline.scopeCount, interner⟩ := by
  induction outline generalizing scope outer opened with
  | nothing => rfl
  | use name span => rfl
  | declare name span => exact declare_active interner scope outer opened name span
  | next first second inFirst inSecond =>
      rw [Outline.events, applyAll_append, inFirst, inSecond, Scope.extend_next,
        Outline.scopeCount, Nat.add_assoc]
  | scope inner within =>
      -- The inner scope starts empty, and it is closed into the one around it.
      let fresh : Scope := ⟨⟨opened⟩, ∅, ∅⟩
      have visited := within fresh (scope :: outer) (opened + 1)
      have left :=
        leave_inner interner (fresh.extend inner) scope outer (opened + 1 + inner.scopeCount)
      have count : opened + 1 + inner.scopeCount = opened + (inner.scopeCount + 1) := by omega
      rw [Scope.promote_extend, count] at left
      have entered : (ScopeChain.mk (scope :: outer) opened interner).applyAll
          (.enter :: (inner.events ++ [.leave])) =
          (ScopeChain.mk (fresh :: scope :: outer) (opened + 1) interner).applyAll
            (inner.events ++ [.leave]) := rfl
      rw [Outline.events, entered, applyAll_append, visited, count]
      exact congrArg Prod.snd left

end ScopeChain

namespace Program

/-- All that happens in a check before it closes the root. -/
def scopeEvents (program : Program) (ambient : Ambient) (argumentsName : Name) :
    List ScopeEvent :=
  .enter :: (ambient.chain.map (fun name => .declare name none) ++
    (program.scopeTrace argumentsName).events)

def history (program : Program) (ambient : Ambient) (argumentsName : Name) : History :=
  Nesting.empty.history (program.scopeEvents ambient argumentsName)

variable {program : Program} {ambient : Ambient} {interner : Interner} {argumentsName : Name}
  {outline : Outline}

theorem exists_root_of_hasOutline (interner : Interner) (ambient : Ambient)
    (outlined : program.HasOutline argumentsName outline) :
    ∃ root, ((ScopeChain.empty interner).applyAll
        (program.scopeEvents ambient argumentsName)).scopes = [root] ∧
      root.handle = ⟨0⟩ ∧
      root.unresolved = (∅ : Occurrences).gather (ambient.around outline).pending := by
  refine ⟨(Scope.mk ⟨0⟩ ∅ ∅).extend (.next ambient.outline outline), ?_, rfl,
    Scope.unresolved_gather _ _ _⟩
  have entered : (ScopeChain.empty interner).applyAll (program.scopeEvents ambient argumentsName) =
      (ScopeChain.mk [⟨⟨0⟩, ∅, ∅⟩] 1 interner).applyAll
        (ambient.chain.map (fun name => .declare name none) ++
          (program.scopeTrace argumentsName).events) := rfl
  rw [entered, ← ambient.events_outline, scopeTrace_of_hasOutline outlined,
    ScopeChain.applyAll_append, ScopeChain.applyAll_outline, ScopeChain.applyAll_outline,
    Scope.extend_next]

theorem find?_pending_eq_firstUnresolved? (ambient : Ambient)
    (outlined : program.HasOutline argumentsName outline) (name : Name) :
    ((∅ : Occurrences).gather (ambient.around outline).pending).find? name =
      ((program.history ambient argumentsName).firstUnresolved? ⟨0⟩ name).map ScopedUse.span := by
  obtain ⟨root, only, handle, pending⟩ := exists_root_of_hasOutline .initial ambient outlined
  rw [← pending, ← handle]
  exact ScopeChain.find?_unresolved_applyAll only name

theorem mem_names_check_iff {free : List FreeVariable}
    (passed : program.check ambient interner = .ok free) {name : Name} :
    name ∈ free.map FreeVariable.name ↔
      ∃ use ∈ (program.history ambient interner.argumentsName).uses,
        (program.history ambient interner.argumentsName).Unresolved ⟨0⟩ name use := by
  obtain ⟨outline, outlined⟩ := exists_hasOutline_of_check_eq_ok passed
  exact History.mem_names_freeVariables_iff (find?_pending_eq_firstUnresolved? ambient outlined)
    (freeVariables_of_check_eq_ok outlined passed)

theorem mem_check_iff_firstUnresolved? {free : List FreeVariable}
    (passed : program.check ambient interner = .ok free) (found : FreeVariable) :
    found ∈ free ↔
      ∃ use, (program.history ambient interner.argumentsName).firstUnresolved? ⟨0⟩ found.name =
          some use ∧ use.span = some found.span := by
  obtain ⟨outline, outlined⟩ := exists_hasOutline_of_check_eq_ok passed
  exact History.mem_freeVariables_iff (find?_pending_eq_firstUnresolved? ambient outlined)
    (freeVariables_of_check_eq_ok outlined passed) found

end Program

end Unbound
