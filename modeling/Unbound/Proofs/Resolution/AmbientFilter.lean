import Unbound.Proofs.Resolution.Discipline

/-!
# What the host provides is left out of the report

Declaring the names of the host in the root comes to the same as taking them away from what is left
there at the end. Only the set of these names counts.
-/

set_option autoImplicit false

namespace Unbound

namespace Ambient

/-- A name that a namespace or one of its ancestors has. The empty name is no name. -/
def Provides (ambient : Ambient) (name : Name) : Prop :=
  (∃ names ∈ ambient.names :: ambient.ancestors, name ∈ names) ∧ ¬ name.isEmpty

instance (ambient : Ambient) (name : Name) : Decidable (ambient.Provides name) :=
  inferInstanceAs (Decidable (_ ∧ _))

theorem provides_iff {ambient : Ambient} {name : Name} :
    ambient.Provides name ↔ name ∈ ambient ∧ ¬ name.isEmpty := by
  rw [Provides, mem_iff]

theorem declared_outline (ambient : Ambient) :
    ambient.outline.declared = ambient.chain.filter fun name => ¬ name.isEmpty := by
  rw [outline_eq_foldr_chain]
  induction ambient.chain with
  | nil => rfl
  | cons name names induction =>
      rw [List.foldr_cons, Outline.declared, Outline.declared, induction, List.filter_cons]
      cases name.isEmpty with
      | true => rfl
      | false => rfl

theorem pending_outline (ambient : Ambient) : ambient.outline.pending = [] := by
  rw [outline_eq_foldr_chain]
  induction ambient.chain with
  | nil => rfl
  | cons name names induction => exact induction

def provided (ambient : Ambient) : Occurrences :=
  (∅ : Occurrences).gather ambient.outline.declarations

theorem mem_provided {ambient : Ambient} {name : Name} :
    name ∈ ambient.provided ↔ ambient.Provides name := by
  rw [provided, Occurrences.mem_gather_empty, ← Outline.declared_eq, declared_outline,
    List.mem_filter, decide_eq_true_eq, provides_iff]
  rfl

/-- Seeding the root with the names of the host takes them away from what is left in it. -/
theorem gather_pending_around (ambient : Ambient) (outline : Outline) :
    (∅ : Occurrences).gather (ambient.around outline).pending =
      ((∅ : Occurrences).gather ((∅ : Ambient).around outline).pending).without
        ambient.provided := by
  rw [Occurrences.without_gather_empty]
  apply congrArg
  rw [around, around, Outline.pending, Outline.pending, Outline.pending, Outline.pending,
    pending_outline, pending_outline, List.nil_append, List.filter_filter]
  apply List.filter_congr
  intro entry member
  have known : entry.1 ∈ ambient.provided ↔
      entry.1 ∈ ambient.outline.declarations.map Prod.fst := Occurrences.mem_gather_empty
  have unseeded : (Outline.next (∅ : Ambient).outline outline).declarations =
      outline.declarations := rfl
  rw [unseeded, Outline.declarations, List.map_append]
  simp only [known, List.mem_append, not_or, Bool.decide_and]

end Ambient

namespace Program

variable {program : Program} {interner : Interner} {ambient : Ambient}

theorem check_congr_of_provides {first second : Ambient}
    (same : ∀ name, first.Provides name ↔ second.Provides name) :
    program.check first interner = program.check second interner := by
  cases ended : (program.scopeTrace interner.argumentsName).interruption with
  | some interruption => rw [check_of_interrupted first ended, check_of_interrupted second ended]
  | none =>
      obtain ⟨outline, outlined⟩ := exists_hasOutline_iff.mpr ended
      have provided : ∀ name, name ∈ first.provided ↔ name ∈ second.provided := by
        intro name
        rw [Ambient.mem_provided, Ambient.mem_provided, same]
      rw [check_of_hasOutline first outlined, check_of_hasOutline second outlined,
        first.gather_pending_around, second.gather_pending_around,
        Occurrences.without_congr _ provided]

theorem check_of_check_empty_eq_ok {free : List FreeVariable} (ambient : Ambient)
    (passed : program.check ∅ interner = .ok free) :
    program.check ambient interner =
      .ok (free.filter fun found => ¬ ambient.Provides found.name) := by
  obtain ⟨outline, outlined⟩ := exists_hasOutline_of_check_eq_ok passed
  have kept := freeVariables_without ambient.provided (freeVariables_of_check_eq_ok outlined passed)
  rw [check_of_hasOutline ambient outlined, ambient.gather_pending_around, kept]
  simp only [Ambient.mem_provided]
  rfl

theorem check_empty_of_check_eq_error {name : Name}
    (failed : program.check ambient interner = .error (.scope (.ofUndefined interner name))) :
    ¬ ambient.Provides name ∧
      ∃ other, program.check ∅ interner = .error (.scope (.ofUndefined interner other)) := by
  obtain ⟨outline, outlined⟩ := exists_hasOutline_of_check_eq_scope failed
  obtain ⟨reason, same, outcome⟩ := freeVariables_of_check_eq_error outlined failed
  injection same with same
  rw [← same] at outcome
  obtain ⟨other, undefined, member⟩ := mem_entries_of_freeVariables_eq_error outcome
  rw [← ScopeError.ofUndefined_injective interner undefined] at member
  rw [ambient.gather_pending_around, Occurrences.entries_without, List.mem_filter,
    decide_eq_true_eq, Ambient.mem_provided] at member
  obtain ⟨left, unprovided⟩ := member
  obtain ⟨other, failure⟩ := exists_error_of_mem_entries interner left
  refine ⟨unprovided, other, ?_⟩
  rw [check_of_hasOutline ∅ outlined, failure]
  rfl

end Program

end Unbound
