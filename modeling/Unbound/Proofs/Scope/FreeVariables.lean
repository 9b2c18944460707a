import Mathlib.Data.List.Nodup
import Mathlib.Data.List.Perm.Basic
import Unbound.Scope.Chain

/-!
# The free variables among unresolved names

The order in which unresolved names stand does not matter, unless two share a place or more than one
has none. Taking names away takes them out of the result and does nothing else.
-/

set_option autoImplicit false

namespace Unbound

namespace FreeVariable

def entry (free : FreeVariable) : Name × Option Span := (free.name, some free.span)

def precedes (left right : FreeVariable) : Bool := left.span.precedes right.span

end FreeVariable

theorem FreeVariable.entry_injective : Function.Injective FreeVariable.entry := by
  intro left right same
  obtain ⟨name, span⟩ := left
  cases same
  rfl

theorem Span.precedes_iff {left right : Span} :
    left.precedes right ↔
      left.start < right.start ∨ left.start = right.start ∧ left.stop ≤ right.stop := by
  simp only [Span.precedes, Bool.or_eq_true, Bool.and_eq_true, decide_eq_true_eq, beq_iff_eq]

theorem Span.precedes_trans {first second third : Span} (earlier : first.precedes second)
    (later : second.precedes third) : first.precedes third := by
  rw [Span.precedes_iff] at *
  simp only [UInt32.lt_iff_toNat_lt, UInt32.le_iff_toNat_le, ← UInt32.toNat_inj] at *
  omega

theorem Span.precedes_total (left right : Span) : left.precedes right || right.precedes left := by
  rw [Bool.or_eq_true, Span.precedes_iff, Span.precedes_iff]
  simp only [UInt32.lt_iff_toNat_lt, UInt32.le_iff_toNat_le, ← UInt32.toNat_inj]
  omega

theorem Span.precedes_antisymm {left right : Span} (earlier : left.precedes right)
    (later : right.precedes left) : left = right := by
  rw [Span.precedes_iff] at *
  apply Span.ext
  · simp only [UInt32.lt_iff_toNat_lt, UInt32.le_iff_toNat_le, ← UInt32.toNat_inj] at *
    omega
  · simp only [UInt32.lt_iff_toNat_lt, UInt32.le_iff_toNat_le, ← UInt32.toNat_inj] at *
    omega

namespace FreeVariable

theorem precedes_trans (first second third : FreeVariable) (earlier : first.precedes second)
    (later : second.precedes third) : first.precedes third :=
  Span.precedes_trans earlier later

theorem precedes_total (left right : FreeVariable) : left.precedes right || right.precedes left :=
  Span.precedes_total left.span right.span

theorem pairwise_mergeSort (found : List FreeVariable) :
    (found.mergeSort precedes).Pairwise fun left right => left.precedes right :=
  List.pairwise_mergeSort precedes_trans precedes_total found

theorem mergeSort_eq_of_perm {left right : List FreeVariable} (perm : left.Perm right)
    (distinct : (left.map span).Nodup) : left.mergeSort precedes = right.mergeSort precedes := by
  have same : (left.mergeSort precedes).Perm (right.mergeSort precedes) :=
    ((List.mergeSort_perm left _).trans perm).trans (List.mergeSort_perm right _).symm
  refine List.Perm.eq_of_pairwise ?_ (pairwise_mergeSort left) (pairwise_mergeSort right) same
  intro first second inLeft inRight earlier later
  have span : first.span = second.span := Span.precedes_antisymm earlier later
  exact List.inj_on_of_nodup_map distinct (List.mem_mergeSort.mp inLeft)
    (perm.mem_iff.mpr (List.mem_mergeSort.mp inRight)) span

/-- The place of a variable in a sorted list divides the others into those that it does not precede
and those that it does. -/
theorem filter_of_pairwise {free : FreeVariable} {before after : List FreeVariable}
    (larger : ∀ other ∈ before, !free.precedes other)
    (sorted : (before ++ free :: after).Pairwise fun left right => left.precedes right) :
    (before ++ after).filter (fun other => !free.precedes other) = before ∧
      (before ++ after).filter (fun other => free.precedes other) = after := by
  have smaller := (List.pairwise_cons.mp (List.pairwise_append.mp sorted).2.1).1
  constructor
  · have nothing : after.filter (fun other => !free.precedes other) = [] := by
      apply List.filter_eq_nil_iff.mpr
      intro other member
      simp [smaller other member]
    rw [List.filter_append, List.filter_eq_self.mpr larger, nothing, List.append_nil]
  · have nothing : before.filter (fun other => free.precedes other) = [] := by
      apply List.filter_eq_nil_iff.mpr
      intro other member
      simpa using larger other member
    rw [List.filter_append, List.filter_eq_self.mpr smaller, nothing, List.nil_append]

/-- Keeping part of a sorted list is sorting that part, ties included: the sort is stable. -/
theorem filter_mergeSort (keep : FreeVariable → Bool) (found : List FreeVariable) :
    (found.mergeSort precedes).filter keep = (found.filter keep).mergeSort precedes := by
  induction found with
  | nil => simp
  | cons free found induction =>
      obtain ⟨before, after, sorted, rest, larger⟩ :=
        List.mergeSort_cons precedes_trans precedes_total free found
      rw [rest, List.filter_append] at induction
      rw [sorted, List.filter_append, List.filter_cons, List.filter_cons]
      split
      case isFalse => exact induction
      case isTrue kept =>
        obtain ⟨first, last, sortedKept, restKept, largerKept⟩ :=
          List.mergeSort_cons precedes_trans precedes_total free (found.filter keep)
        have ordered : (before.filter keep ++ free :: after.filter keep).Pairwise
            fun left right => left.precedes right := by
          have whole := (sorted ▸ pairwise_mergeSort (free :: found)).filter keep
          rwa [List.filter_append, List.filter_cons_of_pos kept] at whole
        have orderedKept := sortedKept ▸ pairwise_mergeSort (free :: found.filter keep)
        obtain ⟨sameFirst, sameLast⟩ := filter_of_pairwise largerKept orderedKept
        obtain ⟨keptBefore, keptAfter⟩ := filter_of_pairwise
          (fun other member => larger other (List.mem_filter.mp member).1) ordered
        rw [induction, restKept] at keptBefore keptAfter
        rw [sortedKept, ← keptBefore, ← keptAfter, sameFirst, sameLast]

end FreeVariable

/-- Either all entries have a place, or there is a first one without. -/
theorem located_or_unlocated (entries : List (Name × Option Span)) :
    (∃ found : List FreeVariable, entries = found.map FreeVariable.entry) ∨
      ∃ (before : List FreeVariable) (name : Name) (after : List (Name × Option Span)),
        entries = before.map FreeVariable.entry ++ (name, none) :: after := by
  induction entries with
  | nil => exact Or.inl ⟨[], rfl⟩
  | cons entry entries induction =>
      obtain ⟨name, place⟩ := entry
      cases place with
      | none => exact Or.inr ⟨[], name, entries, rfl⟩
      | some span =>
          rcases induction with located | unlocated
          · obtain ⟨found, rfl⟩ := located
            exact Or.inl ⟨⟨name, span⟩ :: found, rfl⟩
          · obtain ⟨before, other, after, rfl⟩ := unlocated
            exact Or.inr ⟨⟨name, span⟩ :: before, other, after, rfl⟩

def locate (interner : Interner) : Name × Option Span → Except ScopeError FreeVariable :=
  fun (name, span) =>
  match span with
  | some span => .ok ⟨name, span⟩
  | none => .error (.ofUndefined interner name)

section

variable (interner : Interner)

theorem freeVariables_eq_map (unresolved : Occurrences) :
    freeVariables interner unresolved =
      (unresolved.entries.mapM (locate interner)).map fun found =>
        found.mergeSort FreeVariable.precedes :=
  rfl

theorem mapM_locate_append (found : List FreeVariable) (rest : List (Name × Option Span)) :
    (found.map FreeVariable.entry ++ rest).mapM (locate interner) =
      (rest.mapM (locate interner)).map fun later => found ++ later := by
  induction found with
  | nil =>
      rw [List.map_nil, List.nil_append]
      cases rest.mapM (locate interner) with
      | error failure => rfl
      | ok later => rfl
  | cons free found induction =>
      rw [List.map_cons, List.cons_append, List.mapM_cons, induction]
      cases rest.mapM (locate interner) with
      | error failure => rfl
      | ok later => rfl

end

variable {interner : Interner} {unresolved : Occurrences}

theorem freeVariables_of_located {found : List FreeVariable}
    (located : unresolved.entries = found.map FreeVariable.entry) :
    freeVariables interner unresolved = .ok (found.mergeSort FreeVariable.precedes) := by
  have all := mapM_locate_append interner found []
  rw [List.append_nil, ← located] at all
  rw [freeVariables_eq_map, all, List.mapM_nil]
  simp [Except.map, pure, Except.pure]

theorem freeVariables_of_unlocated {before : List FreeVariable} {name : Name}
    {after : List (Name × Option Span)}
    (unlocated : unresolved.entries = before.map FreeVariable.entry ++ (name, none) :: after) :
    freeVariables interner unresolved = .error (.ofUndefined interner name) := by
  rw [freeVariables_eq_map, unlocated, mapM_locate_append, List.mapM_cons]
  rfl

theorem exists_located_of_freeVariables_eq_ok {free : List FreeVariable}
    (passed : freeVariables interner unresolved = .ok free) :
    ∃ found : List FreeVariable, unresolved.entries = found.map FreeVariable.entry ∧
      free = found.mergeSort FreeVariable.precedes := by
  rcases located_or_unlocated unresolved.entries with located | unlocated
  · obtain ⟨found, located⟩ := located
    rw [freeVariables_of_located located] at passed
    exact ⟨found, located, (Except.ok.inj passed).symm⟩
  · obtain ⟨before, name, after, unlocated⟩ := unlocated
    rw [freeVariables_of_unlocated unlocated] at passed
    cases passed

theorem mem_entries_iff_of_freeVariables_eq_ok {free : List FreeVariable}
    (passed : freeVariables interner unresolved = .ok free) (entry : Name × Option Span) :
    entry ∈ unresolved.entries ↔ entry ∈ free.map FreeVariable.entry := by
  obtain ⟨found, located, rfl⟩ := exists_located_of_freeVariables_eq_ok passed
  rw [located, List.mem_map, List.mem_map]
  simp only [List.mem_mergeSort]

theorem mem_names_iff_of_freeVariables_eq_ok {free : List FreeVariable}
    (passed : freeVariables interner unresolved = .ok free) {name : Name} :
    name ∈ free.map FreeVariable.name ↔ name ∈ unresolved := by
  obtain ⟨found, located, rfl⟩ := exists_located_of_freeVariables_eq_ok passed
  rw [Occurrences.mem_iff, located, List.map_map,
    ((List.mergeSort_perm found FreeVariable.precedes).map FreeVariable.name).mem_iff]
  rfl

theorem nodup_of_freeVariables_eq_ok {free : List FreeVariable}
    (passed : freeVariables interner unresolved = .ok free) :
    (free.map FreeVariable.name).Nodup := by
  obtain ⟨found, located, rfl⟩ := exists_located_of_freeVariables_eq_ok passed
  have distinct := unresolved.distinct
  rw [located, List.map_map] at distinct
  have same := (List.mergeSort_perm found FreeVariable.precedes).map FreeVariable.name
  exact same.nodup_iff.mpr distinct

theorem pairwise_of_freeVariables_eq_ok {free : List FreeVariable}
    (passed : freeVariables interner unresolved = .ok free) :
    free.Pairwise fun left right => left.precedes right := by
  obtain ⟨found, located, rfl⟩ := exists_located_of_freeVariables_eq_ok passed
  exact FreeVariable.pairwise_mergeSort found

theorem freeVariables_without {free : List FreeVariable} (known : Occurrences)
    (passed : freeVariables interner unresolved = .ok free) :
    freeVariables interner (unresolved.without known) =
      .ok (free.filter fun found => found.name ∉ known) := by
  obtain ⟨found, located, rfl⟩ := exists_located_of_freeVariables_eq_ok passed
  have kept : (unresolved.without known).entries =
      (found.filter fun free => free.name ∉ known).map FreeVariable.entry := by
    change unresolved.entries.filter (fun entry => entry.1 ∉ known) = _
    rw [located, List.filter_map]
    rfl
  rw [freeVariables_of_located kept, FreeVariable.filter_mergeSort]

theorem mem_entries_of_freeVariables_eq_error {failure : ScopeError}
    (failed : freeVariables interner unresolved = .error failure) :
    ∃ name, failure = .ofUndefined interner name ∧ (name, none) ∈ unresolved.entries := by
  rcases located_or_unlocated unresolved.entries with located | unlocated
  · obtain ⟨found, located⟩ := located
    rw [freeVariables_of_located located] at failed
    cases failed
  · obtain ⟨before, name, after, unlocated⟩ := unlocated
    rw [freeVariables_of_unlocated unlocated] at failed
    refine ⟨name, (Except.error.inj failed).symm, ?_⟩
    rw [unlocated]
    simp

theorem freeVariables_ne_mismatch (closing : ScopeHandle) (active : Option ScopeHandle) :
    freeVariables interner unresolved ≠ .error (.mismatch closing active) := by
  intro failed
  obtain ⟨name, same, _⟩ := mem_entries_of_freeVariables_eq_error failed
  exact ScopeError.ofUndefined_ne_mismatch interner name closing active same.symm

theorem exists_error_of_mem_entries (interner : Interner) {name : Name}
    (member : (name, none) ∈ unresolved.entries) :
    ∃ other, freeVariables interner unresolved = .error (.ofUndefined interner other) := by
  rcases located_or_unlocated unresolved.entries with located | unlocated
  · obtain ⟨found, located⟩ := located
    rw [located] at member
    obtain ⟨free, _, same⟩ := List.mem_map.mp member
    cases same
  · obtain ⟨before, other, after, unlocated⟩ := unlocated
    exact ⟨other, freeVariables_of_unlocated unlocated⟩

theorem exists_freeVariables_eq_ok_iff :
    (∃ free, freeVariables interner unresolved = .ok free) ↔
      ∀ name, (name, none) ∉ unresolved.entries := by
  constructor
  · intro passed name member
    obtain ⟨free, passed⟩ := passed
    obtain ⟨other, failed⟩ := exists_error_of_mem_entries interner member
    rw [passed] at failed
    cases failed
  · intro placed
    cases outcome : freeVariables interner unresolved with
    | ok free => exact ⟨free, rfl⟩
    | error failure =>
        obtain ⟨name, _, member⟩ := mem_entries_of_freeVariables_eq_error outcome
        exact absurd member (placed name)

/-- Where no two names share a place and at most one has none, the order of the names is of no
consequence. -/
theorem freeVariables_eq_of_perm (interner : Interner) {other : Occurrences}
    (perm : unresolved.entries.Perm other.entries)
    (distinct : (unresolved.entries.map Prod.snd).Nodup) :
    freeVariables interner unresolved = freeVariables interner other := by
  cases outcome : freeVariables interner unresolved with
  | error failure =>
      obtain ⟨name, rfl, member⟩ := mem_entries_of_freeVariables_eq_error outcome
      obtain ⟨second, failed⟩ := exists_error_of_mem_entries interner (perm.mem_iff.mp member)
      obtain ⟨third, same, later⟩ := mem_entries_of_freeVariables_eq_error failed
      have equal := List.inj_on_of_nodup_map distinct member (perm.mem_iff.mpr later) rfl
      cases equal
      rw [failed, same]
  | ok free =>
      obtain ⟨found, located, rfl⟩ := exists_located_of_freeVariables_eq_ok outcome
      have passes : ∃ free, freeVariables interner other = .ok free := by
        apply exists_freeVariables_eq_ok_iff.mpr
        intro name member
        exact exists_freeVariables_eq_ok_iff.mp ⟨_, outcome⟩ name (perm.mem_iff.mpr member)
      obtain ⟨free, passed⟩ := passes
      obtain ⟨others, locatedOthers, rfl⟩ := exists_located_of_freeVariables_eq_ok passed
      rw [located, List.map_map] at distinct
      rw [located, locatedOthers, List.map_perm_map_iff FreeVariable.entry_injective] at perm
      have spans : (found.map FreeVariable.span).Nodup := List.Nodup.of_map some (by
        rw [List.map_map]
        exact distinct)
      rw [passed, FreeVariable.mergeSort_eq_of_perm perm spans]

end Unbound
