import Unbound.Scope.Chain

/-!
# Gathering occurrences

Leaving a scope comes to the same as gathering only the uses that its declarations leave.
-/

set_option autoImplicit false

namespace Unbound

namespace Occurrences

def gather (occurrences : Occurrences) (added : List (Name × Option Span)) : Occurrences :=
  added.foldl (fun known entry => known.insertIfNew entry.1 entry.2) occurrences

@[simp] theorem gather_nil (occurrences : Occurrences) : occurrences.gather [] = occurrences := rfl

@[simp] theorem gather_cons (occurrences : Occurrences) (entry : Name × Option Span)
    (added : List (Name × Option Span)) :
    occurrences.gather (entry :: added) =
      (occurrences.insertIfNew entry.1 entry.2).gather added := rfl

@[simp] theorem gather_append (occurrences : Occurrences)
    (first second : List (Name × Option Span)) :
    occurrences.gather (first ++ second) = (occurrences.gather first).gather second :=
  List.foldl_append

theorem mem_gather {occurrences : Occurrences} {added : List (Name × Option Span)} {name : Name} :
    name ∈ occurrences.gather added ↔ name ∈ occurrences ∨ name ∈ added.map Prod.fst := by
  induction added generalizing occurrences with
  | nil => simp
  | cons entry added induction =>
      rw [gather_cons, induction, mem_insertIfNew, List.map_cons, List.mem_cons]
      constructor
      · intro member
        rcases member with (same | known) | later
        · exact Or.inr (Or.inl same)
        · exact Or.inl known
        · exact Or.inr (Or.inr later)
      · intro member
        rcases member with known | same | later
        · exact Or.inl (Or.inr known)
        · exact Or.inl (Or.inl same)
        · exact Or.inr later

theorem mem_gather_empty {added : List (Name × Option Span)} {name : Name} :
    name ∈ (∅ : Occurrences).gather added ↔ name ∈ added.map Prod.fst := by
  rw [mem_gather]
  exact or_iff_right (not_mem_empty name)

@[simp] theorem union_empty (occurrences : Occurrences) : occurrences ∪ ∅ = occurrences := by
  apply ext_entries
  rw [entries_union]
  exact List.append_nil occurrences.entries

theorem union_insertIfNew (first second : Occurrences) (name : Name) (span : Option Span) :
    first ∪ second.insertIfNew name span = (first ∪ second).insertIfNew name span := by
  by_cases later : name ∈ second
  · have known : name ∈ first ∪ second := mem_union.mpr (Or.inr later)
    rw [insertIfNew_of_mem span later, insertIfNew_of_mem span known]
  · apply ext_entries
    rw [entries_union, entries_insertIfNew_of_not_mem span later, List.filter_append]
    by_cases earlier : name ∈ first
    · have known : name ∈ first ∪ second := mem_union.mpr (Or.inl earlier)
      rw [insertIfNew_of_mem span known, entries_union]
      simp [earlier]
    · have fresh : name ∉ first ∪ second := by
        intro known
        rcases mem_union.mp known with member | member
        · exact earlier member
        · exact later member
      rw [entries_insertIfNew_of_not_mem span fresh, entries_union]
      simp [earlier]

theorem union_gather (first second : Occurrences) (added : List (Name × Option Span)) :
    first ∪ second.gather added = (first ∪ second).gather added := by
  induction added generalizing second with
  | nil => rfl
  | cons entry added induction => rw [gather_cons, induction, union_insertIfNew, gather_cons]

theorem entries_without (occurrences known : Occurrences) :
    (occurrences.without known).entries =
      occurrences.entries.filter fun entry => entry.1 ∉ known := rfl

theorem without_congr (occurrences : Occurrences) {known other : Occurrences}
    (same : ∀ name, name ∈ known ↔ name ∈ other) :
    occurrences.without known = occurrences.without other := by
  apply ext_entries
  simp only [entries_without, same]

theorem without_insertIfNew (occurrences known : Occurrences) (name : Name) (span : Option Span) :
    (occurrences.insertIfNew name span).without known =
      if name ∈ known then occurrences.without known
      else (occurrences.without known).insertIfNew name span := by
  by_cases present : name ∈ occurrences
  · rw [insertIfNew_of_mem span present]
    split
    case isTrue => rfl
    case isFalse undeclared =>
      rw [insertIfNew_of_mem span (mem_without.mpr ⟨present, undeclared⟩)]
  · have absent : name ∉ occurrences.without known := by
      intro kept
      exact present (mem_without.mp kept).1
    apply ext_entries
    rw [entries_without, entries_insertIfNew_of_not_mem span present, List.filter_append,
      ← entries_without]
    split
    case isTrue declared => simp [declared]
    case isFalse undeclared =>
      rw [entries_insertIfNew_of_not_mem span absent]
      simp [undeclared]

theorem without_gather (occurrences known : Occurrences) (added : List (Name × Option Span)) :
    (occurrences.gather added).without known =
      (occurrences.without known).gather (added.filter fun entry => entry.1 ∉ known) := by
  induction added generalizing occurrences with
  | nil => rfl
  | cons entry added induction =>
      rw [gather_cons, induction, without_insertIfNew]
      by_cases declared : entry.1 ∈ known
      · simp [declared]
      · simp [declared]

theorem without_gather_empty (known : Occurrences) (added : List (Name × Option Span)) :
    ((∅ : Occurrences).gather added).without known =
      (∅ : Occurrences).gather (added.filter fun entry => entry.1 ∉ known) :=
  without_gather ∅ known added

theorem isSome_find?_iff {occurrences : Occurrences} {name : Name} :
    (occurrences.find? name).isSome ↔ name ∈ occurrences := by
  rw [find?, List.lookup_isSome_iff, mem_iff, List.mem_map]
  constructor
  · intro found
    obtain ⟨entry, member, same⟩ := found
    exact ⟨entry, member, (eq_of_beq same).symm⟩
  · intro listed
    obtain ⟨entry, member, same⟩ := listed
    exact ⟨entry, member, by simp [same]⟩

theorem find?_insertIfNew (occurrences : Occurrences) (name other : Name) (span : Option Span) :
    (occurrences.insertIfNew name span).find? other =
      (occurrences.find? other).or (if other == name then some span else none) := by
  by_cases known : name ∈ occurrences
  · rw [insertIfNew_of_mem span known]
    split
    case isTrue same =>
      have found : (occurrences.find? other).isSome :=
        isSome_find?_iff.mpr (eq_of_beq same ▸ known)
      rw [Option.or_of_isSome found]
    case isFalse => rw [Option.or_none]
  · rw [find?, entries_insertIfNew_of_not_mem span known, List.lookup_append, List.lookup_cons]
    apply congrArg
    split
    case h_1 same => rw [if_pos same]
    case h_2 other => rw [other, List.lookup_nil, if_neg Bool.false_ne_true]

theorem find?_gather (occurrences : Occurrences) (added : List (Name × Option Span))
    (name : Name) :
    (occurrences.gather added).find? name = (occurrences.find? name).or (added.lookup name) := by
  induction added generalizing occurrences with
  | nil => simp
  | cons entry added induction =>
      rw [gather_cons, induction, find?_insertIfNew, Option.or_assoc]
      apply congrArg
      rw [List.lookup_cons]
      split
      case isTrue same => simp [same]
      case isFalse other => simp [other]

theorem mem_entries_iff {occurrences : Occurrences} {name : Name} {span : Option Span} :
    (name, span) ∈ occurrences.entries ↔ occurrences.find? name = some span := by
  obtain ⟨entries, distinct⟩ := occurrences
  change (name, span) ∈ entries ↔ entries.lookup name = some span
  induction entries with
  | nil => simp
  | cons entry entries induction =>
      obtain ⟨fresh, distinct⟩ := List.nodup_cons.mp distinct
      rw [List.mem_cons, List.lookup_cons, induction distinct]
      by_cases same : name = entry.1
      · subst same
        have absent : entries.lookup entry.1 ≠ some span := by
          intro found
          have member : (entry.1, span) ∈ entries := (induction distinct).mpr found
          exact fresh (List.mem_map.mpr ⟨(entry.1, span), member, rfl⟩)
        simp [absent, Prod.ext_iff, eq_comm]
      · have other : (name == entry.1) = false := by simpa using same
        simp [other, same, Prod.ext_iff]

theorem mem_of_mem_entries_gather {added : List (Name × Option Span)} {entry : Name × Option Span}
    (member : entry ∈ ((∅ : Occurrences).gather added).entries) : entry ∈ added := by
  have found := mem_entries_iff.mp member
  have nothing : (∅ : Occurrences).find? entry.1 = none := rfl
  rw [find?_gather, nothing, Option.none_or] at found
  obtain ⟨before, after, rfl, _⟩ := List.lookup_eq_some_iff.mp found
  exact List.mem_append_right before List.mem_cons_self

/-- Where every name is new, nothing is left out. -/
theorem entries_gather_of_nodup {occurrences : Occurrences} {added : List (Name × Option Span)}
    (fresh : ((occurrences.entries ++ added).map Prod.fst).Nodup) :
    (occurrences.gather added).entries = occurrences.entries ++ added := by
  induction added generalizing occurrences with
  | nil => rw [gather_nil, List.append_nil]
  | cons entry added induction =>
      have new : entry.1 ∉ occurrences := by
        intro known
        rw [List.map_append, List.map_cons] at fresh
        exact (List.nodup_append.mp fresh).2.2 _ known _ List.mem_cons_self rfl
      have inserted := entries_insertIfNew_of_not_mem entry.2 new
      rw [List.append_cons] at fresh ⊢
      rw [gather_cons, induction (inserted ▸ fresh), inserted]

end Occurrences

namespace Scope

/-- What a scope leaves unresolved are its uses that it does not declare, in their order. -/
theorem unresolved_gather (handle : ScopeHandle) (declared used : List (Name × Option Span)) :
    (Scope.mk handle ((∅ : Occurrences).gather declared)
      ((∅ : Occurrences).gather used)).unresolved =
      (∅ : Occurrences).gather (used.filter fun use => use.1 ∉ declared.map Prod.fst) := by
  rw [unresolved, Occurrences.without_gather_empty]
  simp only [Occurrences.mem_gather_empty]

theorem promote_gather (outer : Scope) (handle : ScopeHandle)
    (declared used : List (Name × Option Span)) :
    outer.promote ⟨handle, (∅ : Occurrences).gather declared, (∅ : Occurrences).gather used⟩ =
      { outer with
        references :=
          outer.references.gather (used.filter fun use => use.1 ∉ declared.map Prod.fst) } := by
  rw [promote, unresolved_gather, Occurrences.union_gather, Occurrences.union_empty]

end Scope

end Unbound
