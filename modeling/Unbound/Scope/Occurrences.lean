import Unbound.Source.Span
import Unbound.Name.Basic

/-!
# Names and where they first occur

Adding a name again changes nothing, with or without a place. Names are kept in the order in which
they came.
-/

set_option autoImplicit false

namespace Unbound

structure Occurrences where
  entries : List (Name × Option Span)
  distinct : (entries.map Prod.fst).Nodup

namespace Occurrences

def empty : Occurrences := ⟨[], .nil⟩

instance : EmptyCollection Occurrences := ⟨empty⟩

instance : Inhabited Occurrences := ⟨empty⟩

def names (occurrences : Occurrences) : List Name := occurrences.entries.map Prod.fst

instance : Membership Name Occurrences where
  mem occurrences name := name ∈ occurrences.names

instance (name : Name) (occurrences : Occurrences) : Decidable (name ∈ occurrences) :=
  inferInstanceAs (Decidable (name ∈ occurrences.names))

def find? (occurrences : Occurrences) (name : Name) : Option (Option Span) :=
  occurrences.entries.lookup name

/-- Adds an occurrence, which counts if it is the first of its name. -/
def insertIfNew (occurrences : Occurrences) (name : Name) (span : Option Span) : Occurrences :=
  if known : name ∈ occurrences then occurrences
  else
    { entries := occurrences.entries ++ [(name, span)]
      distinct := by
        have absent : name ∉ occurrences.entries.map Prod.fst := known
        simp only [List.map_append, List.map_cons, List.map_nil, List.nodup_append]
        refine ⟨occurrences.distinct, by simp, ?_⟩
        intro other member added single same
        have equal : added = name := by simpa using single
        exact absent (by rw [← equal, ← same]; exact member) }

def without (occurrences known : Occurrences) : Occurrences where
  entries := occurrences.entries.filter fun entry => entry.1 ∉ known
  distinct := occurrences.distinct.sublist (List.filter_sublist.map Prod.fst)

theorem not_mem_of_mem_without {occurrences known : Occurrences} {name : Name}
    (member : name ∈ (occurrences.without known).entries.map Prod.fst) : name ∉ known := by
  obtain ⟨entry, kept, rfl⟩ := List.mem_map.mp member
  simpa [without] using (List.mem_filter.mp kept).2

/-- All occurrences, where those of `first` come before those of `second`. -/
def union (first second : Occurrences) : Occurrences where
  entries := first.entries ++ (second.without first).entries
  distinct := by
    rw [List.map_append, List.nodup_append]
    refine ⟨first.distinct, (second.without first).distinct, ?_⟩
    intro name earlier other later same
    subst same
    exact not_mem_of_mem_without later earlier

instance : Union Occurrences := ⟨union⟩

theorem ext_entries {left right : Occurrences} (same : left.entries = right.entries) :
    left = right := by
  cases left
  cases right
  cases same
  rfl

theorem mem_iff {name : Name} {occurrences : Occurrences} :
    name ∈ occurrences ↔ name ∈ occurrences.entries.map Prod.fst := Iff.rfl

@[simp] theorem not_mem_empty (name : Name) : name ∉ (empty : Occurrences) := by
  intro member
  cases member

theorem insertIfNew_of_mem {occurrences : Occurrences} {name : Name} (span : Option Span)
    (known : name ∈ occurrences) : occurrences.insertIfNew name span = occurrences := by
  rw [insertIfNew, dif_pos known]

theorem entries_insertIfNew_of_not_mem {occurrences : Occurrences} {name : Name}
    (span : Option Span) (fresh : name ∉ occurrences) :
    (occurrences.insertIfNew name span).entries = occurrences.entries ++ [(name, span)] := by
  rw [insertIfNew, dif_neg fresh]

@[simp] theorem mem_insertIfNew {occurrences : Occurrences} {name other : Name}
    {span : Option Span} :
    other ∈ occurrences.insertIfNew name span ↔ other = name ∨ other ∈ occurrences := by
  by_cases known : name ∈ occurrences
  · rw [insertIfNew_of_mem span known]
    constructor
    · exact Or.inr
    · intro either
      rcases either with same | member
      · exact same ▸ known
      · exact member
  · rw [mem_iff, entries_insertIfNew_of_not_mem span known, mem_iff]
    simp [or_comm]

@[simp] theorem mem_without {occurrences known : Occurrences} {name : Name} :
    name ∈ occurrences.without known ↔ name ∈ occurrences ∧ name ∉ known := by
  constructor
  · intro member
    have kept : (occurrences.without known).entries.map Prod.fst ⊆
        occurrences.entries.map Prod.fst := (List.filter_sublist.map Prod.fst).subset
    exact ⟨kept member, not_mem_of_mem_without member⟩
  · intro both
    obtain ⟨member, fresh⟩ := both
    obtain ⟨entry, stored, rfl⟩ := List.mem_map.mp member
    apply List.mem_map.mpr
    exact ⟨entry, List.mem_filter.mpr ⟨stored, by simpa using fresh⟩, rfl⟩

theorem entries_union (first second : Occurrences) :
    (first ∪ second).entries =
      first.entries ++ second.entries.filter fun entry => entry.1 ∉ first := rfl

@[simp] theorem mem_union {first second : Occurrences} {name : Name} :
    name ∈ first ∪ second ↔ name ∈ first ∨ name ∈ second := by
  have split : name ∈ first ∪ second ↔ name ∈ first ∨ name ∈ second.without first := by
    rw [mem_iff, entries_union, List.map_append, List.mem_append]
    rfl
  rw [split, mem_without]
  by_cases known : name ∈ first
  · simp [known]
  · simp [known]

end Occurrences

end Unbound
