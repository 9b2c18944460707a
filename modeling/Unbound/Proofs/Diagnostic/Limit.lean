import Unbound.Diagnostic.Queue

/-!
# Lists cut at a limit

What a limit shows of a list and the first item that it hides. A limit of zero hides nothing.
-/

set_option autoImplicit false

namespace Unbound

namespace Diagnostic.Policy

variable {Item : Type}

/-- What is kept of a list under the limit. -/
def shown (policy : Policy) (items : List Item) : List Item :=
  if policy.limit = 0 then items else items.take policy.limit

/-- The first item that the limit keeps out. -/
def firstHidden? (policy : Policy) (items : List Item) : Option Item :=
  if policy.limit = 0 then none else items[policy.limit]?

def Full (policy : Policy) (items : List Item) : Prop :=
  0 < policy.limit ∧ policy.limit ≤ items.length

variable {policy : Policy} {items : List Item} {item : Item}

theorem shown_of_not_full (room : ¬ policy.Full items) : policy.shown items = items := by
  rw [Full] at room
  rw [shown]
  split
  case isTrue => rfl
  case isFalse limited => exact List.take_of_length_le (by omega)

theorem shown_concat_of_not_full (room : ¬ policy.Full items) :
    policy.shown (items ++ [item]) = policy.shown items ++ [item] := by
  rw [Full] at room
  rw [shown, shown]
  split
  case isTrue => rfl
  case isFalse limited =>
    rw [List.take_of_length_le (by simp; omega), List.take_of_length_le (by omega)]

theorem shown_concat_of_full (full : policy.Full items) :
    policy.shown (items ++ [item]) = policy.shown items := by
  obtain ⟨limited, reached⟩ := full
  rw [shown, shown, if_neg (by omega), if_neg (by omega)]
  exact List.take_append_of_le_length reached

theorem firstHidden?_concat_of_not_full (room : ¬ policy.Full items) :
    policy.firstHidden? (items ++ [item]) = policy.firstHidden? items := by
  rw [Full] at room
  rw [firstHidden?, firstHidden?]
  split
  case isTrue => rfl
  case isFalse limited =>
    rw [List.getElem?_eq_none (by simp; omega), List.getElem?_eq_none (by omega)]

theorem firstHidden?_concat_of_full (full : policy.Full items) :
    policy.firstHidden? (items ++ [item]) = (policy.firstHidden? items).or (some item) := by
  obtain ⟨limited, reached⟩ := full
  rw [firstHidden?, firstHidden?, if_neg (by omega), if_neg (by omega)]
  by_cases same : policy.limit = items.length
  · rw [same, List.getElem?_concat_length, List.getElem?_eq_none (Nat.le_refl _), Option.none_or]
  · have inside : policy.limit < items.length := by omega
    rw [List.getElem?_append_left inside, List.getElem?_eq_getElem inside, Option.some_or]

theorem full_iff_le_length_shown :
    policy.Full items ↔ 0 < policy.limit ∧ policy.limit ≤ (policy.shown items).length := by
  rw [Full, shown]
  split
  case isTrue => rfl
  case isFalse =>
    rw [List.length_take]
    omega

theorem length_shown_le (limited : 0 < policy.limit) :
    (policy.shown items).length ≤ policy.limit := by
  rw [shown, if_neg (Nat.ne_of_gt limited)]
  exact List.length_take_le _ _

theorem shown_eq_nil_iff : policy.shown items = [] ↔ items = [] := by
  rw [shown]
  split
  case isTrue => rfl
  case isFalse limited => simp [limited]

theorem shown_sublist : (policy.shown items).Sublist items := by
  rw [shown]
  split
  case isTrue => exact List.Sublist.refl items
  case isFalse => exact List.take_sublist _ _

theorem shown_map {Other : Type} (change : Item → Other) :
    policy.shown (items.map change) = (policy.shown items).map change := by
  rw [shown, shown]
  split
  case isTrue => rfl
  case isFalse => exact List.map_take.symm

theorem firstHidden?_map {Other : Type} (change : Item → Other) :
    policy.firstHidden? (items.map change) = (policy.firstHidden? items).map change := by
  rw [firstHidden?, firstHidden?]
  split
  case isTrue => rfl
  case isFalse => exact List.getElem?_map

end Diagnostic.Policy

end Unbound
