import Unbound.Proofs.Scope.Nesting

/-!
# Resolution read off a history

The history notes for each event which scopes were open. In hindsight it says of every use whether a
scope open then declares the name at any time. What a chain of scopes has kept so far and what is
still to come are weighed together: the first unresolved use among both is the same before and after
each event.
-/

set_option autoImplicit false

namespace Unbound

/-- Scope events, each with the scopes that are open when it occurs, innermost first. -/
abbrev History := List (ScopeEvent × List ScopeHandle)

def Nesting.history (nesting : Nesting) : List ScopeEvent → History
  | [] => []
  | event :: events => (event, nesting.handles) :: (nesting.step event).history events

structure ScopedUse where
  name : Name
  span : Option Span
  scopes : List ScopeHandle
deriving DecidableEq, Repr

namespace History

def use? : ScopeEvent × List ScopeHandle → Option ScopedUse
  | (.reference name span, scopes) => some ⟨name, span, scopes⟩
  | _ => none

/-- The name that is declared in the scope, which has to be the active one. -/
def declaredName? (scope : ScopeHandle) : ScopeEvent × List ScopeHandle → Option Name
  | (.declare name _, scopes) =>
      if scopes.head? = some scope ∧ ¬ name.isEmpty then some name else none
  | _ => none

def uses (history : History) : List ScopedUse := history.filterMap use?

/-- The names that are declared in the scope at any time. -/
def declaredIn (history : History) (scope : ScopeHandle) : List Name :=
  history.filterMap (declaredName? scope)

/-- One of the scopes declares the name, be it before or after a use. -/
def Declares (history : History) (scopes : List ScopeHandle) (name : Name) : Prop :=
  ∃ scope ∈ scopes, name ∈ history.declaredIn scope

instance (history : History) (scopes : List ScopeHandle) (name : Name) :
    Decidable (history.Declares scopes name) :=
  inferInstanceAs (Decidable (∃ scope ∈ scopes, name ∈ history.declaredIn scope))

/-- A use of the name while the root was open that no scope open at that time declares. -/
def Unresolved (history : History) (root : ScopeHandle) (name : Name) (use : ScopedUse) : Prop :=
  use.name = name ∧ use.scopes.getLast? = some root ∧ ¬ history.Declares use.scopes name

instance (history : History) (root : ScopeHandle) (name : Name) (use : ScopedUse) :
    Decidable (history.Unresolved root name use) :=
  inferInstanceAs (Decidable (_ ∧ _ ∧ _))

def firstUnresolved? (history : History) (root : ScopeHandle) (name : Name) : Option ScopedUse :=
  history.uses.find? fun use => history.Unresolved root name use

theorem uses_append (first second : History) : uses (first ++ second) = uses first ++ uses second :=
  List.filterMap_append

theorem declaredIn_append (first second : History) (scope : ScopeHandle) :
    declaredIn (first ++ second) scope = declaredIn first scope ++ declaredIn second scope :=
  List.filterMap_append

theorem declares_cons {history : History} {scope : ScopeHandle} {outer : List ScopeHandle}
    {name : Name} :
    history.Declares (scope :: outer) name ↔
      name ∈ history.declaredIn scope ∨ history.Declares outer name := by
  simp only [Declares, List.mem_cons, exists_eq_or_imp]

theorem declaredIn_history_of_left {nesting : Nesting} {scope : ScopeHandle}
    (left : nesting.Left scope) (events : List ScopeEvent) :
    declaredIn (nesting.history events) scope = [] := by
  induction events generalizing nesting with
  | nil => rfl
  | cons event events induction =>
      have silent : declaredName? scope (event, nesting.handles) = none := by
        cases event with
        | declare name span =>
            apply if_neg
            intro declared
            exact left.2 (List.mem_of_mem_head? declared.1)
        | _ => rfl
      rw [Nesting.history, declaredIn, List.filterMap_cons_none silent]
      exact induction (left.step event)

theorem history_append (nesting : Nesting) (first second : List ScopeEvent) :
    nesting.history (first ++ second) =
      nesting.history first ++ (nesting.after first).history second := by
  induction first generalizing nesting with
  | nil => rfl
  | cons event first induction =>
      rw [List.cons_append, Nesting.history, Nesting.history, induction]
      rfl

end History

namespace Occurrences

theorem lookup_filter_fst (entries : List (Name × Option Span)) (keep : Name → Bool) (name : Name) :
    (entries.filter fun entry => keep entry.1).lookup name =
      if keep name then entries.lookup name else none := by
  induction entries with
  | nil => exact (ite_self none).symm
  | cons entry entries induction =>
      obtain ⟨key, place⟩ := entry
      rw [List.filter_cons]
      by_cases same : name = key
      · subst same
        by_cases kept : keep name
        · simp only [kept, if_true, List.lookup_cons_self]
        · rw [if_neg kept, induction, if_neg kept, if_neg kept]
      · have other : (name == key) = false := beq_eq_false_iff_ne.mpr same
        have skipped : ((key, place) :: entries).lookup name = entries.lookup name := by
          simp only [List.lookup_cons, other]
        rw [skipped, ← induction]
        split
        case isTrue => simp only [List.lookup_cons, other]
        case isFalse => rfl

theorem find?_without (occurrences known : Occurrences) (name : Name) :
    (occurrences.without known).find? name =
      if name ∈ known then none else occurrences.find? name := by
  rw [find?, entries_without, lookup_filter_fst occurrences.entries (· ∉ known)]
  simp only [decide_not, Bool.not_eq_true', decide_eq_false_iff_not, ite_not]
  rfl

theorem find?_union (first second : Occurrences) (name : Name) :
    (first ∪ second).find? name = (first.find? name).or (second.find? name) := by
  rw [find?, entries_union, List.lookup_append,
    lookup_filter_fst second.entries (· ∉ first)]
  by_cases known : name ∈ first
  · rw [← find?, Option.or_of_isSome (isSome_find?_iff.mpr known),
      Option.or_of_isSome (isSome_find?_iff.mpr known)]
  · simp only [known, not_false_eq_true, decide_true, if_true]
    rfl

end Occurrences

namespace Scope

theorem find?_unresolved (scope : Scope) (name : Name) :
    scope.unresolved.find? name =
      if name ∈ scope.declarations then none else scope.references.find? name :=
  Occurrences.find?_without scope.references scope.declarations name

theorem find?_references_promote (outer inner : Scope) (name : Name) :
    (outer.promote inner).references.find? name =
      (outer.references.find? name).or (inner.unresolved.find? name) :=
  Occurrences.find?_union outer.references inner.unresolved name

end Scope

namespace History

/-- The place of the first use in a part of the history that the whole of it leaves unresolved. -/
def firstPlace? (history : History) (root : ScopeHandle) (name : Name) (part : History) :
    Option (Option Span) :=
  (part.uses.find? fun use => history.Unresolved root name use).map ScopedUse.span

theorem firstPlace?_append (history : History) (root : ScopeHandle) (name : Name)
    (first second : History) :
    history.firstPlace? root name (first ++ second) =
      (history.firstPlace? root name first).or (history.firstPlace? root name second) := by
  rw [firstPlace?, uses_append, List.find?_append, Option.map_or]
  rfl

theorem firstPlace?_reference {history : History} {root : ScopeHandle} {name used : Name}
    {span : Option Span} {scopes : List ScopeHandle} :
    history.firstPlace? root name [(.reference used span, scopes)] =
      if history.Unresolved root name ⟨used, span, scopes⟩ then some span else none := by
  have only : uses [(.reference used span, scopes)] = [⟨used, span, scopes⟩] := rfl
  rw [firstPlace?, only, List.find?_singleton]
  simp only [decide_eq_true_eq]
  split
  case isTrue => rfl
  case isFalse => rfl

/-- The first place kept for the name in the scopes, of those that the history leaves unresolved.
Places kept further out are older. -/
def keptIn (history : History) (name : Name) : List Scope → Option (Option Span)
  | [] => none
  | scope :: outer =>
      (history.keptIn name outer).or
        (if history.Declares (scope.handle :: outer.map Scope.handle) name then none
          else scope.references.find? name)

end History

namespace ScopeChain

variable (history : History) (root : ScopeHandle) (name : Name)

def kept? (chain : ScopeChain) : Option (Option Span) :=
  if chain.handles.getLast? = some root then history.keptIn name chain.scopes else none

theorem kept?_enter (chain : ScopeChain) :
    chain.enter.2.kept? history root name = chain.kept? history root name := by
  obtain ⟨scopes, opened⟩ := chain
  have fresh : history.keptIn name (⟨⟨opened⟩, ∅, ∅⟩ :: scopes) = history.keptIn name scopes := by
    have nothing : (∅ : Occurrences).find? name = none := rfl
    rw [History.keptIn, nothing, ite_self, Option.or_none]
  rw [kept?, kept?, enter, handles, handles]
  dsimp only
  rw [fresh]
  cases scopes with
  | nil =>
      rw [History.keptIn]
      exact (ite_self none).trans (ite_self none).symm
  | cons scope outer => rw [List.map_cons, List.map_cons, List.getLast?_cons_cons]

theorem kept?_declare (chain : ScopeChain) (declared : Name) (span : Option Span) :
    (chain.declare declared span).kept? history root name = chain.kept? history root name := by
  obtain ⟨scopes, opened, interner⟩ := chain
  rw [declare]
  split
  case isTrue => rfl
  case isFalse => cases scopes <;> rfl

theorem kept?_reference (chain : ScopeChain) (used : Name) (span : Option Span) :
    (chain.reference used span).kept? history root name =
      (chain.kept? history root name).or
        (history.firstPlace? root name [(.reference used span, chain.handles)]) := by
  rw [History.firstPlace?_reference]
  obtain ⟨scopes, opened, interner⟩ := chain
  cases scopes with
  | nil =>
      have outside : ¬ history.Unresolved root name ⟨used, span, []⟩ := by
        intro unresolved
        cases unresolved.2.1
      rw [handles, List.map_nil, if_neg outside]
      exact Option.or_none.symm
  | cons scope outer =>
      have same : (reference ⟨scope :: outer, opened, interner⟩ used span).handles =
          scope.handle :: outer.map Scope.handle := handles_reference _ used span
      have here : handles ⟨scope :: outer, opened, interner⟩ =
          scope.handle :: outer.map Scope.handle := rfl
      rw [kept?, kept?, same, here]
      by_cases inRoot : (scope.handle :: outer.map Scope.handle).getLast? = some root
      · rw [if_pos inRoot, if_pos inRoot, reference, History.keptIn, History.keptIn,
          Option.or_assoc]
        apply congrArg
        dsimp only
        by_cases declared : history.Declares (scope.handle :: outer.map Scope.handle) name
        · have resolved : ¬ history.Unresolved root name
              ⟨used, span, scope.handle :: outer.map Scope.handle⟩ :=
            fun unresolved => unresolved.2.2 declared
          rw [if_pos declared, if_pos declared, if_neg resolved]
          rfl
        · have unresolved : history.Unresolved root name
              ⟨used, span, scope.handle :: outer.map Scope.handle⟩ ↔ (name == used) = true := by
            rw [History.Unresolved, beq_iff_eq, eq_comm]
            exact and_iff_left ⟨inRoot, declared⟩
          rw [if_neg declared, if_neg declared, Occurrences.find?_insertIfNew]
          simp only [unresolved]
      · have elsewhere : ¬ history.Unresolved root name
            ⟨used, span, scope.handle :: outer.map Scope.handle⟩ :=
          fun unresolved => inRoot unresolved.2.1
        rw [if_neg inRoot, if_neg inRoot, if_neg elsewhere]
        rfl

theorem keptIn_promote {history : History} {name : Name} (scope parent : Scope) (rest : List Scope)
    (agrees : name ∈ scope.declarations ↔ name ∈ history.declaredIn scope.handle) :
    history.keptIn name (parent.promote scope :: rest) =
      history.keptIn name (scope :: parent :: rest) := by
  have sameHandle : (parent.promote scope).handle = parent.handle := rfl
  rw [History.keptIn, History.keptIn, History.keptIn, Option.or_assoc, sameHandle, List.map_cons]
  apply congrArg
  have inner : history.Declares (scope.handle :: (parent :: rest).map Scope.handle) name ↔
      name ∈ scope.declarations ∨
        history.Declares (parent.handle :: rest.map Scope.handle) name := by
    rw [agrees]
    exact History.declares_cons
  rw [List.map_cons] at inner
  simp only [inner]
  by_cases covered : history.Declares (parent.handle :: rest.map Scope.handle) name
  · rw [if_pos covered, if_pos covered, if_pos (Or.inr covered)]
    rfl
  · rw [if_neg covered, if_neg covered, Scope.find?_references_promote, Scope.find?_unresolved]
    simp only [covered, or_false]

theorem kept?_leave {history : History} {root : ScopeHandle} {name : Name} (chain : ScopeChain)
    (agrees : ∀ scope ∈ chain.scopes,
      chain.active? = some scope.handle →
        (name ∈ scope.declarations ↔ name ∈ history.declaredIn scope.handle))
    (stays : chain.active? ≠ some root) :
    (chain.apply .leave).kept? history root name = chain.kept? history root name := by
  rw [apply]
  cases active : chain.active? with
  | none => rfl
  | some handle =>
      dsimp only
      rcases leave_cases active with last | inner
      · obtain ⟨scope, only, rfl, left⟩ := last
        have other : ¬ some scope.handle = some root := active ▸ stays
        rw [left, kept?, kept?, handles, handles, only, List.map_singleton,
          List.getLast?_singleton, if_neg other]
        rfl
      · obtain ⟨scope, parent, rest, open', rfl, left⟩ := inner
        have closing := agrees scope (by rw [open']; exact List.mem_cons_self) active
        have sameRoot : ((scope :: parent :: rest).map Scope.handle).getLast? =
            ((parent.promote scope :: rest).map Scope.handle).getLast? := List.getLast?_cons_cons
        rw [left, kept?, kept?, handles, handles, open', sameRoot,
          keptIn_promote scope parent rest closing]

/-- One event: what is kept afterwards is what was kept before, or else the event itself. -/
theorem kept?_apply {history : History} {root : ScopeHandle} {name : Name} (chain : ScopeChain)
    (event : ScopeEvent)
    (agrees : ∀ scope ∈ chain.scopes,
      event = .leave → chain.active? = some scope.handle →
        (name ∈ scope.declarations ↔ name ∈ history.declaredIn scope.handle))
    (stays : event = .leave → chain.active? ≠ some root) :
    (chain.apply event).kept? history root name =
      (chain.kept? history root name).or
        (history.firstPlace? root name [(event, chain.handles)]) := by
  cases event with
  | enter => exact (kept?_enter history root name chain).trans Option.or_none.symm
  | declare declared span =>
      exact (kept?_declare history root name chain declared span).trans Option.or_none.symm
  | reference used span => exact kept?_reference history root name chain used span
  | leave =>
      have same : (chain.apply .leave).kept? history root name = chain.kept? history root name :=
        kept?_leave chain (fun scope member => agrees scope member rfl) (stays rfl)
      exact same.trans Option.or_none.symm

end ScopeChain

namespace History

theorem declaredIn_concat (past : History) (entry : ScopeEvent × List ScopeHandle)
    (scope : ScopeHandle) :
    declaredIn (past ++ [entry]) scope =
      past.declaredIn scope ++ (declaredName? scope entry).toList := by
  rw [declaredIn_append]
  apply congrArg
  rw [declaredIn, List.filterMap_cons]
  cases declaredName? scope entry <;> rfl

theorem declaredName?_eq_some_iff {scope : ScopeHandle} {scopes : List ScopeHandle}
    {declared name : Name} {span : Option Span} :
    declaredName? scope (.declare declared span, scopes) = some name ↔
      (scopes.head? = some scope ∧ ¬ declared.isEmpty) ∧ declared = name := by
  rw [declaredName?, Option.ite_none_right_eq_some, Option.some_inj]

end History

namespace ScopeChain

variable {chain : ScopeChain} {past : History}

/-- Each open scope holds the declarations that the history so far has for it. -/
structure Records (chain : ScopeChain) (past : History) : Prop where
  numbered : chain.nesting.Numbered
  declared : ∀ scope ∈ chain.scopes, ∀ name,
    name ∈ scope.declarations ↔ name ∈ past.declaredIn scope.handle
  unseen : ∀ handle : ScopeHandle, chain.opened ≤ handle.number → past.declaredIn handle = []

theorem records_empty (interner : Interner) : (empty interner).Records [] where
  numbered := Nesting.numbered_empty
  declared _ member := by cases member
  unseen _ _ := rfl

theorem mem_scopes_declare {declared : Name} {span : Option Span} {after : Scope}
    (numbered : chain.nesting.Numbered)
    (member : after ∈ (chain.declare declared span).scopes) :
    ∃ before ∈ chain.scopes, after.handle = before.handle ∧
      ∀ name, name ∈ after.declarations ↔ name ∈ before.declarations ∨
        History.declaredName? before.handle (.declare declared span, chain.handles) =
          some name := by
  obtain ⟨scopes, opened⟩ := chain
  simp only [History.declaredName?_eq_some_iff]
  rw [declare] at member
  split at member
  case isTrue empty => exact ⟨after, member, rfl, by simp [empty]⟩
  case isFalse named =>
    cases scopes with
    | nil => cases member
    | cons scope outer =>
        rcases List.mem_cons.mp member with rfl | further
        · refine ⟨scope, List.mem_cons_self, rfl, ?_⟩
          intro name
          rw [Occurrences.mem_insertIfNew, or_comm, eq_comm]
          simp [handles, named]
        · refine ⟨after, List.mem_cons_of_mem scope further, rfl, ?_⟩
          intro name
          have lower := (List.pairwise_cons.mp numbered.falling).1 after.handle
            (List.mem_map_of_mem further)
          have other : scope.handle ≠ after.handle := by
            intro same
            exact Nat.lt_irrefl _ (same ▸ lower)
          simp [handles, other]

/-- What one event does to the declarations of the scopes that are open afterwards. -/
theorem mem_scopes_apply {event : ScopeEvent} {after : Scope} (numbered : chain.nesting.Numbered)
    (member : after ∈ (chain.apply event).scopes) :
    (event = .enter ∧ after = ⟨⟨chain.opened⟩, ∅, ∅⟩) ∨
    ∃ before ∈ chain.scopes, after.handle = before.handle ∧
      ∀ name, name ∈ after.declarations ↔ name ∈ before.declarations ∨
        History.declaredName? before.handle (event, chain.handles) = some name := by
  cases event with
  | enter =>
      rcases List.mem_cons.mp member with rfl | further
      · exact Or.inl ⟨rfl, rfl⟩
      · exact Or.inr ⟨after, further, rfl, by simp [History.declaredName?]⟩
  | declare declared span => exact Or.inr (mem_scopes_declare numbered member)
  | reference used span =>
      obtain ⟨scopes, opened⟩ := chain
      cases scopes with
      | nil => cases member
      | cons scope outer =>
          rcases List.mem_cons.mp member with rfl | further
          · exact Or.inr ⟨scope, List.mem_cons_self, rfl, by simp [History.declaredName?]⟩
          · exact Or.inr ⟨after, List.mem_cons_of_mem scope further, rfl,
              by simp [History.declaredName?]⟩
  | leave =>
      rw [apply] at member
      cases active : chain.active? with
      | none =>
          rw [active] at member
          exact Or.inr ⟨after, member, rfl, by simp [History.declaredName?]⟩
      | some handle =>
          rw [active] at member
          dsimp only at member
          rcases leave_cases active with last | inner
          · obtain ⟨scope, only, _, left⟩ := last
            rw [left] at member
            cases member
          · obtain ⟨scope, parent, rest, open', _, left⟩ := inner
            rw [left] at member
            rw [open']
            rcases List.mem_cons.mp member with rfl | further
            · exact Or.inr ⟨parent, by simp, rfl, by simp [History.declaredName?, Scope.promote]⟩
            · exact Or.inr ⟨after, by simp [further], rfl, by simp [History.declaredName?]⟩

theorem Records.apply (records : chain.Records past) (event : ScopeEvent) :
    (chain.apply event).Records (past ++ [(event, chain.handles)]) := by
  have opens := chain.nesting_apply event
  constructor
  · rw [opens]
    exact records.numbered.step event
  · intro after member name
    rw [History.declaredIn_concat, List.mem_append, Option.mem_toList]
    rcases mem_scopes_apply records.numbered member with fresh | older
    · obtain ⟨rfl, rfl⟩ := fresh
      rw [records.unseen _ (Nat.le_refl _)]
      exact iff_of_false (Occurrences.not_mem_empty name) (by simp [History.declaredName?])
    · obtain ⟨before, inside, same, declares⟩ := older
      rw [declares name, records.declared before inside name, same]
  · intro handle later
    have opened : chain.opened ≤ handle.number := by
      apply Nat.le_trans (chain.nesting.opened_le_step event)
      rw [← opens]
      exact later
    have silent : History.declaredName? handle (event, chain.handles) = none := by
      cases event with
      | declare name span =>
          apply if_neg
          intro declares
          have given := records.numbered.given handle (List.mem_of_mem_head? declares.1)
          exact absurd opened (Nat.not_le.mpr given)
      | _ => rfl
    rw [History.declaredIn_concat, records.unseen handle opened, silent]
    rfl

/-- When the active scope is left, no declaration of it is still to come. -/
theorem Records.mem_declarations_iff (records : chain.Records past) {scope : Scope} {name : Name}
    (inside : scope ∈ chain.scopes) (active : chain.active? = some scope.handle)
    (events : List ScopeEvent) :
    name ∈ scope.declarations ↔
      name ∈ (past ++ chain.nesting.history (.leave :: events)).declaredIn scope.handle := by
  have left := records.numbered.left_step_leave (chain.head?_handles.trans active)
  have nothing : History.declaredIn (chain.nesting.history (.leave :: events)) scope.handle = [] :=
    History.declaredIn_history_of_left left events
  rw [History.declaredIn_append, nothing, List.append_nil]
  exact records.declared scope inside name

/-- All events: when one scope is left open, it has kept the place of the first use in its lifetime
that the whole history leaves unresolved. -/
theorem Records.find?_unresolved (records : chain.Records past) {events : List ScopeEvent}
    {scope : Scope} (last : (chain.applyAll events).scopes = [scope]) {history : History}
    (whole : history = past ++ chain.nesting.history events) (name : Name) :
    scope.unresolved.find? name =
      (chain.kept? history scope.handle name).or
        (history.firstPlace? scope.handle name (chain.nesting.history events)) := by
  induction events generalizing chain past with
  | nil =>
      have only : chain.scopes = [scope] := last
      have declared := records.declared scope (only ▸ List.mem_cons_self) name
      have root : chain.handles = [scope.handle] := by rw [handles, only, List.map_singleton]
      have nothing : history = past := whole.trans (List.append_nil past)
      have finished : history.firstPlace? scope.handle name (chain.nesting.history []) = none := rfl
      have alone : history.Declares [scope.handle] name ↔ name ∈ scope.declarations := by
        rw [declared, nothing, History.Declares]
        simp only [List.mem_singleton, exists_eq_left]
      rw [finished, Option.or_none, Scope.find?_unresolved, kept?, root, List.getLast?_singleton,
        if_pos rfl, only, History.keptIn, History.keptIn, List.map_nil, Option.none_or]
      simp only [alone]
  | cons event events induction =>
      have opens := chain.nesting_apply event
      have entries : past ++ chain.nesting.history (event :: events) =
          past ++ [(event, chain.handles)] ++ (chain.apply event).nesting.history events := by
        rw [opens, Nesting.history, List.append_cons]
        rfl
      have split : chain.nesting.history (event :: events) =
          [(event, chain.handles)] ++ (chain.apply event).nesting.history events := by
        rw [opens]
        rfl
      have later := induction (records.apply event) last (whole.trans entries)
      have stays : event = .leave → chain.active? ≠ some scope.handle := by
        rintro rfl active
        have left := records.numbered.left_step_leave (chain.head?_handles.trans active)
        have gone := (left.after events).2
        rw [← opens, ← nesting_applyAll] at gone
        apply gone
        exact List.mem_map.mpr ⟨scope, last ▸ List.mem_cons_self, rfl⟩
      have agrees : ∀ inner ∈ chain.scopes, event = .leave → chain.active? = some inner.handle →
          (name ∈ inner.declarations ↔ name ∈ history.declaredIn inner.handle) := by
        rintro inner inside rfl active
        rw [whole]
        exact records.mem_declarations_iff inside active events
      rw [later, kept?_apply chain event agrees stays, Option.or_assoc, split,
        History.firstPlace?_append]

end ScopeChain

/-- When one scope is left open, it holds for each name the place of the first use in its lifetime
that no scope open there declares. -/
theorem ScopeChain.find?_unresolved_applyAll {interner : Interner} {events : List ScopeEvent}
    {scope : Scope} (last : ((empty interner).applyAll events).scopes = [scope]) (name : Name) :
    scope.unresolved.find? name =
      ((Nesting.empty.history events).firstUnresolved? scope.handle name).map ScopedUse.span :=
  (records_empty interner).find?_unresolved last rfl name

end Unbound
