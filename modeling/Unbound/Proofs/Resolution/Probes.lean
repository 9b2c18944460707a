import Unbound.Proofs.Resolution.Histories
import Unbound.Proofs.Resolution.Insertion

/-!
# What a probe changes

A declaration put into a program concerns the uses of its name in its own scope and the scopes
within. It can silence a use there, but it never makes one appear.
-/

set_option autoImplicit false

namespace Unbound

namespace History

/-- The first use that no scope open there declares and that lies outside a given scope. -/
def firstUnresolvedOutside? (history : History) (scope root : ScopeHandle) (name : Name) :
    Option ScopedUse :=
  history.uses.find? fun use => history.Unresolved root name use ∧ scope ∉ use.scopes

section

variable {first second : History} {scopes : List ScopeHandle} {scope root : ScopeHandle}
  {name other : Name} (span : Option Span)

theorem uses_declared :
    uses (first ++ (.declare name span, scopes) :: second) = uses (first ++ second) := by
  rw [uses_append, uses_append]
  rfl

variable (active : scopes.head? = some scope) (named : ¬ name.isEmpty)

include active named

theorem mem_declaredIn_declared {handle : ScopeHandle} :
    other ∈ declaredIn (first ++ (.declare name span, scopes) :: second) handle ↔
      other ∈ declaredIn (first ++ second) handle ∨ (handle = scope ∧ other = name) := by
  have alone : declaredIn [(.declare name span, scopes)] handle =
      (declaredName? handle (.declare name span, scopes)).toList := declaredIn_concat [] _ handle
  have here : other ∈ declaredIn [(.declare name span, scopes)] handle ↔
      handle = scope ∧ other = name := by
    rw [alone, Option.mem_toList, declaredName?_eq_some_iff, active,
      Option.some_inj, eq_comm (a := scope), eq_comm (a := name)]
    exact and_congr_left' (and_iff_left named)
  rw [List.append_cons, declaredIn_append, declaredIn_append, declaredIn_append, List.mem_append,
    List.mem_append, List.mem_append, here]
  exact or_right_comm

theorem declares_declared {handles : List ScopeHandle} :
    Declares (first ++ (.declare name span, scopes) :: second) handles other ↔
      Declares (first ++ second) handles other ∨ (other = name ∧ scope ∈ handles) := by
  simp only [Declares, mem_declaredIn_declared span active named, and_or_left, exists_or]
  apply or_congr_right
  constructor
  · rintro ⟨handle, member, rfl, same⟩
    exact ⟨same, member⟩
  · rintro ⟨same, member⟩
    exact ⟨scope, member, rfl, same⟩

theorem unresolved_declared {use : ScopedUse} :
    Unresolved (first ++ (.declare name span, scopes) :: second) root other use ↔
      Unresolved (first ++ second) root other use ∧ ¬ (other = name ∧ scope ∈ use.scopes) := by
  rw [Unresolved, Unresolved, declares_declared span active named, not_or]
  simp only [and_assoc]

/-- Another name is not concerned. -/
theorem firstUnresolved?_declared_of_ne (different : other ≠ name) :
    firstUnresolved? (first ++ (.declare name span, scopes) :: second) root other =
      firstUnresolved? (first ++ second) root other := by
  rw [firstUnresolved?, firstUnresolved?, uses_declared]
  simp only [unresolved_declared span active named, different, false_and, not_false_eq_true,
    and_true]

/-- Of the name itself there remain the uses elsewhere. -/
theorem firstUnresolved?_declared :
    firstUnresolved? (first ++ (.declare name span, scopes) :: second) root name =
      firstUnresolvedOutside? (first ++ second) scope root name := by
  rw [firstUnresolved?, firstUnresolvedOutside?, uses_declared]
  simp only [unresolved_declared span active named, true_and]

end

end History

namespace Program

variable {before after : Program} {host probe : NodeId} {name : Name}
  {move : NodeId → NodeRange → NodeRange} {ambient : Ambient} {interner : Interner}
  {argumentsName : Name}

/-- The root is open as long as the walk goes on, so there is an active scope. -/
theorem exists_active_of_ended (ended : (before.scopeTrace argumentsName).interruption = none)
    {first second : List ScopeEvent}
    (split : (before.scopeTrace argumentsName).events = first ++ second) :
    ∃ scope, ((Nesting.empty.step .enter).after first).handles.head? = some scope := by
  obtain ⟨outline, outlined⟩ := exists_hasOutline_iff.mpr ended
  obtain ⟨root, only, handle, _⟩ := exists_root_of_hasOutline .initial ∅ outlined
  -- The root is still open at the end, and no scope is opened again once it has been left.
  have nesting := (ScopeChain.empty .initial).nesting_applyAll (before.scopeEvents ∅ argumentsName)
  have atEnd : (⟨0⟩ : ScopeHandle) ∈
      (((Nesting.empty.step .enter).after first).after second).handles := by
    rw [← Nesting.after_append, ← split]
    change (⟨0⟩ : ScopeHandle) ∈
      ((ScopeChain.empty .initial).nesting.after (before.scopeEvents ∅ argumentsName)).handles
    rw [← nesting]
    exact List.mem_map.mpr ⟨root, only ▸ List.mem_cons_self, handle⟩
  have given : 0 < ((Nesting.empty.step .enter).after first).opened :=
    Nat.lt_of_lt_of_le Nat.zero_lt_one ((Nesting.empty.step .enter).opened_le_after first)
  have inside := Nesting.mem_handles_of_mem_handles_after given atEnd
  exact ⟨_, List.head?_eq_some_head (List.ne_nil_of_mem inside)⟩

theorem history_eq_of_split {front back : List ScopeEvent} {span : Option Span}
    {scope : ScopeHandle}
    (split : (before.scopeTrace argumentsName).events = front ++ back)
    (widened : (after.scopeTrace argumentsName).events = front ++ .declare name span :: back)
    (active : ((Nesting.empty.step .enter).after front).handles.head? = some scope)
    (ambient : Ambient) :
    ∃ first second scopes, scopes.head? = some scope ∧
      before.history ambient argumentsName = first ++ second ∧
      after.history ambient argumentsName = first ++ (.declare name span, scopes) :: second := by
  let opening : List ScopeEvent :=
    .enter :: (ambient.chain.map (fun name => .declare name none) ++ front)
  have sameNesting : Nesting.empty.after opening = (Nesting.empty.step .enter).after front := by
    change (Nesting.empty.step .enter).after _ = _
    rw [Nesting.after_append, Nesting.after_declares]
  refine ⟨Nesting.empty.history opening, (Nesting.empty.after opening).history back,
    (Nesting.empty.after opening).handles, ?_, ?_, ?_⟩
  · rw [sameNesting]
    exact active
  · rw [← History.history_append, history, scopeEvents, split, ← List.append_assoc]
    rfl
  · have next : (Nesting.empty.after opening).history (.declare name span :: back) =
        (.declare name span, (Nesting.empty.after opening).handles) ::
          (Nesting.empty.after opening).history back := rfl
    rw [← next, ← History.history_append, history, scopeEvents, widened, ← List.append_assoc]
    rfl

/-- The scope in which a check comes to the probe is the one that is active where its sights are
put in. -/
theorem scopeOf?_of_sights_eq {front back : List Sight} {event : ScopeEvent}
    (widened : after.sights argumentsName = front ++ [.node probe, .report event] ++ back)
    (unseen : .node probe ∉ front) :
    after.scopeOf? argumentsName probe =
      ((Nesting.empty.step .enter).after (Sight.eventsOf front)).handles.head? := by
  have others : ∀ sight ∈ front, decide (sight ≠ .node probe) = true := by
    intro sight member
    apply decide_eq_true
    rintro rfl
    exact unseen member
  have reached :
      (front ++ ([Sight.node probe, .report event] ++ back)).takeWhile (· ≠ Sight.node probe) =
        front := by
    rw [List.takeWhile_append_of_pos others, List.cons_append, List.takeWhile_cons_of_neg (by simp),
      List.append_nil]
  rw [scopeOf?, widened, List.append_assoc]
  simp only [reached]

/-- The events of the second program have one declaration more, in the scope of the probe. -/
theorem Inserts.exists_declared (inserts : before.Inserts after host probe name move)
    (ended : (before.scopeTrace argumentsName).interruption = none)
    (once : (before.sights argumentsName).count (.node host) = 1)
    (extra : .node probe ∉ before.sights argumentsName) :
    ∃ front back span scope, (before.scopeTrace argumentsName).events = front ++ back ∧
      (after.scopeTrace argumentsName).events = front ++ .declare name span :: back ∧
      (after.scopeTrace argumentsName).interruption = none ∧
      ((Nesting.empty.step .enter).after front).handles.head? = some scope ∧
      after.scopeOf? argumentsName probe = some scope := by
  obtain ⟨front, back, span, split, widened, endedToo⟩ := inserts.exists_sights_eq ended once
  have events : (before.scopeTrace argumentsName).events =
      Sight.eventsOf front ++ Sight.eventsOf back := by
    rw [events_scopeTrace, split, Sight.eventsOf_append]
  have eventsToo : (after.scopeTrace argumentsName).events =
      Sight.eventsOf front ++ .declare name span :: Sight.eventsOf back := by
    rw [events_scopeTrace, widened, Sight.eventsOf_append, Sight.eventsOf_append, List.append_assoc]
    rfl
  have unseen : .node probe ∉ front := by
    intro member
    apply extra
    rw [split]
    exact List.mem_append_left back member
  obtain ⟨scope, active⟩ := exists_active_of_ended ended events
  exact ⟨_, _, span, scope, events, eventsToo, endedToo, active,
    (scopeOf?_of_sights_eq widened unseen).trans active⟩

section

variable {free others : List FreeVariable} {first second : History} {scopes : List ScopeHandle}
  {scope : ScopeHandle} {span : Option Span}
  (named : ¬ name.isEmpty) (active : scopes.head? = some scope)
  (narrow : before.history ambient interner.argumentsName = first ++ second)
  (wide : after.history ambient interner.argumentsName =
    first ++ (.declare name span, scopes) :: second)
  (passedToo : after.check ambient interner = .ok others)

include named active narrow wide passedToo

theorem mem_names_check_declared_iff (other : Name) :
    other ∈ others.map FreeVariable.name ↔
      ∃ use ∈ (before.history ambient interner.argumentsName).uses,
        (before.history ambient interner.argumentsName).Unresolved ⟨0⟩ other use ∧
          ¬ (other = name ∧ scope ∈ use.scopes) := by
  rw [mem_names_check_iff passedToo, wide, narrow, History.uses_declared]
  simp only [History.unresolved_declared span active named]

theorem mem_check_declared_iff_of_ne (passed : before.check ambient interner = .ok free)
    {found : FreeVariable} (different : found.name ≠ name) : found ∈ others ↔ found ∈ free := by
  rw [mem_check_iff_firstUnresolved? passedToo, mem_check_iff_firstUnresolved? passed, wide, narrow,
    History.firstUnresolved?_declared_of_ne span active named different]

theorem mem_check_declared_iff {found : FreeVariable} (same : found.name = name) :
    found ∈ others ↔
      ∃ use,
        (before.history ambient interner.argumentsName).firstUnresolvedOutside? scope ⟨0⟩ name =
        some use ∧ use.span = some found.span := by
  rw [mem_check_iff_firstUnresolved? passedToo, wide, narrow, same,
    History.firstUnresolved?_declared span active named]

end

/-- A probe affects its own name only, and that only in the scope in which it stands and in those
within. Let one be put into the child list of a node that is visited once. Then the walk still ends,
and all other names are reported as before. Its own name is reported if it has a use that no scope
open there declares and that lies outside the scope of the probe, and then at the first such use. No
name is reported that was not reported before. -/
theorem probe_affects_own_scope (before after : Program) (interner : Interner)
    (host probe : NodeId) (name : Name) (move : NodeId → NodeRange → NodeRange)
    (inserts : before.Inserts after host probe name move)
    (ended : (before.scopeTrace interner.argumentsName).interruption = none)
    (once : (before.sights interner.argumentsName).count (.node host) = 1)
    (extra : .node probe ∉ before.sights interner.argumentsName) :
    (after.scopeTrace interner.argumentsName).interruption = none ∧
    ∃ scope, after.scopeOf? interner.argumentsName probe = some scope ∧
      ∀ ambient free others, before.check ambient interner = .ok free →
        after.check ambient interner = .ok others →
        (∀ found, found.name ≠ name → (found ∈ others ↔ found ∈ free)) ∧
        (name ∈ others.map FreeVariable.name ↔
          ∃ use ∈ (before.history ambient interner.argumentsName).uses,
            (before.history ambient interner.argumentsName).Unresolved ⟨0⟩ name use ∧
              scope ∉ use.scopes) ∧
        (∀ found ∈ others, found.name = name →
          ∃ use, (before.history ambient interner.argumentsName).firstUnresolvedOutside? scope ⟨0⟩
              name = some use ∧ use.span = some found.span) ∧
        ∀ found ∈ others, found.name ∈ free.map FreeVariable.name := by
  obtain ⟨front, back, span, scope, split, widened, endedToo, active, inside⟩ :=
    inserts.exists_declared ended once extra
  refine ⟨endedToo, scope, inside, ?_⟩
  intro ambient free others passed passedToo
  obtain ⟨first, second, scopes, activeToo, narrow, wide⟩ :=
    history_eq_of_split split widened active ambient
  have names := mem_names_check_declared_iff inserts.named activeToo narrow wide passedToo
  refine ⟨?_, ?_, ?_, ?_⟩
  · intro found different
    exact mem_check_declared_iff_of_ne inserts.named activeToo narrow wide passedToo passed
      different
  · rw [names name]
    simp only [true_and]
  · intro found member same
    exact (mem_check_declared_iff inserts.named activeToo narrow wide passedToo same).mp member
  · intro found member
    obtain ⟨use, inside, unresolved, _⟩ := (names found.name).mp (List.mem_map_of_mem member)
    exact (mem_names_check_iff passed).mpr ⟨use, inside, unresolved⟩

/-- The tree of `() => { undefined; }; undefined;`. -/
def closure : Program where
  arena :=
    { nodes := #[
        ⟨.reference ⟨1073741826⟩, some ⟨8, 17⟩⟩,
        ⟨.statement (.expression ⟨0⟩), some ⟨8, 18⟩⟩,
        ⟨.functionBody ⟨0, 1⟩, some ⟨6, 20⟩⟩,
        ⟨.function (.arrow ⟨0, 0⟩ ⟨2⟩), some ⟨0, 20⟩⟩,
        ⟨.statement (.expression ⟨3⟩), some ⟨0, 21⟩⟩,
        ⟨.reference ⟨1073741826⟩, some ⟨22, 31⟩⟩,
        ⟨.statement (.expression ⟨5⟩), some ⟨22, 32⟩⟩,
        ⟨.script ⟨1, 2⟩, some ⟨0, 32⟩⟩]
      entries := #[⟨1⟩, ⟨4⟩, ⟨6⟩] }
  root := ⟨7⟩

/-- The same with `typeof undefined` at the end of the function. Its body has a new list. -/
def closureProbed : Program where
  arena :=
    { nodes := (closure.arena.nodes.set! 2 ⟨.functionBody ⟨3, 2⟩, some ⟨6, 20⟩⟩) ++
        #[⟨.reference ⟨1073741826⟩, none⟩, ⟨.expression (.unary .typeOf ⟨8⟩), none⟩]
      entries := closure.arena.entries ++ #[⟨1⟩, ⟨9⟩] }
  root := ⟨7⟩

def moveBody (id : NodeId) (range : NodeRange) : NodeRange :=
  if id = ⟨2⟩ then ⟨3, 2⟩ else range

theorem inserts_closure : closure.Inserts closureProbed ⟨2⟩ ⟨9⟩ ⟨1073741826⟩ moveBody where
  root := rfl
  nodes id node found := by
    have each : ∀ index < 8, closureProbed.arena.nodes[index]? =
        (closure.arena.nodes[index]?).map (Node.relocate (moveBody (.ofIndex index))) := by
      decide +kernel
    rw [Arena.node_eq_ok_iff] at found ⊢
    have bound : id.index < closure.arena.nodes.size :=
      (Array.getElem?_eq_some_iff.mp found).choose
    rw [each id.index bound, found, NodeId.ofIndex_index]
    rfl
  lists id node range ids other _ _ listed := by
    have same : moveBody id range = range := if_neg other
    rw [same]
    exact closure.arena.list_pushList [⟨1⟩, ⟨9⟩] listed
  entry := ⟨_, ⟨0, 1⟩, [⟨1⟩], [], rfl, rfl, rfl, rfl⟩
  present := rfl
  named := by decide
  probes := .typeOf rfl rfl

/-- The use in the closure was reported, since it came first. It is silenced, the other is not. -/
theorem probe_of_closure :
    closure.check ∅ Interner.initial = .ok [⟨⟨1073741826⟩, ⟨8, 17⟩⟩] ∧
      closureProbed.check ∅ Interner.initial = .ok [⟨⟨1073741826⟩, ⟨22, 31⟩⟩] ∧
      closureProbed.scopeOf? Interner.initial.argumentsName ⟨9⟩ = some ⟨1⟩ ∧
      ∃ use, (closure.history ∅ Interner.initial.argumentsName).firstUnresolvedOutside? ⟨1⟩ ⟨0⟩
        ⟨1073741826⟩ = some use ∧ use.span = some ⟨22, 31⟩ := by
  have passed : closure.check ∅ Interner.initial = .ok [⟨⟨1073741826⟩, ⟨8, 17⟩⟩] :=
    check_eq_ok_of_located ⟨6, rfl⟩ (by decide +kernel) (by decide)
  have passedToo : closureProbed.check ∅ Interner.initial = .ok [⟨⟨1073741826⟩, ⟨22, 31⟩⟩] :=
    check_eq_ok_of_located ⟨6, rfl⟩ (by decide +kernel) (by decide)
  have ended : (closure.scopeTrace Interner.initial.argumentsName).interruption = none :=
    exists_hasOutline_iff.mp ⟨_, 6, rfl⟩
  have once : (closure.sights Interner.initial.argumentsName).count (.node ⟨2⟩) = 1 := by
    rw [sights, sightTrace, Arena.walk_eq_trace]
    decide +kernel
  have extra : .node ⟨9⟩ ∉ closure.sights Interner.initial.argumentsName := by
    rw [sights, sightTrace, Arena.walk_eq_trace]
    decide +kernel
  have inside : closureProbed.scopeOf? Interner.initial.argumentsName ⟨9⟩ = some ⟨1⟩ := by
    rw [scopeOf?, sights, sightTrace, Arena.walk_eq_trace]
    decide +kernel
  obtain ⟨_, scope, active, affects⟩ :=
    probe_affects_own_scope closure closureProbed Interner.initial
    ⟨2⟩ ⟨9⟩ ⟨1073741826⟩ moveBody inserts_closure ended once extra
  cases active.symm.trans inside
  obtain ⟨_, _, first, _⟩ := affects ∅ _ _ passed passedToo
  exact ⟨passed, passedToo, inside, first _ List.mem_cons_self rfl⟩

end Program

end Unbound
