import Unbound.Report
import Unbound.Proofs.Scope.FreeVariables
import Unbound.Proofs.Resolution.Replay

/-!
# Deferred resolution is lexical resolution

A check decides about a use when scopes are left. What remains when it leaves the root is what no
scope around a use declares, in the order of the walk.
-/

set_option autoImplicit false

namespace Unbound

namespace Outline

def Use.entry (use : Use) : Name × Option Span := (use.name, use.span)

theorem declared_eq (outline : Outline) :
    outline.declared = outline.declarations.map Prod.fst := by
  induction outline with
  | nothing => rfl
  | use name span => rfl
  | declare name span =>
      rw [declared, declarations]
      split
      case isTrue => rfl
      case isFalse => rfl
  | next first second inFirst inSecond =>
      rw [declared, declarations, inFirst, inSecond, List.map_append]
  | scope inner _ => rfl

/-- The uses left to the scopes around an outline are the pending ones that none of these declares.
The induction is over all possible scopes around, since it enters those of the outline. -/
theorem unresolved_uses (outline : Outline) (enclosing : List (List Name)) :
    ((outline.uses enclosing).filter fun use => ¬ use.Resolved).map Use.entry =
      outline.pending.filter fun entry => ∀ declared ∈ enclosing, entry.1 ∉ declared := by
  induction outline generalizing enclosing with
  | nothing => rfl
  | use name span =>
      have unresolved : (¬ (Use.mk name span enclosing).Resolved) ↔
          ∀ declared ∈ enclosing, name ∉ declared := by
        simp only [Use.Resolved, not_exists, not_and]
      rw [uses, pending, List.filter_cons, List.filter_cons]
      simp only [unresolved]
      split
      case isTrue => rfl
      case isFalse => rfl
  | declare name span => rfl
  | next first second inFirst inSecond =>
      rw [uses, pending, List.filter_append, List.filter_append, List.map_append, inFirst, inSecond]
  | scope inner within =>
      rw [uses, pending, within, List.filter_filter, declared_eq]
      apply List.filter_congr
      intro entry member
      simp only [List.mem_cons, forall_eq_or_imp, Bool.decide_and, Bool.and_comm]

theorem lookup_filter_map_entry (all : List Use) (keep : Use → Bool) (name : Name) :
    ((all.filter keep).map Use.entry).lookup name =
      (all.find? fun use => use.name = name && keep use).map Use.span := by
  induction all with
  | nil => rfl
  | cons use all induction =>
      rw [List.filter_cons, List.find?_cons]
      by_cases kept : keep use
      · rw [if_pos kept, List.map_cons, Use.entry, List.lookup_cons]
        by_cases same : name = use.name
        · simp [same, kept]
        · have other : (name == use.name) = false := beq_eq_false_iff_ne.mpr same
          simp [other, Ne.symm same, induction]
      · simp [kept, induction]

end Outline

namespace Ambient

open Outline

/-- The first use of a name, in the order of the walk, that no scope around it declares. -/
def firstFree? (ambient : Ambient) (outline : Outline) (name : Name) : Option Use :=
  (ambient.usesIn outline).find? fun use => use.name = name && ¬ use.Resolved

theorem firstFree?_isSome_iff {ambient : Ambient} {outline : Outline} {name : Name} :
    (ambient.firstFree? outline name).isSome ↔
      ∃ use ∈ ambient.usesIn outline, use.name = name ∧ ¬ use.Resolved := by
  rw [firstFree?, List.find?_isSome]
  simp only [Bool.and_eq_true, decide_eq_true_eq]

theorem of_firstFree?_eq_some {ambient : Ambient} {outline : Outline} {name : Name} {use : Use}
    (first : ambient.firstFree? outline name = some use) : use.name = name ∧ ¬ use.Resolved := by
  have found := List.find?_some first
  simpa only [Bool.and_eq_true, decide_eq_true_eq] using found

theorem pending_around (ambient : Ambient) (outline : Outline) :
    (ambient.around outline).pending =
      ((ambient.usesIn outline).filter fun use => ¬ use.Resolved).map Use.entry := by
  rw [usesIn, unresolved_uses]
  simp

theorem mem_entries_pending_iff {ambient : Ambient} {outline : Outline} {name : Name}
    {place : Option Span} :
    (name, place) ∈ ((∅ : Occurrences).gather (ambient.around outline).pending).entries ↔
      ∃ use, ambient.firstFree? outline name = some use ∧ use.span = place := by
  rw [Occurrences.mem_entries_iff, Occurrences.find?_gather, pending_around,
    lookup_filter_map_entry, ← Option.map_eq_some_iff]
  rfl

end Ambient

namespace Program

variable {program : Program} {ambient : Ambient} {interner : Interner} {outline : Outline}

theorem exists_hasOutline_of_check_eq_ok {found : List FreeVariable}
    (passed : program.check ambient interner = .ok found) :
    ∃ outline, program.HasOutline interner.argumentsName outline := by
  rw [exists_hasOutline_iff]
  cases interrupted : (program.scopeTrace interner.argumentsName).interruption with
  | none => rfl
  | some interruption =>
      exfalso
      rw [check] at passed
      simp only [interrupted, bind, Except.bind] at passed
      split at passed
      case h_1 => cases passed
      case h_2 => cases passed

theorem freeVariables_of_check_eq_ok {free : List FreeVariable}
    (outlined : program.HasOutline interner.argumentsName outline)
    (passed : program.check ambient interner = .ok free) :
    freeVariables interner ((∅ : Occurrences).gather (ambient.around outline).pending) =
      .ok free := by
  rw [check_of_hasOutline ambient outlined] at passed
  exact CheckError.mapError_scope_eq_ok_iff.mp passed

theorem ordered_of_check_eq_ok {found : List FreeVariable}
    (passed : program.check ambient interner = .ok found) :
    (found.map FreeVariable.name).Nodup ∧
      found.Pairwise fun left right => left.precedes right := by
  obtain ⟨outline, outlined⟩ := exists_hasOutline_of_check_eq_ok passed
  have listed := freeVariables_of_check_eq_ok outlined passed
  exact ⟨nodup_of_freeVariables_eq_ok listed, pairwise_of_freeVariables_eq_ok listed⟩

theorem check_eq_ok_of_located {found : List FreeVariable}
    (outlined : program.HasOutline interner.argumentsName outline)
    (located : ((∅ : Occurrences).gather (ambient.around outline).pending).entries =
      found.map FreeVariable.entry)
    (ordered : found.Pairwise fun left right => left.precedes right) :
    program.check ambient interner = .ok found := by
  rw [check_of_hasOutline ambient outlined, freeVariables_of_located located]
  rw [List.mergeSort_of_pairwise ordered]
  rfl

theorem freeVariables_of_check_eq_error {failure : CheckError}
    (outlined : program.HasOutline interner.argumentsName outline)
    (failed : program.check ambient interner = .error failure) :
    ∃ reason, failure = .scope reason ∧
      freeVariables interner ((∅ : Occurrences).gather (ambient.around outline).pending) =
        .error reason := by
  rw [check_of_hasOutline ambient outlined] at failed
  exact CheckError.mapError_scope_eq_error_iff.mp failed

theorem mem_check_iff {free : List FreeVariable}
    (outlined : program.HasOutline interner.argumentsName outline)
    (passed : program.check ambient interner = .ok free) (found : FreeVariable) :
    found ∈ free ↔
      ∃ use, ambient.firstFree? outline found.name = some use ∧ use.span = some found.span := by
  have listed := mem_entries_iff_of_freeVariables_eq_ok
    (freeVariables_of_check_eq_ok outlined passed) found.entry
  rw [FreeVariable.entry, Ambient.mem_entries_pending_iff] at listed
  rw [listed, List.mem_map]
  constructor
  · intro member
    exact ⟨found, member, rfl⟩
  · intro member
    obtain ⟨other, member, same⟩ := member
    have name : other.name = found.name := congrArg Prod.fst same
    have span : other.span = found.span := Option.some.inj (congrArg Prod.snd same)
    obtain ⟨otherName, otherSpan⟩ := other
    cases name
    cases span
    exact member

theorem span_ne_none_of_check_eq_ok {free : List FreeVariable}
    (outlined : program.HasOutline interner.argumentsName outline)
    (passed : program.check ambient interner = .ok free) {name : Name} {use : Outline.Use}
    (first : ambient.firstFree? outline name = some use) : use.span ≠ none := by
  intro unplaced
  have member := Ambient.mem_entries_pending_iff.mpr ⟨use, first, unplaced⟩
  obtain ⟨other, failed⟩ := exists_error_of_mem_entries interner member
  rw [freeVariables_of_check_eq_ok outlined passed] at failed
  cases failed

theorem firstFree?_of_check_eq_error {failure : CheckError}
    (outlined : program.HasOutline interner.argumentsName outline)
    (failed : program.check ambient interner = .error failure) :
    ∃ name use, failure = .scope (.ofUndefined interner name) ∧
      ambient.firstFree? outline name = some use ∧ use.span = none := by
  obtain ⟨reason, rfl, outcome⟩ := freeVariables_of_check_eq_error outlined failed
  obtain ⟨name, rfl, member⟩ := mem_entries_of_freeVariables_eq_error outcome
  obtain ⟨use, first, unplaced⟩ := Ambient.mem_entries_pending_iff.mp member
  exact ⟨name, use, rfl, first, unplaced⟩

theorem exists_check_eq_error_of_unplaced {name : Name} {use : Outline.Use}
    (outlined : program.HasOutline interner.argumentsName outline)
    (first : ambient.firstFree? outline name = some use) (unplaced : use.span = none) :
    ∃ failure, program.check ambient interner = .error failure := by
  have member := Ambient.mem_entries_pending_iff.mpr ⟨use, first, unplaced⟩
  obtain ⟨other, failed⟩ := exists_error_of_mem_entries interner member
  refine ⟨.scope (.ofUndefined interner other), ?_⟩
  rw [check_of_hasOutline ambient outlined, failed]
  rfl

/-- Where the used names have texts, a failure is for the text of a name whose first free use has no
place. -/
theorem text_of_check_eq_error {failure : CheckError}
    (outlined : program.HasOutline interner.argumentsName outline)
    (interned : ∀ use ∈ ambient.usesIn outline, ∃ text, interner.lookup use.name = .ok text)
    (failed : program.check ambient interner = .error failure) :
    ∃ name use text, failure = .scope (.generatedUndefined text) ∧
      interner.lookup name = .ok text ∧
        ambient.firstFree? outline name = some use ∧ use.span = none := by
  obtain ⟨name, use, rfl, first, unplaced⟩ := firstFree?_of_check_eq_error outlined failed
  have named := (Ambient.of_firstFree?_eq_some first).1
  obtain ⟨text, known⟩ := interned use (List.mem_of_find?_eq_some first)
  rw [named] at known
  exact ⟨name, use, text, congrArg CheckError.scope (ScopeError.ofUndefined_of_lookup known),
    known, first, unplaced⟩

/-- The tree of `set => set + undefined; set;`, where the two uses of `set` differ in what they
mean. Both names are reserved words. -/
def shadowed : Program where
  arena :=
    { nodes := #[
        ⟨.binding ⟨536870912⟩, some ⟨0, 3⟩⟩,
        ⟨.reference ⟨536870912⟩, some ⟨7, 10⟩⟩,
        ⟨.reference ⟨1073741826⟩, some ⟨13, 22⟩⟩,
        ⟨.expression (.binary .add ⟨1⟩ ⟨2⟩), some ⟨7, 22⟩⟩,
        ⟨.function (.arrow ⟨0, 1⟩ ⟨3⟩), some ⟨0, 22⟩⟩,
        ⟨.statement (.expression ⟨4⟩), some ⟨0, 22⟩⟩,
        ⟨.reference ⟨536870912⟩, some ⟨24, 27⟩⟩,
        ⟨.statement (.expression ⟨6⟩), some ⟨24, 27⟩⟩,
        ⟨.script ⟨1, 2⟩, some ⟨0, 27⟩⟩]
      entries := #[⟨0⟩, ⟨5⟩, ⟨7⟩] }
  root := ⟨8⟩

theorem check_shadowed :
    shadowed.check ∅ Interner.initial =
      .ok [⟨⟨1073741826⟩, ⟨13, 22⟩⟩, ⟨⟨536870912⟩, ⟨24, 27⟩⟩] :=
  check_eq_ok_of_located ⟨5, rfl⟩ (by decide +kernel) (by decide)

def twoUses (first second : Option Span) : Program where
  arena :=
    { nodes := #[
        ⟨.reference ⟨1073741826⟩, first⟩,
        ⟨.reference ⟨1073741826⟩, second⟩,
        ⟨.script ⟨0, 2⟩, none⟩]
      entries := #[⟨0⟩, ⟨1⟩] }
  root := ⟨2⟩

/-- A check that succeeds reports, once each, the names of the uses that no scope around them
declares, where functions declare `arguments`. A check that fails found such a use without a place,
and fails for its name. -/
theorem reported_names_are_unresolved (program : Program) (ambient : Ambient) (interner : Interner)
    (outline : Outline) (outlined : program.HasOutline interner.argumentsName outline) :
    interner.lookup interner.argumentsName = .ok "arguments" ∧
    (∀ free, program.check ambient interner = .ok free →
      (free.map FreeVariable.name).Nodup ∧
        ∀ name, name ∈ free.map FreeVariable.name ↔
          ∃ use ∈ ambient.usesIn outline, use.name = name ∧ ¬ use.Resolved) ∧
    (∀ failure, program.check ambient interner = .error failure →
      ∃ use ∈ ambient.usesIn outline, ¬ use.Resolved ∧ use.span = none ∧
        failure = .scope (.ofUndefined interner use.name)) := by
  refine ⟨interner.lookup_argumentsName, ?_, ?_⟩
  · intro free passed
    refine ⟨nodup_of_freeVariables_eq_ok (freeVariables_of_check_eq_ok outlined passed), ?_⟩
    intro name
    rw [← Ambient.firstFree?_isSome_iff, List.mem_map]
    constructor
    · intro reported
      obtain ⟨found, member, rfl⟩ := reported
      obtain ⟨use, first, _⟩ := (mem_check_iff outlined passed found).mp member
      rw [first]
      rfl
    · intro unresolved
      obtain ⟨use, first⟩ := Option.isSome_iff_exists.mp unresolved
      obtain ⟨span, placed⟩ := Option.ne_none_iff_exists'.mp
        (span_ne_none_of_check_eq_ok outlined passed first)
      exact ⟨⟨name, span⟩, (mem_check_iff outlined passed _).mpr ⟨use, first, placed⟩, rfl⟩
  · intro failure failed
    obtain ⟨name, use, rfl, first, unplaced⟩ := firstFree?_of_check_eq_error outlined failed
    have member := List.mem_of_find?_eq_some first
    obtain ⟨rfl, unresolved⟩ := Ambient.of_firstFree?_eq_some first
    exact ⟨use, member, unresolved, unplaced, rfl⟩

/-- The tree of `() => [arguments, undefined, set, get]`. -/
def hosted : Program where
  arena :=
    { nodes := #[
        ⟨.reference ⟨3489660929⟩, some ⟨7, 16⟩⟩,
        ⟨.reference ⟨1073741826⟩, some ⟨18, 27⟩⟩,
        ⟨.reference ⟨536870912⟩, some ⟨29, 32⟩⟩,
        ⟨.reference ⟨1610612738⟩, some ⟨34, 37⟩⟩,
        ⟨.expression (.array ⟨0, 4⟩), some ⟨7, 37⟩⟩,
        ⟨.function (.arrow ⟨0, 0⟩ ⟨4⟩), some ⟨7, 37⟩⟩]
      entries := #[⟨0⟩, ⟨1⟩, ⟨2⟩, ⟨3⟩] }
  root := ⟨5⟩

/-- The host has `undefined` itself and `set` from an ancestor. What is left is `get`. -/
theorem reported_names_of_hosted :
    ∃ outline, hosted.HasOutline Interner.initial.argumentsName outline ∧
      Interner.initial.lookup Interner.initial.argumentsName = .ok "arguments" ∧
      hosted.check ⟨[⟨1073741826⟩], [[⟨536870912⟩]]⟩ Interner.initial =
        .ok [⟨⟨1610612738⟩, ⟨34, 37⟩⟩] ∧
      ∀ name, name ∈ [(⟨1610612738⟩ : Name)] ↔
        ∃ use ∈ (Ambient.mk [⟨1073741826⟩] [[⟨536870912⟩]]).usesIn outline,
          use.name = name ∧ ¬ use.Resolved := by
  have outlined : ∃ outline, hosted.HasOutline Interner.initial.argumentsName outline :=
    ⟨_, 3, rfl⟩
  obtain ⟨outline, outlined⟩ := outlined
  have passed : hosted.check ⟨[⟨1073741826⟩], [[⟨536870912⟩]]⟩ Interner.initial =
      .ok [⟨⟨1610612738⟩, ⟨34, 37⟩⟩] :=
    check_eq_ok_of_located ⟨3, rfl⟩ (by decide +kernel) (by decide)
  obtain ⟨arguments, reported, _⟩ := reported_names_are_unresolved hosted
    ⟨[⟨1073741826⟩], [[⟨536870912⟩]]⟩ Interner.initial outline outlined
  exact ⟨outline, outlined, arguments, passed, (reported _ passed).2⟩

/-- Each reported place is that of the first use of the name that no scope around it declares: every
earlier use of the name is resolved. -/
theorem reported_place_is_first_unresolved (program : Program) (ambient : Ambient)
    (interner : Interner) (outline : Outline)
    (outlined : program.HasOutline interner.argumentsName outline) (free : List FreeVariable)
    (passed : program.check ambient interner = .ok free) (found : FreeVariable) :
    found ∈ free ↔
      ∃ before use after, ambient.usesIn outline = before ++ use :: after ∧
        use.name = found.name ∧ use.span = some found.span ∧ ¬ use.Resolved ∧
          ∀ earlier ∈ before, earlier.name = found.name → earlier.Resolved := by
  rw [mem_check_iff outlined passed]
  constructor
  · intro reported
    obtain ⟨use, first, placed⟩ := reported
    obtain ⟨matching, before, after, split, none⟩ := List.find?_eq_some_iff_append.mp first
    simp only [Bool.and_eq_true, decide_eq_true_eq] at matching
    refine ⟨before, use, after, split, matching.1, placed, matching.2, ?_⟩
    intro earlier member same
    simpa [same] using none earlier member
  · intro unresolved
    obtain ⟨before, use, after, split, same, placed, unresolved, none⟩ := unresolved
    refine ⟨use, List.find?_eq_some_iff_append.mpr ⟨?_, before, after, split, ?_⟩, placed⟩
    · simp [same, unresolved]
    · intro earlier member
      have resolved := none earlier member
      by_cases shared : earlier.name = found.name
      · simp [shared, resolved shared]
      · simp [shared]

/-- The place reported for `set` lies past the arrow function, since the use inside is resolved. -/
theorem reported_place_in_shadowed :
    ∃ outline, shadowed.HasOutline Interner.initial.argumentsName outline ∧
      ∃ before use after, (∅ : Ambient).usesIn outline = before ++ use :: after ∧
        use.name = ⟨536870912⟩ ∧ use.span = some ⟨24, 27⟩ ∧ ¬ use.Resolved ∧
          ∀ earlier ∈ before, earlier.name = ⟨536870912⟩ → earlier.Resolved := by
  have outlined : ∃ outline, shadowed.HasOutline Interner.initial.argumentsName outline :=
    ⟨_, 5, rfl⟩
  obtain ⟨outline, outlined⟩ := outlined
  have reported := reported_place_is_first_unresolved shadowed ∅ Interner.initial outline outlined
    _ check_shadowed ⟨⟨536870912⟩, ⟨24, 27⟩⟩
  exact ⟨outline, outlined, reported.mp (by decide)⟩

/-- Where the used names have texts, a check fails for a made-up name exactly if the first use of
some name that no scope around it declares has no place, and it fails in no other way. After any
failure the receiver is as it was. -/
theorem check_fails_iff_first_unresolved_unplaced (program : Program) (ambient : Ambient)
    (interner : Interner) (outline : Outline)
    (outlined : program.HasOutline interner.argumentsName outline)
    (interned : ∀ use ∈ ambient.usesIn outline, ∃ text, interner.lookup use.name = .ok text) :
    ((∃ text, program.check ambient interner = .error (.scope (.generatedUndefined text))) ↔
      ∃ name use, ambient.firstFree? outline name = some use ∧ use.span = none) ∧
    ∀ failure, program.check ambient interner = .error failure →
      (∃ name use text, failure = .scope (.generatedUndefined text) ∧
        interner.lookup name = .ok text ∧
        ambient.firstFree? outline name = some use ∧ use.span = none) ∧
      ∀ (Receiver : Type) (receive : Receiver → FreeVariable → Except Dangling Receiver)
        (receiver : Receiver),
        checkInto receive receiver program ambient interner = (receiver, .error failure) := by
  refine ⟨⟨?_, ?_⟩, ?_⟩
  · intro failed
    obtain ⟨text, failed⟩ := failed
    obtain ⟨name, use, _, first, unplaced⟩ := firstFree?_of_check_eq_error outlined failed
    exact ⟨name, use, first, unplaced⟩
  · intro free
    obtain ⟨name, use, first, unplaced⟩ := free
    obtain ⟨failure, failed⟩ := exists_check_eq_error_of_unplaced outlined first unplaced
    obtain ⟨_, _, text, rfl, _⟩ := text_of_check_eq_error outlined interned failed
    exact ⟨text, failed⟩
  · intro failure failed
    refine ⟨text_of_check_eq_error outlined interned failed, ?_⟩
    intro Receiver receive receiver
    rw [checkInto, failed]

theorem check_fails_for_first_of_two_uses :
    ∃ text, (twoUses none (some ⟨0, 9⟩)).check ∅ Interner.initial =
      .error (.scope (.generatedUndefined text)) := by
  have outlined : ∃ outline,
      (twoUses none (some ⟨0, 9⟩)).HasOutline Interner.initial.argumentsName outline ∧
        (∀ use ∈ (∅ : Ambient).usesIn outline, use.name = ⟨1073741826⟩) ∧
        ∃ name use, (∅ : Ambient).firstFree? outline name = some use ∧ use.span = none :=
    ⟨_, ⟨2, rfl⟩, by decide, ⟨1073741826⟩, _, rfl, rfl⟩
  obtain ⟨outline, outlined, same, unplaced⟩ := outlined
  have known : Interner.initial.lookup ⟨1073741826⟩ = .ok "undefined" := by decide +kernel
  have interned : ∀ use ∈ (∅ : Ambient).usesIn outline,
      ∃ text, Interner.initial.lookup use.name = .ok text := by
    intro use member
    rw [same use member]
    exact ⟨"undefined", known⟩
  exact (check_fails_iff_first_unresolved_unplaced _ ∅ Interner.initial outline outlined
    interned).1.mpr unplaced

/-- A use that was made up and comes second does not fail the check, free as it is: the name is
reported at the first use. -/
theorem check_passes_for_second_of_two_uses :
    ∃ outline,
      (twoUses (some ⟨0, 9⟩) none).HasOutline Interner.initial.argumentsName outline ∧
      Interner.initial.lookup ⟨1073741826⟩ = .ok "undefined" ∧
      (twoUses (some ⟨0, 9⟩) none).check ∅ Interner.initial = .ok [⟨⟨1073741826⟩, ⟨0, 9⟩⟩] ∧
      ¬ ((∃ text, (twoUses (some ⟨0, 9⟩) none).check ∅ Interner.initial =
            .error (.scope (.generatedUndefined text))) ↔
          ∃ use ∈ (∅ : Ambient).usesIn outline, use.span = none ∧ ¬ use.Resolved) := by
  have passed : (twoUses (some ⟨0, 9⟩) none).check ∅ Interner.initial =
      .ok [⟨⟨1073741826⟩, ⟨0, 9⟩⟩] :=
    check_eq_ok_of_located ⟨2, rfl⟩ (by decide +kernel) (by decide)
  refine ⟨_, ⟨2, rfl⟩, by decide +kernel, passed, ?_⟩
  intro claimed
  have free : ¬ (⟨⟨1073741826⟩, none, [[]]⟩ : Outline.Use).Resolved := by decide
  obtain ⟨text, failed⟩ :=
    claimed.mpr ⟨_, List.mem_cons_of_mem _ List.mem_cons_self, rfl, free⟩
  rw [passed] at failed
  cases failed

end Program

end Unbound
