import Unbound.Proofs.Diagnostic.Admission
import Unbound.Proofs.Report.Truncation

/-!
# What a report says about its limit

A report holds the first variables that a report without a limit would take, and points at the one
that came next after the last of them. A full queue refuses whatever comes, so where a repeat comes
next it is taken for the first variable beyond the limit.
-/

set_option autoImplicit false

namespace Unbound

open Diagnostic

namespace Diagnostic.Policy

variable {policy : Policy} {offered : List Queued}

instance {Item : Type} (policy : Policy) (items : List Item) : Decidable (policy.Full items) :=
  inferInstanceAs (Decidable (_ ∧ _))

theorem not_full_nil {Item : Type} (policy : Policy) : ¬ policy.Full ([] : List Item) := by
  intro full
  exact absurd full.1 (Nat.not_lt.mpr full.2)

theorem distinct_nil (policy : Policy) : policy.distinct [] = [] := ite_self []

theorem distinct_isPrefix_append (policy : Policy) (offered later : List Queued) :
    policy.distinct offered <+: policy.distinct (offered ++ later) := by
  induction later using List.reverseRecOn with
  | nil => rw [List.append_nil]
  | append_singleton later queued induction =>
      rw [← List.append_assoc]
      by_cases repeated : policy.Repeated (offered ++ later) queued
      · rw [distinct_concat_of_repeated repeated]
        exact induction
      · rw [distinct_concat_of_not_repeated repeated]
        exact induction.trans (List.prefix_append _ _)

theorem length_distinct_concat_le (policy : Policy) (offered : List Queued) (queued : Queued) :
    (policy.distinct (offered ++ [queued])).length ≤ (policy.distinct offered).length + 1 := by
  by_cases repeated : policy.Repeated offered queued
  · rw [distinct_concat_of_repeated repeated]
    exact Nat.le_succ _
  · rw [distinct_concat_of_not_repeated repeated, List.length_append]
    exact Nat.le_refl _

theorem Full.append (full : policy.Full (policy.distinct offered)) (later : List Queued) :
    policy.Full (policy.distinct (offered ++ later)) :=
  ⟨full.1, Nat.le_trans full.2 (distinct_isPrefix_append policy offered later).length_le⟩

end Diagnostic.Policy

namespace Report

variable {interner : Interner} {text : String} {policy : Policy}

def given (text : String) (interner : Interner) (policy : Policy) (free : List FreeVariable) :
    Except Dangling Report :=
  free.foldlM add (ofText text interner policy)

/-- What a report without a limit takes of the variables that it is given. -/
def accepted (text : String) (interner : Interner) (policy : Policy) (free : List FreeVariable) :
    List Queued :=
  match given text interner { policy with limit := 0 } free with
  | .ok report => report.queue.pending
  | .error _ => []

def offered (text : String) (findings : List (Finding interner)) : List Queued :=
  findings.map (Finding.queued text)

theorem offered_append (first second : List (Finding interner)) :
    offered text (first ++ second) = offered text first ++ offered text second := List.map_append

/-- Whether the limit has been reached by what was told apart so far. -/
def FullAfter (text : String) (policy : Policy) (findings : List (Finding interner)) : Prop :=
  policy.Full (policy.distinct (offered text findings))

instance (findings : List (Finding interner)) : Decidable (FullAfter text policy findings) :=
  inferInstanceAs (Decidable (policy.Full _))

/-- The first of some findings that comes when the limit has been reached, by the ones before them
or among them. -/
def firstLate? (text : String) (policy : Policy) (earlier : List (Finding interner)) :
    List (Finding interner) → Option (Finding interner)
  | [] => none
  | next :: rest =>
      if FullAfter text policy earlier then some next
      else firstLate? text policy (earlier ++ [next]) rest

theorem firstLate?_append (earlier first second : List (Finding interner)) :
    firstLate? text policy earlier (first ++ second) =
      (firstLate? text policy earlier first).or
        (firstLate? text policy (earlier ++ first) second) := by
  induction first generalizing earlier with
  | nil => rw [List.nil_append, List.append_nil, firstLate?, Option.none_or]
  | cons next first induction =>
      rw [List.cons_append, firstLate?, firstLate?]
      split
      case isTrue => rfl
      case isFalse => rw [induction, List.append_assoc, List.singleton_append]

theorem firstLate?_singleton (earlier : List (Finding interner)) (next : Finding interner) :
    firstLate? text policy earlier [next] =
      if FullAfter text policy earlier then some next else none := rfl

theorem exists_of_firstLate?_eq_some {earlier findings : List (Finding interner)}
    {late : Finding interner} (room : ¬ FullAfter text policy earlier)
    (first : firstLate? text policy earlier findings = some late) :
    ∃ before last after, findings = before ++ last :: late :: after ∧
      ¬ FullAfter text policy (earlier ++ before) ∧
        FullAfter text policy (earlier ++ before ++ [last]) := by
  induction findings generalizing earlier with
  | nil => cases first
  | cons next findings induction =>
      rw [firstLate?, if_neg room] at first
      by_cases full : FullAfter text policy (earlier ++ [next])
      · cases findings with
        | nil => cases first
        | cons following findings =>
            rw [firstLate?, if_pos full] at first
            cases first
            refine ⟨[], next, findings, rfl, ?_, ?_⟩
            · rw [List.append_nil]
              exact room
            · rw [List.append_nil]
              exact full
      · obtain ⟨before, last, after, rfl, short, reached⟩ := induction full first
        refine ⟨next :: before, last, after, rfl, ?_, ?_⟩
        · rw [List.append_cons earlier next before]
          exact short
        · rw [List.append_cons earlier next before]
          exact reached

theorem FullAfter.append {findings : List (Finding interner)}
    (full : FullAfter text policy findings) (later : List (Finding interner)) :
    FullAfter text policy (findings ++ later) := by
  rw [FullAfter, offered_append]
  exact Policy.Full.append full (offered text later)

theorem firstLate?_eq_none {earlier findings : List (Finding interner)}
    (room : ¬ FullAfter text policy (earlier ++ findings)) :
    firstLate? text policy earlier findings = none := by
  induction findings generalizing earlier with
  | nil => rfl
  | cons next findings induction =>
      have start : ¬ FullAfter text policy earlier := fun full => room (full.append _)
      rw [firstLate?, if_neg start]
      apply induction
      rw [← List.append_cons]
      exact room

/-- The report that has been given the findings so far. -/
def reporting (text : String) (policy : Policy) (findings : List (Finding interner)) : Report where
  queue := .holding policy (offered text findings)
  text := text
  table := .ofText text
  interner := interner
  overflow := (firstLate? text policy [] findings).map fun finding => finding.free.span

/-- A queue that refuses and is full afterwards was full before: a repeat leaves it as it is. -/
theorem refused_by_limit_iff (findings : List (Finding interner)) (next : Finding interner) :
    ¬ (Queue.holding policy (offered text findings)).accepts (next.queued text) ∧
        (Queue.holding policy (offered text (findings ++ [next]))).limitReached ↔
      FullAfter text policy findings := by
  rw [Queue.accepts_holding, Queue.limitReached_holding]
  constructor
  · intro both
    obtain ⟨refused, full⟩ := both
    apply by_contradiction
    intro room
    have repeated := not_not.mp fun new => refused ⟨room, new⟩
    have same : policy.distinct (offered text (findings ++ [next])) =
        policy.distinct (offered text findings) := by
      rw [offered_append]
      exact Policy.distinct_concat_of_repeated repeated
    rw [same] at full
    exact room full
  · intro full
    exact ⟨fun accepted => accepted.1 full, full.append [next]⟩

theorem add_reporting (findings : List (Finding interner)) (next : Finding interner) :
    (reporting text policy findings).add next.free =
      .ok (reporting text policy (findings ++ [next])) := by
  have said : next.free.diagnostic (reporting text policy findings).interner =
      .ok next.diagnostic := next.said
  have located : (reporting text policy findings).queue.addLocated
      (reporting text policy findings).table (reporting text policy findings).text
        next.diagnostic =
        ((Queue.holding policy (offered text findings)).accepts (next.queued text),
          Queue.holding policy (offered text (findings ++ [next]))) := by
    rw [Queue.addLocated, reporting, Finding.positionOf_eq, offered_append]
    exact Queue.add_holding (next.queued text)
  have late : firstLate? text policy [] (findings ++ [next]) =
      (firstLate? text policy [] findings).or
        (if FullAfter text policy findings then some next else none) := by
    rw [firstLate?_append, List.nil_append, firstLate?_singleton]
  have refused := @refused_by_limit_iff interner text policy findings next
  rw [add, said]
  simp only [bind, Except.bind, located]
  by_cases full : FullAfter text policy findings
  · obtain ⟨notAdded, reached⟩ := refused.mpr full
    rw [if_pos full] at late
    simp only [eq_false_of_ne_true notAdded, reached, Bool.not_false, Bool.true_and,
      Bool.and_true, keep_or_set]
    simp only [reporting, late, Option.map_or, Option.map_some]
    rfl
  · have kept : (!(Queue.holding policy (offered text findings)).accepts (next.queued text) &&
        (Queue.holding policy (offered text (findings ++ [next]))).limitReached) = false := by
      rw [Bool.and_eq_false_imp]
      intro notAdded
      rw [Bool.not_eq_true'] at notAdded
      apply eq_false_of_ne_true
      intro reached
      exact full (refused.mp ⟨ne_true_of_eq_false notAdded, reached⟩)
    rw [if_neg full, Option.or_none] at late
    rw [Bool.and_right_comm, kept]
    simp only [reporting, late, Bool.false_and]
    rfl

theorem given_findings (findings : List (Finding interner)) :
    given text interner policy (findings.map Finding.free) =
      .ok (reporting text policy findings) := by
  induction findings using List.reverseRecOn with
  | nil =>
      have empty :
          reporting text policy ([] : List (Finding interner)) = ofText text interner policy := by
        rw [reporting, Queue.holding, offered, List.map_nil, Queue.admitted_nil]
        rfl
      rw [empty]
      rfl
  | append_singleton findings next induction =>
      rw [given] at induction
      rw [given, List.map_append, List.foldlM_append, induction]
      change (add (reporting text policy findings) next.free >>= pure) = _
      rw [bind_pure, add_reporting]

theorem accepted_findings (findings : List (Finding interner)) :
    accepted text interner policy (findings.map Finding.free) =
      policy.distinct (offered text findings) := by
  rw [accepted, given_findings]
  rfl

theorem finish_reporting (limited : 0 < policy.limit) (findings : List (Finding interner)) :
    (reporting text policy findings).finish =
      (((policy.distinct (offered text findings)).take policy.limit).mergeSort
          Queued.precedes).map Queued.diagnostic ++
        ((reporting text policy findings).overflow.map (tooManyErrors policy.limit)).toList := by
  have held : (reporting text policy findings).queue.pending =
      (policy.distinct (offered text findings)).take policy.limit := by
    rw [reporting, Queue.holding, Policy.admitted, Policy.shown, if_neg (Nat.ne_of_gt limited)]
  rw [finish, Queue.flush_eq_mergeSort, held]
  cases (reporting text policy findings).overflow with
  | none => exact (List.append_nil _).symm
  | some span => rfl

theorem length_distinct_offered_concat_le (text : String) (policy : Policy)
    (findings : List (Finding interner)) (next : Finding interner) :
    (policy.distinct (offered text (findings ++ [next]))).length ≤
      (policy.distinct (offered text findings)).length + 1 := by
  rw [offered_append]
  exact Policy.length_distinct_concat_le policy (offered text findings) (next.queued text)

theorem fullAfter_iff (limited : 0 < policy.limit) (findings : List (Finding interner)) :
    FullAfter text policy findings ↔
      policy.limit ≤ (policy.distinct (offered text findings)).length :=
  and_iff_right limited

/-- The place that a report points at is that of the variable right after the one that filled it. -/
theorem firstLate?_eq_some_iff (limited : 0 < policy.limit) (findings : List (Finding interner))
    (late : Finding interner) :
    firstLate? text policy [] findings = some late ↔
      ∃ before last after, findings = before ++ last :: late :: after ∧
        (policy.distinct (offered text before)).length + 1 = policy.limit ∧
        (policy.distinct (offered text (before ++ [last]))).length = policy.limit := by
  have empty : ¬ FullAfter text policy ([] : List (Finding interner)) := by
    rw [FullAfter, offered, List.map_nil, Policy.distinct_nil]
    exact Policy.not_full_nil policy
  constructor
  · intro first
    obtain ⟨before, last, after, split, room, full⟩ := exists_of_firstLate?_eq_some empty first
    rw [List.nil_append, fullAfter_iff limited] at room full
    have step := length_distinct_offered_concat_le text policy before last
    exact ⟨before, last, after, split, by omega, by omega⟩
  · intro found
    obtain ⟨before, last, after, rfl, short, reached⟩ := found
    have room : ¬ FullAfter text policy ([] ++ before) := by
      rw [List.nil_append, fullAfter_iff limited]
      omega
    have full : FullAfter text policy (before ++ [last]) := by
      rw [fullAfter_iff limited]
      exact Nat.le_of_eq reached.symm
    rw [List.append_cons, firstLate?_append, firstLate?_append, firstLate?_eq_none room,
      Option.none_or, firstLate?_singleton, if_neg room, Option.none_or, firstLate?,
      List.nil_append, if_pos full]

/-- Nothing is cut off without a note. -/
theorem length_distinct_le_of_firstLate?_eq_none (limited : 0 < policy.limit)
    {findings : List (Finding interner)} (none : firstLate? text policy [] findings = none) :
    (policy.distinct (offered text findings)).length ≤ policy.limit := by
  induction findings using List.reverseRecOn with
  | nil =>
      rw [offered, List.map_nil, Policy.distinct_nil]
      exact Nat.zero_le _
  | append_singleton findings last _ =>
      rw [firstLate?_append, Option.or_eq_none_iff, List.nil_append, firstLate?_singleton] at none
      have room : ¬ FullAfter text policy findings := by
        intro full
        rw [if_pos full] at none
        cases none.2
      rw [fullAfter_iff limited] at room
      have step := length_distinct_offered_concat_le text policy findings last
      omega

/-- If the variable after the one that filled the report is no repeat, then it is the first one that
only the limit kept out. -/
theorem getElem?_distinct_of_late {before after : List (Finding interner)}
    {last late : Finding interner}
    (reached : (policy.distinct (offered text (before ++ [last]))).length = policy.limit)
    (taken : (policy.distinct (offered text (before ++ [last, late]))).length =
      policy.limit + 1) :
    (policy.distinct (offered text (before ++ last :: late :: after)))[policy.limit]? =
      some (late.queued text) := by
  have one : before ++ [last, late] = before ++ [last] ++ [late] := List.append_cons _ _ _
  have new : ¬ policy.Repeated (offered text (before ++ [last])) (late.queued text) := by
    intro repeated
    have same := Policy.distinct_concat_of_repeated repeated
    rw [one, offered_append] at taken
    have length := congrArg List.length same
    change (policy.distinct (_ ++ [late.queued text])).length = _ at taken
    omega
  have grown : policy.distinct (offered text (before ++ [last, late])) =
      policy.distinct (offered text (before ++ [last])) ++ [late.queued text] := by
    rw [one, offered_append]
    exact Policy.distinct_concat_of_not_repeated new
  have whole : before ++ last :: late :: after = before ++ [last, late] ++ after := by
    rw [List.append_assoc]
    rfl
  obtain ⟨later, split⟩ :=
    Policy.distinct_isPrefix_append policy (offered text (before ++ [last, late]))
    (offered text after)
  rw [whole, offered_append, ← split, grown, List.append_assoc,
    List.getElem?_append_right (Nat.le_of_eq reached), reached, Nat.sub_self]
  rfl

theorem overflow_eq_some_iff (limited : 0 < policy.limit) (findings : List (Finding interner))
    (span : Span) :
    (reporting text policy findings).overflow = some span ↔
      ∃ before last free after, findings.map Finding.free = before ++ last :: free :: after ∧
        (accepted text interner policy before).length + 1 = policy.limit ∧
        (accepted text interner policy (before ++ [last])).length = policy.limit ∧
        free.span = span := by
  have shown : (reporting text policy findings).overflow = some span ↔
      ∃ late, firstLate? text policy [] findings = some late ∧ late.free.span = span :=
    Option.map_eq_some_iff
  rw [shown]
  constructor
  · intro found
    obtain ⟨late, first, rfl⟩ := found
    obtain ⟨before, last, after, rfl, short, reached⟩ :=
      (firstLate?_eq_some_iff limited findings late).mp first
    refine ⟨before.map Finding.free, last.free, late.free, after.map Finding.free, ?_, ?_, ?_, rfl⟩
    · rw [List.map_append, List.map_cons, List.map_cons]
    · rw [accepted_findings, short]
    · rw [← List.map_singleton, ← List.map_append, accepted_findings, reached]
  · intro found
    obtain ⟨before, last, free, after, split, short, reached, rfl⟩ := found
    obtain ⟨beforeFindings, fromLast, rfl, rfl, lastSplit⟩ := List.map_eq_append_iff.mp split
    obtain ⟨lastFinding, fromLate, rfl, rfl, lateSplit⟩ := List.map_eq_cons_iff.mp lastSplit
    obtain ⟨lateFinding, rest, rfl, rfl, rfl⟩ := List.map_eq_cons_iff.mp lateSplit
    rw [accepted_findings] at short
    rw [← List.map_singleton, ← List.map_append, accepted_findings] at reached
    refine ⟨lateFinding, ?_, rfl⟩
    rw [firstLate?_eq_some_iff limited]
    exact ⟨beforeFindings, lastFinding, rest, rfl, short, reached⟩

theorem overflow_eq_of_new (limited : 0 < policy.limit) {findings : List (Finding interner)}
    (new : ∀ before last late after, findings = before ++ last :: late :: after →
      (policy.distinct (offered text (before ++ [last]))).length = policy.limit →
      (policy.distinct (offered text (before ++ [last, late]))).length = policy.limit + 1) :
    (reporting text policy findings).overflow =
      (policy.distinct (offered text findings))[policy.limit]?.bind fun queued =>
        queued.diagnostic.primarySpan? := by
  cases first : firstLate? text policy [] findings with
  | none =>
      have short := length_distinct_le_of_firstLate?_eq_none limited first
      rw [reporting, first, List.getElem?_eq_none short]
      rfl
  | some late =>
      obtain ⟨before, last, after, rfl, _, reached⟩ :=
        (firstLate?_eq_some_iff limited findings late).mp first
      have taken := new before last late after rfl reached
      rw [reporting, first, getElem?_distinct_of_late reached taken]
      exact late.primarySpan?_diagnostic.symm

theorem overflow_eq_some_iff_getLast? (limited : 0 < policy.limit)
    (findings : List (Finding interner)) (span : Span) :
    (reporting text policy findings).overflow = some span ↔
      ∃ note, (reporting text policy findings).finish.getLast? = some note ∧
        note.code = .tooMany ∧ note.primarySpan? = some span := by
  rw [finish_reporting limited]
  cases (reporting text policy findings).overflow with
  | some first =>
      rw [Option.map_some, Option.toList_some, List.getLast?_concat]
      simp only [Option.some.injEq, exists_eq_left', code_tooManyErrors,
        primarySpan?_tooManyErrors, true_and]
  | none =>
      rw [Option.map_none, Option.toList_none, List.append_nil]
      constructor
      · exact nofun
      · intro noted
        obtain ⟨note, last, code, _⟩ := noted
        obtain ⟨queued, waiting, rfl⟩ := List.mem_map.mp (List.mem_of_getLast? last)
        have taken := List.mem_of_mem_take ((List.mergeSort_perm _ _).mem_iff.mp waiting)
        obtain ⟨finding, _, rfl⟩ := List.mem_map.mp ((Policy.distinct_sublist _ _).subset taken)
        cases code.symm.trans finding.code_diagnostic

/-- A report shows the first variables that would be taken without its limit, up to the limit and by
position. It then points at the variable right after the one that filled it, if any came, so nothing
is cut off without a note. That place is the one of the first variable cut off, provided that
repeats are not left out or that what came then was none; where a repeat came then, the note stands
at its place, even if nothing was cut off. -/
theorem overflow_marks_next_after_limit (text : String) (interner : Interner) (policy : Policy)
    (limited : 0 < policy.limit) (free : List FreeVariable)
    (known : ∀ found ∈ free, ∃ name, interner.lookup found.name = .ok name) :
    ∃ report unlimited, given text interner policy free = .ok report ∧
      given text interner { policy with limit := 0 } free = .ok unlimited ∧
      accepted text interner policy free = unlimited.queue.pending ∧
      report.finish =
        (((accepted text interner policy free).take policy.limit).mergeSort
          Queued.precedes).map Queued.diagnostic ++
            (report.overflow.map (tooManyErrors policy.limit)).toList ∧
      (∀ span, report.overflow = some span ↔
        ∃ note, report.finish.getLast? = some note ∧ note.code = .tooMany ∧
          note.primarySpan? = some span) ∧
      (∀ span, report.overflow = some span ↔
        ∃ before last late after, free = before ++ last :: late :: after ∧
          (accepted text interner policy before).length + 1 = policy.limit ∧
          (accepted text interner policy (before ++ [last])).length = policy.limit ∧
          late.span = span) ∧
      (policy.limit < (accepted text interner policy free).length → report.overflow.isSome) ∧
      ((policy.deduplicate = false ∨
          ∀ before last late after, free = before ++ last :: late :: after →
            (accepted text interner policy (before ++ [last])).length = policy.limit →
            (accepted text interner policy (before ++ [last, late])).length = policy.limit + 1) →
        report.overflow =
          (accepted text interner policy free)[policy.limit]?.bind fun queued =>
            queued.diagnostic.primarySpan?) := by
  obtain ⟨findings, rfl⟩ := Finding.exists_findings known
  refine ⟨reporting text policy findings, reporting text { policy with limit := 0 } findings,
    given_findings findings, given_findings findings, accepted_findings findings, ?_,
    overflow_eq_some_iff_getLast? limited findings, overflow_eq_some_iff limited findings, ?_, ?_⟩
  · rw [accepted_findings]
    exact finish_reporting limited findings
  · intro more
    rw [accepted_findings] at more
    rw [reporting, Option.isSome_map]
    apply Option.isSome_iff_ne_none.mpr
    intro none
    exact absurd more (Nat.not_lt.mpr (length_distinct_le_of_firstLate?_eq_none limited none))
  · intro honest
    rw [accepted_findings]
    apply overflow_eq_of_new limited
    intro before last late after split reached
    rcases honest with keepsAll | new
    · have all : ∀ offered, policy.distinct offered = offered := by
        intro offered
        rw [Policy.distinct, keepsAll]
        rfl
      rw [all, offered, List.length_map, List.length_append] at reached ⊢
      exact congrArg (· + 1) reached
    · have front : before.map Finding.free ++ [last.free] =
          (before ++ [last]).map Finding.free := by
        rw [List.map_append]
        rfl
      have onward : before.map Finding.free ++ [last.free, late.free] =
          (before ++ [last, late]).map Finding.free := by
        rw [List.map_append]
        rfl
      have whole : findings.map Finding.free =
          before.map Finding.free ++ last.free :: late.free :: after.map Finding.free := by
        rw [split, List.map_append]
        rfl
      have taken := new _ _ _ _ whole
      rw [front, onward, accepted_findings, accepted_findings] at taken
      exact taken reached

def firstUse : FreeVariable := ⟨⟨1073741826⟩, ⟨0, 9⟩⟩

/-- A second use of the variable, further on in the line. -/
def secondUse : FreeVariable := ⟨⟨1073741826⟩, ⟨11, 20⟩⟩

theorem lookup_repeatedUse : ∀ found ∈ [firstUse, secondUse],
    ∃ name, Interner.initial.lookup found.name = .ok name := by
  have text : Interner.initial.lookup ⟨1073741826⟩ = .ok "undefined" := by decide +kernel
  intro found member
  simp only [List.mem_cons, List.not_mem_nil, or_false] at member
  rcases member with rfl | rfl
  · exact ⟨_, text⟩
  · exact ⟨_, text⟩

theorem overflow_of_repeatedUse_kept :
    ∃ report, given "undefined; undefined;" Interner.initial ⟨1, false⟩ [firstUse, secondUse] =
        .ok report ∧
      report.overflow = some ⟨11, 20⟩ ∧
      ∃ note, report.finish.getLast? = some note ∧ note.code = .tooMany ∧
        note.primarySpan? = some ⟨11, 20⟩ := by
  obtain ⟨report, unlimited, reported, _, _, _, noted, _, _, right⟩ :=
    overflow_marks_next_after_limit "undefined; undefined;" Interner.initial ⟨1, false⟩ (by decide)
      [firstUse, secondUse] lookup_repeatedUse
  have overflow : report.overflow = some ⟨11, 20⟩ := by
    rw [right (.inl rfl)]
    decide +kernel
  exact ⟨report, reported, overflow, (noted _).mp overflow⟩

/-- With it, the report without a limit has one diagnostic, and that with a limit of one has the
same one and a note. -/
theorem overflow_of_repeatedUse_removed :
    ∃ report, given "undefined; undefined;" Interner.initial ⟨1, true⟩ [firstUse, secondUse] =
        .ok report ∧
      (accepted "undefined; undefined;" Interner.initial ⟨1, true⟩
        [firstUse, secondUse]).length = 1 ∧
      report.finish.getLast? = some (tooManyErrors 1 ⟨11, 20⟩) ∧
      ∃ note, report.finish.getLast? = some note ∧ note.code = .tooMany ∧
        note.primarySpan? = some ⟨11, 20⟩ := by
  have none : (accepted "undefined; undefined;" Interner.initial ⟨1, true⟩ []).length = 0 := rfl
  have one : (accepted "undefined; undefined;" Interner.initial ⟨1, true⟩
      [firstUse]).length = 1 := by decide +kernel
  have repeated : (accepted "undefined; undefined;" Interner.initial ⟨1, true⟩
      [firstUse, secondUse]).length = 1 := by decide +kernel
  obtain ⟨findings, same⟩ := Finding.exists_findings lookup_repeatedUse
  have limited : 0 < (⟨1, true⟩ : Policy).limit := Nat.one_pos
  have noted : (reporting "undefined; undefined;" ⟨1, true⟩ findings).overflow =
      some ⟨11, 20⟩ := by
    rw [overflow_eq_some_iff limited, same]
    refine ⟨[], firstUse, secondUse, [], List.nil_append _, ?_, ?_, rfl⟩
    · rw [none]
    · rw [List.nil_append, one]
  have reported : given "undefined; undefined;" Interner.initial ⟨1, true⟩
      (findings.map Finding.free) = .ok (reporting "undefined; undefined;" ⟨1, true⟩ findings) :=
    given_findings findings
  rw [same] at reported
  refine ⟨_, reported, repeated, ?_, (overflow_eq_some_iff_getLast? limited findings _).mp noted⟩
  rw [finish_reporting limited, noted]
  exact List.getLast?_concat

end Report

end Unbound
