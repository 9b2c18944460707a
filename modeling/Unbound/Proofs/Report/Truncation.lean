import Unbound.Report
import Unbound.Proofs.Diagnostic.Limit
import Unbound.Proofs.Scope.FreeVariables
import Unbound.Proofs.Source.Position
import Unbound.Proofs.Resolution.Deferred

/-!
# Every report is a truncation of the check

Neither the removal of repeats nor the sorting has an effect: the names of free variables differ,
and they come by offset already, which is the order of positions unless an offset cuts a character.
-/

set_option autoImplicit false

namespace Unbound

open Diagnostic

/-- A free variable and what is said about it. -/
structure Finding (interner : Interner) where
  free : FreeVariable
  diagnostic : Diagnostic
  said : free.diagnostic interner = .ok diagnostic

namespace Finding

variable {interner : Interner}

theorem code_diagnostic (finding : Finding interner) :
    finding.diagnostic.code = .undefinedName :=
  (FreeVariable.code_and_primarySpan_of_diagnostic finding.said).1

theorem primarySpan?_diagnostic (finding : Finding interner) :
    finding.diagnostic.primarySpan? = some finding.free.span :=
  (FreeVariable.code_and_primarySpan_of_diagnostic finding.said).2

theorem exists_text (finding : Finding interner) :
    ∃ text, interner.lookup finding.free.name = .ok text ∧
      finding.diagnostic.message = s!"`{text}` is not defined" := by
  obtain ⟨free, diagnostic, said⟩ := finding
  rw [FreeVariable.diagnostic] at said
  cases found : interner.lookup free.name with
  | error handle =>
      rw [found] at said
      cases said
  | ok text =>
      rw [found] at said
      cases said
      exact ⟨text, rfl, rfl⟩

theorem name_eq_of_message_eq {left right : Finding interner}
    (same : left.diagnostic.message = right.diagnostic.message) :
    left.free.name = right.free.name := by
  obtain ⟨leftText, leftFound, leftMessage⟩ := left.exists_text
  obtain ⟨rightText, rightFound, rightMessage⟩ := right.exists_text
  rw [leftMessage, rightMessage] at same
  have quoted := String.append_left_inj _ |>.mp same
  have text : leftText = rightText := String.append_right_inj _ |>.mp quoted
  have leftKnown := Interner.find?_eq_some_iff.mpr leftFound
  have rightKnown := Interner.find?_eq_some_iff.mpr rightFound
  rw [text, rightKnown] at leftKnown
  exact (Option.some.inj leftKnown).symm

theorem exists_findings {found : List FreeVariable}
    (known : ∀ free ∈ found, ∃ text, interner.lookup free.name = .ok text) :
    ∃ findings : List (Finding interner), findings.map Finding.free = found := by
  induction found with
  | nil => exact ⟨[], rfl⟩
  | cons free found induction =>
      obtain ⟨text, name⟩ := known free List.mem_cons_self
      obtain ⟨findings, rfl⟩ := induction fun other member =>
        known other (List.mem_cons_of_mem _ member)
      have said : ∃ diagnostic, free.diagnostic interner = .ok diagnostic := by
        rw [FreeVariable.diagnostic, name]
        exact ⟨_, rfl⟩
      obtain ⟨diagnostic, said⟩ := said
      exact ⟨⟨free, diagnostic, said⟩ :: findings, rfl⟩

theorem mapM_diagnostic (findings : List (Finding interner)) :
    (findings.map Finding.free).mapM (fun free => free.diagnostic interner) =
      .ok (findings.map Finding.diagnostic) := by
  induction findings with
  | nil => rfl
  | cons finding findings induction =>
      rw [List.map_cons, List.mapM_cons, finding.said, induction]
      rfl

def queued (text : String) (finding : Finding interner) : Queued :=
  ⟨finding.diagnostic, (LineTable.ofText text).position text finding.free.span.start⟩

theorem positionOf_eq (text : String) (finding : Finding interner) :
    Queue.positionOf (.ofText text) text finding.diagnostic = (finding.queued text).position := by
  rw [Queue.positionOf, finding.primarySpan?_diagnostic, queued]

end Finding

namespace Report

open Diagnostic.Queue

variable {interner : Interner} {text : String} {policy : Policy}

def holding (text : String) (policy : Policy) (findings : List (Finding interner)) : Report where
  queue := ⟨policy, (policy.shown findings).map (Finding.queued text)⟩
  text := text
  table := .ofText text
  interner := interner
  overflow := (policy.firstHidden? findings).map fun finding => finding.free.span

theorem holding_nil : holding text policy ([] : List (Finding interner)) =
    .ofText text interner policy := by
  simp [holding, ofText, ofPolicy, Policy.shown, Policy.firstHidden?]

theorem limitReached_holding (text : String) (policy : Policy)
    (findings : List (Finding interner)) :
    (holding text policy findings).queue.limitReached ↔ policy.Full findings := by
  rw [Policy.full_iff_le_length_shown, limitReached, size, holding, List.length_map]
  simp only [Bool.and_eq_true, decide_eq_true_eq]

/-- A report that is not full takes a finding about a new name. No message repeats another one's,
whatever the lines they are about. -/
theorem accepts_holding {findings : List (Finding interner)} {next : Finding interner}
    (new : ∀ finding ∈ findings, finding.free.name ≠ next.free.name) :
    (holding text policy findings).queue.accepts (next.queued text) ↔
      ¬ policy.Full findings := by
  -- A repeat would need the same message, and so the same name.
  have repeats : ((policy.shown findings).map (Finding.queued text)).any
      (next.queued text).repeats = false := by
    rw [List.any_eq_false]
    intro queued waiting same
    obtain ⟨finding, kept, rfl⟩ := List.mem_map.mp waiting
    simp only [Queued.repeats, Bool.and_eq_true, beq_iff_eq] at same
    exact new finding (Policy.shown_sublist.subset kept) (Finding.name_eq_of_message_eq same.2)
  rw [accepts, ← limitReached_holding text]
  simp [holding, repeats]

theorem keep_or_set (known : Option Span) (span : Span) :
    (if known.isNone then some span else known) = known.or (some span) := by
  cases known with
  | none => rfl
  | some first => rfl

theorem add_holding {findings : List (Finding interner)} {next : Finding interner}
    (new : ∀ finding ∈ findings, finding.free.name ≠ next.free.name) :
    (holding text policy findings).add next.free =
      .ok (holding text policy (findings ++ [next])) := by
  have said : next.free.diagnostic (holding text policy findings).interner =
      .ok next.diagnostic := next.said
  have located : (holding text policy findings).queue.addLocated
      (holding text policy findings).table (holding text policy findings).text next.diagnostic =
        (holding text policy findings).queue.add (next.queued text) := by
    rw [addLocated, holding, Finding.positionOf_eq]
    rfl
  rw [add, said]
  simp only [bind, Except.bind, located]
  by_cases full : policy.Full findings
  · have refused : ¬ (holding text policy findings).queue.accepts (next.queued text) :=
      fun accepted => (accepts_holding new).mp accepted full
    have reached := (limitReached_holding text policy findings).mpr full
    rw [add_of_not_accepts refused]
    simp only [reached, Bool.not_false, Bool.true_and, Bool.and_true, keep_or_set]
    simp only [holding, Policy.shown_concat_of_full full, Policy.firstHidden?_concat_of_full full,
      Option.map_or, Option.map_some]
    rfl
  · have accepted : (holding text policy findings).queue.accepts (next.queued text) :=
      (accepts_holding new).mpr full
    rw [add_of_accepts accepted]
    simp only [holding, Policy.shown_concat_of_not_full full,
      Policy.firstHidden?_concat_of_not_full full, List.map_append]
    rfl

theorem foldlM_add_holding (findings rest : List (Finding interner))
    (distinct : ((findings ++ rest).map fun finding => finding.free.name).Nodup) :
    (rest.map Finding.free).foldlM add (holding text policy findings) =
      .ok (holding text policy (findings ++ rest)) := by
  -- The induction is on the findings still to come, for any that came before.
  induction rest generalizing findings with
  | nil =>
      rw [List.append_nil]
      rfl
  | cons next rest induction =>
      have new : ∀ finding ∈ findings, finding.free.name ≠ next.free.name := by
        intro finding member
        rw [List.map_append, List.nodup_append] at distinct
        exact distinct.2.2 _ (List.mem_map_of_mem member) _ List.mem_cons_self
      have shifted : findings ++ next :: rest = findings ++ [next] ++ rest :=
        List.append_cons findings next rest
      rw [shifted] at distinct ⊢
      rw [List.map_cons, List.foldlM_cons, add_holding new]
      exact induction (findings ++ [next]) distinct

theorem finish_holding {findings : List (Finding interner)} (short : text.utf8ByteSize < maxWord)
    (marks : ∀ finding ∈ findings, Text.Marks text finding.free.span.start)
    (ordered : findings.Pairwise fun left right => left.free.precedes right.free) :
    (holding text policy findings).finish =
      policy.shown (findings.map Finding.diagnostic) ++
        ((policy.firstHidden? findings).map fun finding =>
          tooManyErrors policy.limit finding.free.span).toList := by
  have sorted : inOrder ((policy.shown findings).map (Finding.queued text)) := by
    rw [inOrder_iff_pairwise, List.pairwise_map]
    apply (ordered.sublist Policy.shown_sublist).imp_of_mem
    intro left right leftKept rightKept earlier
    rw [FreeVariable.precedes, Span.precedes_iff] at earlier
    rw [Queued.precedes_iff]
    apply LineTable.position_le_position short
    · simp only [UInt32.lt_iff_toNat_lt, UInt32.le_iff_toNat_le, ← UInt32.toNat_inj] at *
      omega
    · exact marks left (Policy.shown_sublist.subset leftKept)
    · exact marks right (Policy.shown_sublist.subset rightKept)
  have flushed : (holding text policy findings).queue.flush.1 =
      policy.shown (findings.map Finding.diagnostic) := by
    rw [flush, holding, if_pos sorted, Policy.shown_map, List.map_map]
    rfl
  rw [finish, flushed, holding]
  cases policy.firstHidden? findings with
  | none => exact (List.append_nil _).symm
  | some first => rfl

/-- All that is given out are undefined names, and last the note that there are too many. -/
theorem codes_of_finish {report : Report} {findings : List (Finding interner)}
    (finished : report.finish = policy.shown (findings.map Finding.diagnostic) ++
      ((policy.firstHidden? findings).map fun finding =>
        tooManyErrors policy.limit finding.free.span).toList) :
    report.finish.map Diagnostic.code =
        (policy.shown (findings.map Finding.free)).map (fun _ => .undefinedName) ++
          ((policy.firstHidden? (findings.map Finding.free)).map fun _ => .tooMany).toList ∧
      report.finish.map Diagnostic.primarySpan? =
        (policy.shown (findings.map Finding.free) ++
          (policy.firstHidden? (findings.map Finding.free)).toList).map
            fun free => some free.span := by
  rw [finished]
  simp only [Policy.shown_map, Policy.firstHidden?_map, List.map_append, List.map_map,
    Option.toList_map, Function.comp_def, Finding.code_diagnostic, Finding.primarySpan?_diagnostic,
    code_tooManyErrors, primarySpan?_tooManyErrors, true_and]

theorem errorsEmitted?_holding (findings : List (Finding interner)) :
    (holding text policy findings).errorsEmitted?.isSome ↔ findings ≠ [] := by
  rw [errorsEmitted?, isSome_errorsEmitted?, holding, ne_eq, ne_eq, List.map_eq_nil_iff,
    Policy.shown_eq_nil_iff]

end Report

namespace Program

variable {program : Program} {ambient : Ambient} {interner : Interner}

theorem report_of_check_eq_error {failure : CheckError}
    (failed : program.check ambient interner = .error failure) (text : String) (policy : Policy) :
    program.report ambient interner text policy =
      (Report.ofText text interner policy, .error failure) := by
  rw [report, checkInto, failed]

theorem report_of_check_eq_ok {findings : List (Finding interner)}
    (passed : program.check ambient interner = .ok (findings.map Finding.free)) (text : String)
    (policy : Policy) :
    program.report ambient interner text policy =
      (Report.holding text policy findings, .ok ()) := by
  have distinct := (ordered_of_check_eq_ok passed).1
  rw [List.map_map] at distinct
  have added : (findings.map Finding.free).foldlM Report.add
      (Report.ofText text interner policy) = .ok (Report.holding text policy findings) := by
    rw [← Report.holding_nil]
    exact Report.foldlM_add_holding [] findings distinct
  rw [report, checkInto, passed]
  simp only [added]

/-- Whatever its policy, a report shows what the check found, in the same order, up to the limit, as
undefined names where they stand, and then the first variable beyond it, as one too many. A check
that fails leaves the report empty. -/
theorem report_truncates_check (program : Program) (ambient : Ambient) (interner : Interner)
    (text : String) :
    (∀ found, program.check ambient interner = .ok found →
      text.utf8ByteSize < maxWord →
      (∀ free ∈ found, ∃ name, interner.lookup free.name = .ok name) →
      (∀ free ∈ found, Text.Marks text free.span.start) →
      ∃ diagnostics, found.mapM (fun free => free.diagnostic interner) = .ok diagnostics ∧
        program.diagnostics ambient interner text = .ok diagnostics ∧
        ∀ policy : Policy, ∃ report, program.report ambient interner text policy =
            (report, .ok ()) ∧
          report.finish = policy.shown diagnostics ++
            ((policy.firstHidden? found).map fun free =>
              tooManyErrors policy.limit free.span).toList ∧
          report.finish.map Diagnostic.code =
            (policy.shown found).map (fun _ => .undefinedName) ++
              ((policy.firstHidden? found).map fun _ => .tooMany).toList ∧
          report.finish.map Diagnostic.primarySpan? =
            (policy.shown found ++ (policy.firstHidden? found).toList).map
              (fun free => some free.span) ∧
          (report.errorsEmitted?.isSome ↔ found ≠ [])) ∧
    (∀ failure, program.check ambient interner = .error failure →
      program.diagnostics ambient interner text = .error failure ∧
      ∀ policy : Policy, ∃ report, program.report ambient interner text policy =
          (report, .error failure) ∧
        report.finish = [] ∧ report.errorsEmitted? = none) := by
  constructor
  · intro found passed short known marks
    obtain ⟨findings, rfl⟩ := Finding.exists_findings known
    have ordered := (ordered_of_check_eq_ok passed).2
    rw [List.pairwise_map] at ordered
    have marked : ∀ finding ∈ findings, Text.Marks text finding.free.span.start :=
      fun finding member => marks finding.free (List.mem_map_of_mem member)
    have finished : ∀ policy : Policy, (Report.holding text policy findings).finish = _ :=
      fun policy => Report.finish_holding short marked ordered
    refine ⟨findings.map Finding.diagnostic, Finding.mapM_diagnostic findings, ?_, ?_⟩
    · rw [diagnostics, report_of_check_eq_ok passed]
      change Except.ok (Report.holding text Policy.unlimited findings).finish = _
      rw [finished]
      exact congrArg Except.ok (List.append_nil _)
    · intro policy
      have codes := Report.codes_of_finish (finished policy)
      refine ⟨Report.holding text policy findings, report_of_check_eq_ok passed text policy, ?_,
        codes.1, codes.2, ?_⟩
      · rw [finished, Policy.firstHidden?_map, Option.map_map]
        rfl
      · rw [Report.errorsEmitted?_holding, ne_eq, ne_eq, List.map_eq_nil_iff]
  · intro failure failed
    constructor
    · rw [diagnostics, report_of_check_eq_error failed]
      rfl
    · intro policy
      exact ⟨_, report_of_check_eq_error failed text policy, rfl, rfl⟩

/-- With room for one, the report on `shadowed` points at the other variable, `set`. -/
theorem report_of_shadowed :
    ∃ report, shadowed.report ∅ Interner.initial
        "set => set + undefined; set;" ⟨1, true⟩ = (report, .ok ()) ∧
      report.finish =
        [⟨.undefinedName, "`undefined` is not defined",
            [⟨⟨13, 22⟩, "not declared in any enclosing scope"⟩], []⟩,
          tooManyErrors 1 ⟨24, 27⟩] ∧
      report.finish.map Diagnostic.code = [.undefinedName, .tooMany] ∧
      report.finish.map Diagnostic.primarySpan? = [some ⟨13, 22⟩, some ⟨24, 27⟩] := by
  have texts : Interner.initial.lookup ⟨1073741826⟩ = .ok "undefined" ∧
      Interner.initial.lookup ⟨536870912⟩ = .ok "set" := by
    constructor
    · decide +kernel
    · decide +kernel
  have known : ∀ free ∈ [(⟨⟨1073741826⟩, ⟨13, 22⟩⟩ : FreeVariable), ⟨⟨536870912⟩, ⟨24, 27⟩⟩],
      ∃ name, Interner.initial.lookup free.name = .ok name := by
    simp [texts]
  have marks : ∀ free ∈ [(⟨⟨1073741826⟩, ⟨13, 22⟩⟩ : FreeVariable), ⟨⟨536870912⟩, ⟨24, 27⟩⟩],
      Text.Marks "set => set + undefined; set;" free.span.start := by
    intro free member
    apply Or.inl
    apply String.Pos.Raw.isValid_iff_exists_append.mpr
    simp only [List.mem_cons, List.not_mem_nil, or_false] at member
    rcases member with rfl | rfl
    · exact ⟨"set => set + ", "undefined; set;", by decide, by decide⟩
    · exact ⟨"set => set + undefined; ", "set;", by decide, by decide⟩
  obtain ⟨diagnostics, said, _, reports⟩ :=
    (report_truncates_check shadowed ∅ Interner.initial _).1 _ check_shadowed (by decide) known
      marks
  obtain ⟨report, reported, finished, codes, places, _⟩ := reports ⟨1, true⟩
  refine ⟨report, reported, ?_, codes, places⟩
  simp only [List.mapM_cons, FreeVariable.diagnostic, texts, bind, Except.bind] at said
  rw [finished, ← Except.ok.inj said]
  rfl

end Program

end Unbound
