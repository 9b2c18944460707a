import Unbound.Diagnostic.Queue
import Unbound.Check

/-!
# Reporting what a check found

Free variables become diagnostics that are queued against the text they come from. If the limit cuts
some off, the report ends with a diagnostic that points at the first one refused.
-/

set_option autoImplicit false

namespace Unbound

def FreeVariable.diagnostic (free : FreeVariable) (interner : Interner) :
    Except Dangling Diagnostic := do
  let text ← interner.lookup free.name
  return {
    code := .undefinedName
    message := s!"`{text}` is not defined"
    labels := [⟨free.span, "not declared in any enclosing scope"⟩] }

/-- Whatever its name, a free variable is reported as an undefined name and where it stands. -/
theorem FreeVariable.code_and_primarySpan_of_diagnostic {free : FreeVariable}
    {interner : Interner} {diagnostic : Diagnostic}
    (said : free.diagnostic interner = .ok diagnostic) :
    diagnostic.code = .undefinedName ∧ diagnostic.primarySpan? = some free.span := by
  rw [FreeVariable.diagnostic] at said
  cases found : interner.lookup free.name with
  | error handle =>
      rw [found] at said
      cases said
  | ok text =>
      rw [found] at said
      cases said
      exact ⟨rfl, rfl⟩

def ScopeError.diagnostic (error : ScopeError) : Except Dangling Diagnostic := do
  let message ← error.message
  return {
    code := .internal
    message := s!"internal compiler error: {message}"
    notes := ["this is a bug in an earlier compiler pass, not in the input program"] }

/-- The diagnostics of a source text so far, and the place of the first one that the limit of the
queue kept out. -/
structure Report where
  queue : Diagnostic.Queue
  text : String
  table : LineTable
  interner : Interner
  overflow : Option Span

namespace Report

def ofText (text : String) (interner : Interner) (policy : Diagnostic.Policy) : Report :=
  ⟨.ofPolicy policy, text, .ofText text, interner, none⟩

def errorsEmitted? (report : Report) : Option ErrorsEmitted := report.queue.errorsEmitted?

/-- Adds a free variable. A refusal while the limit is reached counts as overflow, even of a
repeat. -/
def add (report : Report) (free : FreeVariable) : Except Dangling Report := do
  let diagnostic ← free.diagnostic report.interner
  let (added, queue) := report.queue.addLocated report.table report.text diagnostic
  let overflow :=
    if !added && report.overflow.isNone && queue.limitReached then some free.span
    else report.overflow
  return { report with queue, overflow }

def finish (report : Report) : List Diagnostic :=
  let diagnostics := report.queue.flush.1
  match report.overflow with
  | some span => diagnostics ++ [.tooManyErrors report.queue.policy.limit span]
  | none => diagnostics

end Report

namespace Program

/-- Hands the free variables of a program to a receiver, one by one, once the check has succeeded.
A check that fails hands over nothing. -/
def checkInto {Receiver : Type} (receive : Receiver → FreeVariable → Except Dangling Receiver)
    (receiver : Receiver) (program : Program) (ambient : Ambient) (interner : Interner) :
    Receiver × Except CheckError Unit :=
  match program.check ambient interner with
  | .error error => (receiver, .error error)
  | .ok free =>
      match free.foldlM receive receiver with
      | .error handle => (receiver, .error (.dangling handle))
      | .ok receiver => (receiver, .ok ())

def report (program : Program) (ambient : Ambient) (interner : Interner) (text : String)
    (policy : Diagnostic.Policy) : Report × Except CheckError Unit :=
  checkInto Report.add (Report.ofText text interner policy) program ambient interner

def diagnostics (program : Program) (ambient : Ambient) (interner : Interner) (text : String) :
    Except CheckError (List Diagnostic) :=
  let (report, outcome) := program.report ambient interner text Diagnostic.Policy.unlimited
  outcome.map fun _ => report.finish

end Program

end Unbound
