import Unbound.Source.Span
import Unbound.Diagnostic.Code

/-!
# Diagnostics

One error each: a code, a message, labelled places in the source text, and notes.
-/

set_option autoImplicit false

namespace Unbound

structure Label where
  span : Span
  message : String
deriving DecidableEq, Repr

structure Diagnostic where
  code : Diagnostic.Code
  message : String := ""
  labels : List Label := []
  notes : List String := []
deriving DecidableEq, Repr

namespace Diagnostic

def primarySpan? (diagnostic : Diagnostic) : Option Span := diagnostic.labels.head?.map Label.span

def text (diagnostic : Diagnostic) : String :=
  let labels := diagnostic.labels.map fun label => s!"\n  --> {label.span}: {label.message}"
  let notes := diagnostic.notes.map fun note => s!"\n  = note: {note}"
  s!"error [{diagnostic.code}]: {diagnostic.message}" ++ String.join (labels ++ notes)

instance : ToString Diagnostic := ⟨text⟩

/-- Says that errors beyond the limit were left out, the first of them at the given place. -/
def tooManyErrors (limit : Nat) (span : Span) : Diagnostic where
  code := .tooMany
  message := s!"aborting due to {limit} previous errors"
  labels := [⟨span, "error limit reached here"⟩]

@[simp] theorem code_tooManyErrors (limit : Nat) (span : Span) :
    (tooManyErrors limit span).code = .tooMany := rfl

@[simp] theorem primarySpan?_tooManyErrors (limit : Nat) (span : Span) :
    (tooManyErrors limit span).primarySpan? = some span := rfl

end Diagnostic

end Unbound
