/-!
# Error codes

A capital E and four digits, the first of which names the phase that found the error.
-/

set_option autoImplicit false

namespace Unbound

inductive Diagnostic.Code where
  | undefinedName
  | internal
  | tooMany
deriving DecidableEq, Repr

namespace Diagnostic.Code

def all : List Code := [undefinedName, internal, tooMany]

def text : Code → String
  | undefinedName => "E2001"
  | internal => "E9001"
  | tooMany => "E9002"

instance : ToString Code := ⟨text⟩

def description : Code → String
  | undefinedName => "identifier is not defined in any enclosing scope"
  | internal => "internal compiler error"
  | tooMany => "too many errors"

def isNameResolution : Code → Bool
  | undefinedName => true
  | internal | tooMany => false

def isInternal : Code → Bool
  | undefinedName => false
  | internal | tooMany => true

/-- Reads a code, where the letter may be small. Only ASCII letters have to be raised: no other
character becomes one of a code when it is raised. -/
def ofText? (text : String) : Option Code :=
  all.find? fun code => code.text.toList == text.toList.map Char.toUpper

theorem mem_all (code : Code) : code ∈ all := by cases code <;> decide

@[simp] theorem ofText?_text (code : Code) : ofText? code.text = some code := by
  cases code <;> decide

end Diagnostic.Code

end Unbound
