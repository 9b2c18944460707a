import Unbound.Name.Interner

/-!
# Free variables

A name that is used and that nothing declares, with the place of its first such use.
-/

set_option autoImplicit false

namespace Unbound

structure FreeVariable where
  name : Name
  span : Span
deriving DecidableEq, Repr

/-- The plain message, without the place. -/
def FreeVariable.message (free : FreeVariable) (interner : Interner) :
    Except Dangling String := do
  let text ← interner.lookup free.name
  return s!"{text} is not defined"

end Unbound
