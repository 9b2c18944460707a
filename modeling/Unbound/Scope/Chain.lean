import Unbound.FreeVariable
import Unbound.Scope.Occurrences

/-!
# The chain of open scopes

Whether a use is resolved is not decided before its scope is left. By then everything declared in
the scope is known. What it does not declare becomes a use of the scope around it, unless the name
is used there already; what the root does not declare is free.
-/

set_option autoImplicit false

namespace Unbound

structure ScopeHandle where
  number : Nat
deriving DecidableEq, Repr

instance : ToString ScopeHandle where
  toString handle := s!"scope #{handle.number}"

structure Scope where
  handle : ScopeHandle
  declarations : Occurrences
  references : Occurrences

namespace Scope

def unresolved (scope : Scope) : Occurrences := scope.references.without scope.declarations

/-- Takes over the unresolved uses of a scope within. -/
def promote (outer inner : Scope) : Scope :=
  { outer with references := outer.references ∪ inner.unresolved }

end Scope

inductive ScopeError where
  /-- A scope was left that is not the active one. -/
  | mismatch (closing : ScopeHandle) (active : Option ScopeHandle)
  /-- A name made up by a compiler pass is not defined. -/
  | generatedUndefined (text : String)
  /-- Such a name has no text either. -/
  | dangling (handle : Dangling)
deriving DecidableEq, Repr

namespace ScopeError

def describeActive : Option ScopeHandle → String
  | none => "None"
  | some handle => s!"Some(ScopeId({handle.number}))"

def message : ScopeError → Except Dangling String
  | .mismatch closing active =>
      .ok s!"scope mismatch: closing {closing} but the active scope is {describeActive active}"
  | .generatedUndefined text => .ok s!"generated variable {text} is not defined"
  | .dangling handle => .error handle

/-- What a made-up name that is not defined leads to. Its text is looked up at once. -/
def ofUndefined (interner : Interner) (name : Name) : ScopeError :=
  match interner.lookup name with
  | .ok text => .generatedUndefined text
  | .error handle => .dangling handle

theorem ofUndefined_of_lookup {interner : Interner} {name : Name} {text : String}
    (known : interner.lookup name = .ok text) :
    ofUndefined interner name = .generatedUndefined text := by
  rw [ofUndefined, known]

theorem ofUndefined_ne_mismatch (interner : Interner) (name : Name) (closing : ScopeHandle)
    (active : Option ScopeHandle) : ofUndefined interner name ≠ .mismatch closing active := by
  rw [ofUndefined]
  cases interner.lookup name with
  | ok text => exact nofun
  | error handle => exact nofun

/-- The error says for which name it is. -/
theorem ofUndefined_injective (interner : Interner) :
    Function.Injective (ofUndefined interner) := by
  intro left right same
  rw [ofUndefined, ofUndefined] at same
  cases foundLeft : interner.lookup left with
  | ok text =>
      cases foundRight : interner.lookup right with
      | ok other =>
          rw [foundLeft, foundRight] at same
          cases same
          rw [← Interner.find?_eq_some_iff] at foundLeft foundRight
          exact Option.some.inj (foundLeft.symm.trans foundRight)
      | error handle =>
          rw [foundLeft, foundRight] at same
          cases same
  | error handle =>
      cases foundRight : interner.lookup right with
      | ok other =>
          rw [foundLeft, foundRight] at same
          cases same
      | error other =>
          rw [foundLeft, foundRight] at same
          cases same
          have named := Interner.eq_of_lookup_eq_error foundLeft
          cases named.symm.trans (Interner.eq_of_lookup_eq_error foundRight)
          rfl

end ScopeError

/-- The free variables among unresolved names, in the order of their places. A name without a place
is not the fault of the source text. -/
def freeVariables (interner : Interner) (unresolved : Occurrences) :
    Except ScopeError (List FreeVariable) := do
  let found ← unresolved.entries.mapM fun (name, span) =>
    match span with
    | some span => .ok (FreeVariable.mk name span)
    | none => .error (.ofUndefined interner name)
  return found.mergeSort fun left right => left.span.precedes right.span

/-- The open scopes, the active one first, how many were ever opened, and the texts of the names. -/
structure ScopeChain where
  scopes : List Scope
  opened : Nat
  interner : Interner

namespace ScopeChain

def empty (interner : Interner) : ScopeChain := ⟨[], 0, interner⟩

instance : Inhabited ScopeChain := ⟨empty default⟩

def depth (chain : ScopeChain) : Nat := chain.scopes.length

def active? (chain : ScopeChain) : Option ScopeHandle := chain.scopes.head?.map Scope.handle

def enter (chain : ScopeChain) : ScopeHandle × ScopeChain :=
  let handle := ⟨chain.opened⟩
  (handle, { chain with scopes := ⟨handle, ∅, ∅⟩ :: chain.scopes, opened := chain.opened + 1 })

/-- Declares a name in the active scope. The empty name is no name, and without an open scope
there is nowhere to declare it. -/
def declare (chain : ScopeChain) (name : Name) (span : Option Span) : ScopeChain :=
  if name.isEmpty then chain
  else
    match chain.scopes with
    | [] => chain
    | scope :: outer =>
        let declarations := scope.declarations.insertIfNew name span
        { chain with scopes := { scope with declarations } :: outer }

def reference (chain : ScopeChain) (name : Name) (span : Option Span) : ScopeChain :=
  match chain.scopes with
  | [] => chain
  | scope :: outer =>
      let references := scope.references.insertIfNew name span
      { chain with scopes := { scope with references } :: outer }

/-- Closes the active scope, which must be the one with the given handle, and yields the free
variables if it was the root. Where the handle is another one, nothing changes. -/
def leave (chain : ScopeChain) (handle : ScopeHandle) :
    Except ScopeError (List FreeVariable) × ScopeChain :=
  match chain.scopes with
  | [] => (.error (.mismatch handle none), chain)
  | scope :: outer =>
      if scope.handle = handle then
        match outer with
        | [] => (freeVariables chain.interner scope.unresolved, { chain with scopes := [] })
        | parent :: rest => (.ok [], { chain with scopes := parent.promote scope :: rest })
      else (.error (.mismatch handle (some scope.handle)), chain)

@[simp] theorem depth_enter (chain : ScopeChain) : chain.enter.2.depth = chain.depth + 1 := rfl

@[simp] theorem active?_enter (chain : ScopeChain) :
    chain.enter.2.active? = some chain.enter.1 := rfl

/-- A scope that is not the active one cannot be left, and trying to changes nothing. -/
theorem leave_of_ne (chain : ScopeChain) (handle : ScopeHandle)
    (other : chain.active? ≠ some handle) :
    chain.leave handle = (.error (.mismatch handle chain.active?), chain) := by
  obtain ⟨scopes, opened, interner⟩ := chain
  cases scopes with
  | nil => rfl
  | cons scope outer =>
      have distinct : scope.handle ≠ handle := fun same => other (congrArg some same)
      simp only [leave, if_neg distinct]
      rfl

end ScopeChain

end Unbound
