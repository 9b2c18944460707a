import Unbound.Tree.Walk
import Unbound.Scope.Chain
import Unbound.Ambient

/-!
# Checking a program for free variables

One walk turns the program into scope events, and these are replayed on a chain of scopes whose root
declares the ambient names.

The name of a function declaration is declared around it, that of a function expression inside it.
`typeof` may ask for a name that nothing declares: it then counts as declared where it is asked for.
-/

set_option autoImplicit false

namespace Unbound

inductive ScopeEvent where
  | enter
  | declare (name : Name) (span : Option Span)
  | reference (name : Name) (span : Option Span)
  | leave
deriving DecidableEq, Repr

/-- The name that a node binds and its place, if the node is there and binds a name. -/
def Arena.bindingName? (arena : Arena) (id : NodeId) :
    Except Dangling (Option (Name × Option Span)) :=
  if id.isPresent then do
    let node ← arena.node id
    match node.construct with
    | .binding name => return some (name, node.span)
    | _ => return none
  else .ok none

namespace Check

abbrev Steps := List (Step ScopeEvent Empty)

def inScope (steps : Steps) : Steps := .emit .enter :: (steps ++ [.emit .leave])

/-- The scope of a function, where the name is that of an expression, if it has one. -/
def functionScope (argumentsName : Name) (name : NodeId) (params : NodeRange) (body : NodeId) :
    Steps :=
  inScope
    [.child (.node name), .emit (.declare argumentsName none), .child (.list params),
      .child (.node body)]

def steps (arena : Arena) (argumentsName : Name) (node : Node) : Steps :=
  match node.construct with
  | .function (.declaration name params body) =>
      match arena.bindingName? name with
      | .error handle => [.dangle handle]
      | .ok none => functionScope argumentsName .absent params body
      | .ok (some (name, span)) =>
          .emit (.declare name span) :: functionScope argumentsName .absent params body
  | .function (.expression name params body) => functionScope argumentsName name params body
  | .function (.arrow params body) => functionScope argumentsName .absent params body
  | .function (.method _ params body) => functionScope argumentsName .absent params body
  | .function (.getter ..) | .function (.setter ..) | .catchClause .. =>
      inScope (node.construct.children.map .child)
  | .binding name => [.emit (.declare name node.span)]
  | .reference name => [.emit (.reference name node.span)]
  | .expression (.unary .typeOf operand) =>
      match arena.node operand with
      | .error handle => [.dangle handle]
      | .ok ⟨.reference name, span⟩ => [.emit (.declare name span)]
      | .ok _ => [.child (.node operand)]
  | construct => construct.children.map .child

def pass (arena : Arena) (argumentsName : Name) : Pass ScopeEvent Empty := fun id =>
  match arena.node id with
  | .error handle => [.dangle handle]
  | .ok node => steps arena argumentsName node

/-- The chain of scopes during a replay, and the handles of the scopes that the walk has entered and
not yet left. -/
structure Session where
  chain : ScopeChain
  entered : List ScopeHandle

namespace Session

/-- Replays one event. A scope that was never entered cannot be left. -/
def step (session : Session) : ScopeEvent → Except ScopeError Session
  | .enter =>
      let (handle, chain) := session.chain.enter
      .ok ⟨chain, handle :: session.entered⟩
  | .declare name span => .ok { session with chain := session.chain.declare name span }
  | .reference name span => .ok { session with chain := session.chain.reference name span }
  | .leave =>
      match session.entered with
      | [] => .ok session
      | handle :: entered =>
          match session.chain.leave handle with
          | (.error error, _) => .error error
          | (.ok _, chain) => .ok ⟨chain, entered⟩

def replay (session : Session) (events : List ScopeEvent) : Except ScopeError Session :=
  events.foldlM step session

end Session

end Check

inductive CheckError where
  | dangling (handle : Dangling)
  | cyclic
  | scope (error : ScopeError)
deriving DecidableEq, Repr

def CheckError.ofInterruption : Interruption Empty → CheckError
  | .dangling handle => .dangling handle
  | .cyclic => .cyclic
  | .refused refusal => nomatch refusal

namespace Program

def scopeTrace (program : Program) (argumentsName : Name) : Trace ScopeEvent Empty :=
  program.arena.walk (Check.pass program.arena argumentsName) program.root

/-- The free variables of a program, each name once, in the order of their first uses. -/
def check (program : Program) (ambient : Ambient) (interner : Interner) :
    Except CheckError (List FreeVariable) := do
  let (root, chain) := (ScopeChain.empty interner).enter
  let chain := ambient.chain.foldl (fun chain name => chain.declare name none) chain
  let trace := program.scopeTrace interner.argumentsName
  let session ← ((⟨chain, []⟩ : Check.Session).replay trace.events).mapError .scope
  match trace.interruption with
  | some interruption => .error (.ofInterruption interruption)
  | none => (session.chain.leave root).1.mapError .scope

end Program

end Unbound
