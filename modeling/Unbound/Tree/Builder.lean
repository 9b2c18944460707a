import Unbound.Name.Interner
import Unbound.Tree.Arena

/-!
# Building trees

Trees are built from the leaves up. Leaves take their place as an argument, every other node takes
the smallest span that covers the located ones among certain parts: for functions the name and the
body, for methods and getters the body, for all other constructs every part.

Ids that are given to a call are not checked, but a call fails whose span depends on a dangling one.
-/

set_option autoImplicit false

namespace Unbound

def Span.hull : List Span → Option Span
  | [] => none
  | span :: spans => some (spans.foldl Span.merge span)

/-- The smallest span that covers every located node among those present. -/
def Arena.cover (arena : Arena) (ids : List NodeId) : Except Dangling (Option Span) := do
  let nodes ← (ids.filter NodeId.isPresent).mapM arena.node
  return Span.hull (nodes.filterMap Node.span)

structure Builder where
  arena : Arena
  interner : Interner

inductive BuildError where
  | dangling (handle : Dangling)
  | shardFull (failure : ShardFull)
  | arenaFull (failure : ArenaFull)
deriving DecidableEq, Repr

abbrev BuildM := StateT Builder (Except BuildError)

namespace Builder

def ofInterner (interner : Interner) : Builder := ⟨.empty, interner⟩

def name (text : String) : BuildM Name := fun ⟨arena, interner⟩ =>
  match interner.intern text with
  | .ok (name, interner) => .ok (name, ⟨arena, interner⟩)
  | .error failure => .error (.shardFull failure)

def inArena {Value : Type} (store : Arena → Except ArenaFull (Value × Arena)) : BuildM Value :=
  fun ⟨arena, interner⟩ =>
    match store arena with
    | .ok (value, arena) => .ok (value, ⟨arena, interner⟩)
    | .error failure => .error (.arenaFull failure)

def node (construct : Construct) (span : Option Span) : BuildM NodeId :=
  inArena fun arena => arena.alloc ⟨construct, span⟩

def list (ids : List NodeId) : BuildM NodeRange := inArena fun arena => arena.allocList ids

def cover (ids : List NodeId) : BuildM (Option Span) := fun builder =>
  match builder.arena.cover ids with
  | .ok span => .ok (span, builder)
  | .error handle => .error (.dangling handle)

/-- Adds a node that covers the given ones. -/
def composite (construct : Construct) (covered : List NodeId) : BuildM NodeId := do
  node construct (← cover covered)

def reference (text : String) (span : Option Span) : BuildM NodeId := do
  node (.reference (← name text)) span

def binding (text : String) (span : Option Span) : BuildM NodeId := do
  node (.binding (← name text)) span

def functionBody (statements : List NodeId) : BuildM NodeId := do
  composite (.functionBody (← list statements)) statements

def functionDeclaration (name : NodeId) (params body : List NodeId) : BuildM NodeId := do
  let body ← functionBody body
  let params ← list params
  composite (.function (.declaration name params body)) [name, body]

def functionExpression (name : NodeId) (params body : List NodeId) : BuildM NodeId := do
  let body ← functionBody body
  let params ← list params
  composite (.function (.expression name params body)) [name, body]

def arrowOf (params : List NodeId) (body : NodeId) : BuildM NodeId := do
  composite (.function (.arrow (← list params) body)) (params ++ [body])

def arrow (params body : List NodeId) : BuildM NodeId := do
  arrowOf params (← functionBody body)

def method (key : String) (params body : List NodeId) : BuildM NodeId := do
  let key ← name key
  let body ← functionBody body
  let params ← list params
  composite (.function (.method key params body)) [body]

def getter (key : String) (body : List NodeId) : BuildM NodeId := do
  let key ← name key
  let body ← functionBody body
  composite (.function (.getter key body)) [body]

def setter (key : String) (param : NodeId) (body : List NodeId) : BuildM NodeId := do
  let key ← name key
  let body ← functionBody body
  composite (.function (.setter key param body)) [param, body]

def block (statements : List NodeId) : BuildM NodeId := do
  composite (.statement (.block (← list statements))) statements

/-- The catch clause of a `try`. Without a parameter there is none, whatever its statements. -/
def catchClause (parameter : NodeId) (handler : List NodeId) : BuildM NodeId := do
  if parameter.isPresent then
    let body ← block handler
    composite (.catchClause parameter body) [parameter, body]
  else return .absent

def tryStatement (body : List NodeId) (parameter : NodeId) (handler : List NodeId)
    (finalizer : Option (List NodeId)) : BuildM NodeId := do
  let body ← block body
  let handler ← catchClause parameter handler
  let finalizer ← match finalizer with
    | some statements => block statements
    | none => pure .absent
  composite (.statement (.try body handler finalizer)) [body, handler, finalizer]

def patternField (key : String) (element : NodeId) : BuildM NodeId := do
  composite (.pattern (.field (← name key) element)) [element]

def objectPattern (fields : List (String × NodeId)) : BuildM NodeId := do
  let fields ← fields.mapM fun (key, element) => patternField key element
  composite (.pattern (.object (← list fields))) fields

def arrayPattern (elements : List NodeId) : BuildM NodeId := do
  composite (.pattern (.array (← list elements))) elements

def withDefault (binding initializer : NodeId) : BuildM NodeId :=
  composite (.pattern (.withDefault binding initializer)) [binding, initializer]

def rest (binding : NodeId) : BuildM NodeId := composite (.pattern (.rest binding)) [binding]

def declarations (declarators : List NodeId) : BuildM NodeId := do
  composite (.statement (.declarations (← list declarators))) declarators

/-- A statement that declares one variable. The initializer may be absent. -/
def singleVariable (binding initializer : NodeId) : BuildM NodeId := do
  let declarator ←
    composite (.statement (.declarator binding initializer)) [binding, initializer]
  declarations [declarator]

def expressionStatement (inner : NodeId) : BuildM NodeId :=
  composite (.statement (.expression inner)) [inner]

def result (argument : NodeId) : BuildM NodeId :=
  composite (.statement (.result argument)) [argument]

def branch (test consequent alternate : NodeId) : BuildM NodeId :=
  composite (.statement (.branch test consequent alternate)) [test, consequent, alternate]

def throw (argument : NodeId) : BuildM NodeId :=
  composite (.statement (.throw argument)) [argument]

def number (bits : UInt64) : BuildM NodeId := node (.expression (.literal (.number bits))) none

def string (text : String) : BuildM NodeId := do
  node (.expression (.literal (.string (← name text)))) none

def unary (op : UnaryOp) (operand : NodeId) : BuildM NodeId :=
  composite (.expression (.unary op operand)) [operand]

def typeOf (operand : NodeId) : BuildM NodeId := unary .typeOf operand

def binary (op : BinaryOp) (left right : NodeId) : BuildM NodeId :=
  composite (.expression (.binary op left right)) [left, right]

def assign (target value : NodeId) : BuildM NodeId :=
  composite (.expression (.assignment .plain target value)) [target, value]

def call (callee : NodeId) (arguments : List NodeId) : BuildM NodeId := do
  composite (.expression (.call callee (← list arguments))) (callee :: arguments)

def member (base : NodeId) (property : String) : BuildM NodeId := do
  composite (.expression (.member base (← name property))) [base]

def array (elements : List NodeId) : BuildM NodeId := do
  composite (.expression (.array (← list elements))) elements

def object (properties : List NodeId) : BuildM NodeId := do
  composite (.expression (.object (← list properties))) properties

def property (key : String) (value : NodeId) : BuildM NodeId := do
  composite (.expression (.property (← name key) value)) [value]

/-- Wraps the items of the top level in a script, which becomes the root. -/
def finish (items : List NodeId) : BuildM Program := do
  let root ← composite (.script (← list items)) items
  return ⟨(← get).arena, root⟩

end Builder

end Unbound
