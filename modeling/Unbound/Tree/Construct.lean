import Unbound.Name.Basic
import Unbound.Tree.NodeId
import Unbound.Tree.Operator

/-!
# Constructs of a lowered program

Variables occur in two constructs only, `binding` and `reference`. Property keys, members, labels
and the texts of literals are names too, but they are fields of the construct, not children of it.
Numbers are kept as the bits of their double-precision value, and compared as such.
-/

set_option autoImplicit false

namespace Unbound

inductive Literal where
  | null
  | bool (value : Bool)
  | number (bits : UInt64)
  | string (text : Name)
  | regExp (text : Name)
deriving DecidableEq, Repr

inductive FunctionForm where
  /-- A function as a statement. Its name belongs to the scope around it. -/
  | declaration (name : NodeId) (params : NodeRange) (body : NodeId)
  /-- A function as an expression. Its name, if there is one, belongs to its own scope. -/
  | expression (name : NodeId) (params : NodeRange) (body : NodeId)
  /-- The body is a function body or an expression. -/
  | arrow (params : NodeRange) (body : NodeId)
  | method (key : Name) (params : NodeRange) (body : NodeId)
  | getter (key : Name) (body : NodeId)
  | setter (key : Name) (param : NodeId) (body : NodeId)
deriving DecidableEq, Repr

inductive Pattern where
  | object (fields : NodeRange)
  | field (key : Name) (element : NodeId)
  | array (elements : NodeRange)
  | withDefault (binding : NodeId) (initializer : NodeId)
  | rest (binding : NodeId)
deriving DecidableEq, Repr

inductive Statement where
  | block (body : NodeRange)
  | declarations (declarators : NodeRange)
  | declarator (binding : NodeId) (initializer : NodeId)
  | expression (inner : NodeId)
  | result (argument : NodeId)
  | branch (test : NodeId) (consequent : NodeId) (alternate : NodeId)
  | whileLoop (test : NodeId) (body : NodeId)
  | doWhileLoop (body : NodeId) (test : NodeId)
  | forLoop (initializer : NodeId) (test : NodeId) (update : NodeId) (body : NodeId)
  | forInLoop (left : NodeId) (right : NodeId) (body : NodeId)
  | selection (discriminant : NodeId) (cases : NodeRange)
  /-- One case of a selection. The default case has no test. -/
  | caseClause (test : NodeId) (body : NodeRange)
  | labelled (label : Name) (body : NodeId)
  /-- Leaves the statement with this label, or the nearest one for the empty label. -/
  | leave (label : Name)
  | resume (label : Name)
  | throw (argument : NodeId)
  | try (body : NodeId) (handler : NodeId) (finalizer : NodeId)
  | empty
  | debugger
deriving DecidableEq, Repr

inductive Expression where
  | literal (value : Literal)
  | this
  | array (elements : NodeRange)
  | object (properties : NodeRange)
  | property (key : Name) (value : NodeId)
  | computedProperty (key : NodeId) (value : NodeId)
  | member (base : NodeId) (property : Name)
  | computedMember (base : NodeId) (key : NodeId)
  | call (callee : NodeId) (arguments : NodeRange)
  | new (callee : NodeId) (arguments : NodeRange)
  | unary (op : UnaryOp) (operand : NodeId)
  | update (op : UpdateOp) (leading : Bool) (operand : NodeId)
  | binary (op : BinaryOp) (left : NodeId) (right : NodeId)
  | assignment (op : AssignOp) (target : NodeId) (value : NodeId)
  | conditional (test : NodeId) (consequent : NodeId) (alternate : NodeId)
  | comma (items : NodeRange)
  | paren (inner : NodeId)
  | spread (argument : NodeId)
deriving DecidableEq, Repr

inductive Construct where
  | script (items : NodeRange)
  | function (form : FunctionForm)
  | functionBody (statements : NodeRange)
  /-- The part of a `try` that binds what was thrown. -/
  | catchClause (parameter : NodeId) (body : NodeId)
  /-- A name that is being bound. -/
  | binding (name : Name)
  /-- A name that is read or written. -/
  | reference (name : Name)
  | pattern (form : Pattern)
  | statement (form : Statement)
  | expression (form : Expression)
deriving DecidableEq, Repr

inductive Child where
  | node (id : NodeId)
  | list (range : NodeRange)
deriving DecidableEq, Repr

def FunctionForm.children : FunctionForm → List Child
  | .declaration name params body => [.node name, .list params, .node body]
  | .expression name params body => [.node name, .list params, .node body]
  | .arrow params body => [.list params, .node body]
  | .method _ params body => [.list params, .node body]
  | .getter _ body => [.node body]
  | .setter _ param body => [.node param, .node body]

def Pattern.children : Pattern → List Child
  | .object fields => [.list fields]
  | .field _ element => [.node element]
  | .array elements => [.list elements]
  | .withDefault binding initializer => [.node binding, .node initializer]
  | .rest binding => [.node binding]

def Statement.children : Statement → List Child
  | .block body => [.list body]
  | .declarations declarators => [.list declarators]
  | .declarator binding initializer => [.node binding, .node initializer]
  | .expression inner => [.node inner]
  | .result argument => [.node argument]
  | .branch test consequent alternate => [.node test, .node consequent, .node alternate]
  | .whileLoop test body => [.node test, .node body]
  | .doWhileLoop body test => [.node body, .node test]
  | .forLoop initializer test update body =>
      [.node initializer, .node test, .node update, .node body]
  | .forInLoop left right body => [.node left, .node right, .node body]
  | .selection discriminant cases => [.node discriminant, .list cases]
  | .caseClause test body => [.node test, .list body]
  | .labelled _ body => [.node body]
  | .leave _ => []
  | .resume _ => []
  | .throw argument => [.node argument]
  | .try body handler finalizer => [.node body, .node handler, .node finalizer]
  | .empty => []
  | .debugger => []

def Expression.children : Expression → List Child
  | .literal _ => []
  | .this => []
  | .array elements => [.list elements]
  | .object properties => [.list properties]
  | .property _ value => [.node value]
  | .computedProperty key value => [.node key, .node value]
  | .member base _ => [.node base]
  | .computedMember base key => [.node base, .node key]
  | .call callee arguments => [.node callee, .list arguments]
  | .new callee arguments => [.node callee, .list arguments]
  | .unary _ operand => [.node operand]
  | .update _ _ operand => [.node operand]
  | .binary _ left right => [.node left, .node right]
  | .assignment _ target value => [.node target, .node value]
  | .conditional test consequent alternate => [.node test, .node consequent, .node alternate]
  | .comma items => [.list items]
  | .paren inner => [.node inner]
  | .spread argument => [.node argument]

/-- The parts of a construct, in the order in which a walk visits them. -/
def Construct.children : Construct → List Child
  | .script items => [.list items]
  | .function form => form.children
  | .functionBody statements => [.list statements]
  | .catchClause parameter body => [.node parameter, .node body]
  | .binding _ => []
  | .reference _ => []
  | .pattern form => form.children
  | .statement form => form.children
  | .expression form => form.children

end Unbound
