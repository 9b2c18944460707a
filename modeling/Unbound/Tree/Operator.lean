/-!
# Operators

The operators of the expression language, with the symbols they are written with.
-/

set_option autoImplicit false

namespace Unbound

inductive UnaryOp where
  | negate
  | plus
  | not
  | bitNot
  | typeOf
  | void
  | delete
deriving DecidableEq, Repr

inductive UpdateOp where
  | increment
  | decrement
deriving DecidableEq, Repr

inductive BinaryOp where
  | add
  | subtract
  | multiply
  | divide
  | remainder
  | equal
  | notEqual
  | strictEqual
  | strictNotEqual
  | less
  | lessEqual
  | greater
  | greaterEqual
  | memberOf
  | instanceOf
  | and
  | or
  | bitAnd
  | bitOr
  | bitXor
  | shiftLeft
  | shiftRight
  | shiftRightZero
deriving DecidableEq, Repr

/-- Plain assignment, or one that first applies a binary operator. -/
inductive AssignOp where
  | plain
  | compound (op : BinaryOp)
deriving DecidableEq, Repr

def UnaryOp.symbol : UnaryOp → String
  | .negate => "-"
  | .plus => "+"
  | .not => "!"
  | .bitNot => "~"
  | .typeOf => "typeof"
  | .void => "void"
  | .delete => "delete"

def BinaryOp.symbol : BinaryOp → String
  | .add => "+"
  | .subtract => "-"
  | .multiply => "*"
  | .divide => "/"
  | .remainder => "%"
  | .equal => "=="
  | .notEqual => "!="
  | .strictEqual => "==="
  | .strictNotEqual => "!=="
  | .less => "<"
  | .lessEqual => "<="
  | .greater => ">"
  | .greaterEqual => ">="
  | .memberOf => "in"
  | .instanceOf => "instanceof"
  | .and => "&&"
  | .or => "||"
  | .bitAnd => "&"
  | .bitOr => "|"
  | .bitXor => "^"
  | .shiftLeft => "<<"
  | .shiftRight => ">>"
  | .shiftRightZero => ">>>"

end Unbound
