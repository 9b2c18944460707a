import Unbound.Name.Basic
import Unbound.Tree.NodeId

/-!
# Dangling handles

Nodes, child lists and interned texts are addressed by numbers, and a number need not lead anywhere.
-/

set_option autoImplicit false

namespace Unbound

inductive Dangling where
  | node (id : NodeId)
  | list (range : NodeRange)
  | name (name : Name)
deriving DecidableEq, Repr

end Unbound
