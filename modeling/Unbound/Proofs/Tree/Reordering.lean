import Unbound.Check

/-!
# Programs with reordered child lists

The nodes are the same, except that a node may keep its list at another place of the buffer, and
each list that a check reads holds the same entries in some order.
-/

set_option autoImplicit false

namespace Unbound

def Child.relocate (move : NodeRange → NodeRange) : Child → Child
  | .node id => .node id
  | .list range => .list (move range)

def FunctionForm.relocate (move : NodeRange → NodeRange) : FunctionForm → FunctionForm
  | .declaration name params body => .declaration name (move params) body
  | .expression name params body => .expression name (move params) body
  | .arrow params body => .arrow (move params) body
  | .method key params body => .method key (move params) body
  | .getter key body => .getter key body
  | .setter key param body => .setter key param body

def Pattern.relocate (move : NodeRange → NodeRange) : Pattern → Pattern
  | .object fields => .object (move fields)
  | .array elements => .array (move elements)
  | form => form

def Statement.relocate (move : NodeRange → NodeRange) : Statement → Statement
  | .block body => .block (move body)
  | .declarations declarators => .declarations (move declarators)
  | .selection discriminant cases => .selection discriminant (move cases)
  | .caseClause test body => .caseClause test (move body)
  | form => form

def Expression.relocate (move : NodeRange → NodeRange) : Expression → Expression
  | .array elements => .array (move elements)
  | .object properties => .object (move properties)
  | .call callee arguments => .call callee (move arguments)
  | .new callee arguments => .new callee (move arguments)
  | .comma items => .comma (move items)
  | form => form

/-- The same construct, whose child lists are kept elsewhere. -/
def Construct.relocate (move : NodeRange → NodeRange) : Construct → Construct
  | .script items => .script (move items)
  | .function form => .function (form.relocate move)
  | .functionBody statements => .functionBody (move statements)
  | .catchClause parameter body => .catchClause parameter body
  | .binding name => .binding name
  | .reference name => .reference name
  | .pattern form => .pattern (form.relocate move)
  | .statement form => .statement (form.relocate move)
  | .expression form => .expression (form.relocate move)

theorem Construct.children_relocate (move : NodeRange → NodeRange) (construct : Construct) :
    (construct.relocate move).children = construct.children.map (Child.relocate move) := by
  cases construct with
  | function form => cases form <;> rfl
  | pattern form => cases form <;> rfl
  | statement form => cases form <;> rfl
  | expression form => cases form <;> rfl
  | _ => rfl

theorem Construct.relocate_id (construct : Construct) :
    construct.relocate (fun range => range) = construct := by
  cases construct with
  | function form => cases form <;> rfl
  | pattern form => cases form <;> rfl
  | statement form => cases form <;> rfl
  | expression form => cases form <;> rfl
  | _ => rfl

def Node.relocate (move : NodeRange → NodeRange) (node : Node) : Node :=
  ⟨node.construct.relocate move, node.span⟩

theorem Node.relocate_id (node : Node) : node.relocate (fun range => range) = node := by
  rw [relocate, Construct.relocate_id]

def Construct.lists (construct : Construct) : List NodeRange :=
  construct.children.filterMap fun part =>
    match part with
    | .node _ => none
    | .list range => some range

theorem Construct.mem_lists {construct : Construct} {range : NodeRange} :
    range ∈ construct.lists ↔ .list range ∈ construct.children := by
  rw [lists, List.mem_filterMap]
  constructor
  · intro kept
    obtain ⟨part, member, same⟩ := kept
    cases part with
    | node id => cases same
    | list other =>
        cases same
        exact member
  · intro member
    exact ⟨.list range, member, rfl⟩

namespace Arena

/-- The nodes at which a walk from the root arrives, where the pass says which parts of a node it
goes on to. -/
inductive Visits {Event Refusal : Type} (arena : Arena) (pass : Pass Event Refusal)
    (root : NodeId) : NodeId → Prop where
  | root (present : root.isPresent) : Visits arena pass root root
  | node {id inner : NodeId} (outer : Visits arena pass root id)
      (step : .child (.node inner) ∈ pass id) (present : inner.isPresent) :
      Visits arena pass root inner
  | entry {id inner : NodeId} {range : NodeRange} {ids : List NodeId}
      (outer : Visits arena pass root id) (step : .child (.list range) ∈ pass id)
      (read : arena.list range = .ok ids) (member : inner ∈ ids) (present : inner.isPresent) :
      Visits arena pass root inner

/-- What can be read under a range can be read in the other arena under the other range, in some
order. -/
def Permutes (before after : Arena) (range other : NodeRange) : Prop :=
  match before.list range, after.list other with
  | .ok ids, .ok others => ids.Perm others
  | .ok _, .error _ => False
  | .error _, _ => True

instance (before after : Arena) (range other : NodeRange) :
    Decidable (before.Permutes after range other) := by
  unfold Permutes
  split <;> infer_instance

theorem permutes_of_list_eq {before after : Arena} {range other : NodeRange}
    (same : after.list other = before.list range) : before.Permutes after range other := by
  rw [Permutes, same]
  cases before.list range with
  | error handle => trivial
  | ok ids => exact .refl ids

theorem list_eq_of_entries (arena : Arena) {entries : Array NodeId} {range : NodeRange}
    (size : entries.size = arena.entries.size)
    (same : ∀ index, range.start.toNat ≤ index → index < range.start.toNat + range.size.toNat →
      entries[index]? = arena.entries[index]?) :
    { arena with entries }.list range = arena.list range := by
  have slice : entries.extract range.start.toNat (range.start.toNat + range.size.toNat) =
      arena.entries.extract range.start.toNat (range.start.toNat + range.size.toNat) := by
    apply Array.ext_getElem?
    intro index
    rw [Array.getElem?_extract, Array.getElem?_extract, size]
    split
    case isTrue inside => exact same _ (by omega) (by omega)
    case isFalse => rfl
  simp only [list, size, slice]

end Arena

def NodeRange.Apart (left right : NodeRange) : Prop :=
  left.start.toNat + left.size.toNat ≤ right.start.toNat ∨
    right.start.toNat + right.size.toNat ≤ left.start.toNat

instance (left right : NodeRange) : Decidable (left.Apart right) :=
  inferInstanceAs (Decidable (_ ∨ _))

abbrev Program.Visits (program : Program) (argumentsName : Name) (id : NodeId) : Prop :=
  program.arena.Visits (Check.pass program.arena argumentsName) program.root id

/-- The second program is the first one with child lists in another order. -/
structure Program.Reorders (before after : Program) (argumentsName : Name)
    (move : NodeId → NodeRange → NodeRange) : Prop where
  root : after.root = before.root
  nodes : ∀ id, after.arena.node id = (before.arena.node id).map (Node.relocate (move id))
  lists : ∀ id range, before.Visits argumentsName id →
    .child (.list range) ∈ Check.pass before.arena argumentsName id →
    before.arena.Permutes after.arena range (move id range)

namespace Check

@[simp] theorem child_mem_inScope {part : Child} {steps : Steps} :
    .child part ∈ inScope steps ↔ .child part ∈ steps := by
  simp [inScope]

@[simp] theorem child_mem_map_child {part : Child} {parts : List Child} :
    (.child part : Step ScopeEvent Empty) ∈ parts.map .child ↔ part ∈ parts := by
  simp

theorem child_mem_functionScope {argumentsName : Name} {name body : NodeId} {params : NodeRange}
    {part : Child} :
    .child part ∈ functionScope argumentsName name params body ↔
      part = .node name ∨ part = .list params ∨ part = .node body := by
  simp [functionScope]

theorem mem_lists_of_mem_steps {arena : Arena} {argumentsName : Name} {node : Node}
    {range : NodeRange} (member : .child (.list range) ∈ steps arena argumentsName node) :
    range ∈ node.construct.lists := by
  rw [Construct.mem_lists]
  obtain ⟨construct, span⟩ := node
  cases construct with
  | binding name => simp [steps] at member
  | reference name => simp [steps] at member
  | catchClause parameter body =>
      exact child_mem_map_child.mp (child_mem_inScope.mp member)
  | function form =>
      cases form with
      | declaration name params body =>
          have inFunction : .child (.list range) ∈
              functionScope argumentsName .absent params body := by
            simp only [steps] at member
            split at member
            case h_1 => simp at member
            case h_2 => exact member
            case h_3 => simpa using member
          simpa [child_mem_functionScope, Construct.children, FunctionForm.children] using
            inFunction
      | expression name params body =>
          simpa [steps, child_mem_functionScope, Construct.children, FunctionForm.children] using
            member
      | arrow params body =>
          simpa [steps, child_mem_functionScope, Construct.children, FunctionForm.children] using
            member
      | method key params body =>
          simpa [steps, child_mem_functionScope, Construct.children, FunctionForm.children] using
            member
      | _ => exact child_mem_map_child.mp (child_mem_inScope.mp member)
  | expression form =>
      cases form with
      | unary op operand =>
          cases op with
          | typeOf =>
              simp only [steps] at member
              split at member
              case h_1 => simp at member
              case h_2 => simp at member
              case h_3 => simp at member
          | _ => exact child_mem_map_child.mp member
      | _ => exact child_mem_map_child.mp member
  | _ => exact child_mem_map_child.mp member

end Check

/-- If the buffer alone is permuted, and every list of the program keeps its entries, then the
program is reordered. -/
theorem Program.reorders_of_entries (program : Program) (argumentsName : Name)
    (entries : Array NodeId)
    (permutes : ∀ node ∈ program.arena.nodes.toList, ∀ range ∈ node.construct.lists,
      program.arena.Permutes { program.arena with entries } range range) :
    program.Reorders { program with arena := { program.arena with entries } } argumentsName
      fun _ range => range where
  root := rfl
  nodes id := by
    change program.arena.node id = _
    cases program.arena.node id with
    | error handle => rfl
    | ok node => exact congrArg Except.ok node.relocate_id.symm
  lists id range visited step := by
    rw [Check.pass] at step
    cases found : program.arena.node id with
    | error handle =>
        rw [found] at step
        simp at step
    | ok node =>
        rw [found] at step
        rw [Arena.node_eq_ok_iff] at found
        exact permutes node (Array.mem_toList_iff.mpr (Array.mem_of_getElem? found)) range
          (Check.mem_lists_of_mem_steps step)

/-- If one list alone is permuted where it stands, and all others are the same list or kept apart
from it, then the program is reordered. -/
theorem Program.reorders_of_range (program : Program) (argumentsName : Name) (range : NodeRange)
    (entries : Array NodeId) (size : entries.size = program.arena.entries.size)
    (outside : ∀ index, index < range.start.toNat ∨ range.start.toNat + range.size.toNat ≤ index →
      entries[index]? = program.arena.entries[index]?)
    (permutes : program.arena.Permutes { program.arena with entries } range range)
    (apart : ∀ node ∈ program.arena.nodes.toList, ∀ other ∈ node.construct.lists,
      other = range ∨ other.Apart range) :
    program.Reorders { program with arena := { program.arena with entries } } argumentsName
      fun _ range => range := by
  apply program.reorders_of_entries
  intro node member other listed
  rcases apart node member other listed with same | apart
  · subst same
    exact permutes
  · apply Arena.permutes_of_list_eq
    apply program.arena.list_eq_of_entries size
    intro index after before
    apply outside
    rw [NodeRange.Apart] at apart
    omega

end Unbound
