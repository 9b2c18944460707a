import Unbound.Tree.Arena
import Unbound.Ambient

/-!
# The outline of a program and its lexical resolution

An outline keeps what scoping is about, in the order of a walk. Names are resolved in two passes:
one collects what each scope declares directly, the other looks each use up in the scopes around it.
Nothing is deferred, promoted or overwritten, so this is what the check is measured against.
-/

set_option autoImplicit false

namespace Unbound

inductive Outline where
  | nothing
  | use (name : Name) (span : Option Span)
  | declare (name : Name) (span : Option Span)
  | next (first second : Outline)
  | scope (inner : Outline)
deriving DecidableEq, Repr

namespace Outline

/-- A use of a name together with the names that each scope around it declares, innermost first. -/
structure Use where
  name : Name
  span : Option Span
  enclosing : List (List Name)
deriving DecidableEq, Repr

def Use.Resolved (use : Use) : Prop := ∃ declared ∈ use.enclosing, use.name ∈ declared

instance (use : Use) : Decidable use.Resolved :=
  inferInstanceAs (Decidable (∃ declared ∈ use.enclosing, use.name ∈ declared))

/-- The first pass: the names declared directly in the scope in which the outline stands. -/
def declared : Outline → List Name
  | .nothing => []
  | .use _ _ => []
  | .declare name _ => if name.isEmpty then [] else [name]
  | .next first second => first.declared ++ second.declared
  | .scope _ => []

/-- The second pass: every use, in the order of the walk, with the scopes around it. -/
def uses (enclosing : List (List Name)) : Outline → List Use
  | .nothing => []
  | .use name span => [⟨name, span, enclosing⟩]
  | .declare _ _ => []
  | .next first second => first.uses enclosing ++ second.uses enclosing
  | .scope inner => inner.uses (inner.declared :: enclosing)

def join : List (Option Outline) → Option Outline
  | [] => some .nothing
  | first :: rest => do return .next (← first) (← join rest)

def joinInScope (parts : List (Option Outline)) : Option Outline := (join parts).map .scope

theorem join_cons_eq_some_iff {first : Option Outline} {rest : List (Option Outline)}
    {outline : Outline} :
    join (first :: rest) = some outline ↔
      ∃ head tail, first = some head ∧ join rest = some tail ∧ outline = .next head tail := by
  cases first with
  | none => simp [join]
  | some head =>
      cases remaining : join rest with
      | none => simp [join, remaining]
      | some tail => simp [join, remaining, eq_comm]

theorem joinInScope_eq_some_iff {parts : List (Option Outline)} {outline : Outline} :
    joinInScope parts = some outline ↔
      ∃ inner, join parts = some inner ∧ outline = .scope inner := by
  rw [joinInScope, Option.map_eq_some_iff]
  simp only [eq_comm]

end Outline

namespace Arena

/-- The outline of a part of a construct. An absent node and a hole in a list add nothing. -/
def outlinePart (arena : Arena) (visit : NodeId → Option Outline) : Child → Option Outline
  | .node id => if id.isPresent then visit id else some .nothing
  | .list range =>
      match arena.list range with
      | .error _ => none
      | .ok ids =>
          Outline.join (ids.map fun id => if id.isPresent then visit id else some .nothing)

/-- What the name of a function declaration declares around the function. A name node that is not a
binding declares nothing, and in no case are its parts walked. -/
def outlineOwnName (arena : Arena) (name : NodeId) : Option Outline :=
  if name.isPresent then
    match arena.node name with
    | .error _ => none
    | .ok ⟨.binding own, span⟩ => some (.declare own span)
    | .ok _ => some .nothing
  else some .nothing

def outlineNode (arena : Arena) (argumentsName : Name) (part : Child → Option Outline)
    (node : Node) : Option Outline :=
  match node.construct with
  | .binding name => some (.declare name node.span)
  | .reference name => some (.use name node.span)
  | .function (.declaration name params body) =>
      Outline.join [arena.outlineOwnName name,
        Outline.joinInScope
          [some (.declare argumentsName none), part (.list params), part (.node body)]]
  | .function (.expression name params body) =>
      Outline.joinInScope
        [part (.node name), some (.declare argumentsName none), part (.list params),
          part (.node body)]
  | .function (.arrow params body) =>
      Outline.joinInScope
        [some (.declare argumentsName none), part (.list params), part (.node body)]
  | .function (.method _ params body) =>
      Outline.joinInScope
        [some (.declare argumentsName none), part (.list params), part (.node body)]
  -- Accessors and catch clauses have a scope, but no name for what they were called with.
  | .function (.getter _ body) => Outline.joinInScope [part (.node body)]
  | .function (.setter _ param body) => Outline.joinInScope [part (.node param), part (.node body)]
  | .catchClause parameter body => Outline.joinInScope [part (.node parameter), part (.node body)]
  -- A name that is only asked for counts as declared; any other operand is walked.
  | .expression (.unary .typeOf operand) =>
      match arena.node operand with
      | .error _ => none
      | .ok ⟨.reference name, span⟩ => some (.declare name span)
      | .ok _ => Outline.join [part (.node operand)]
  | construct => Outline.join (construct.children.map part)

/-- The outline of a node that may have up to `depth` nodes on top of each other, if the walk from
it ends within that depth and meets only ids and lists inside the arena. -/
def outlineWithin (arena : Arena) (argumentsName : Name) : Nat → NodeId → Option Outline
  | 0, _ => none
  | depth + 1, id =>
      match arena.node id with
      | .error _ => none
      | .ok node =>
          arena.outlineNode argumentsName
            (arena.outlinePart (arena.outlineWithin argumentsName depth)) node

end Arena

/-- The walk from the root is finite and stays inside the arena, and this is what it meets. -/
def Program.HasOutline (program : Program) (argumentsName : Name) (outline : Outline) : Prop :=
  ∃ depth, program.arena.outlinePart (program.arena.outlineWithin argumentsName depth)
    (.node program.root) = some outline

def Ambient.outline (ambient : Ambient) : Outline :=
  (ambient.names :: ambient.ancestors).foldr
    (fun names rest => names.foldr (fun name rest => .next (.declare name none) rest) rest) .nothing

theorem Ambient.outline_eq_foldr_chain (ambient : Ambient) :
    ambient.outline =
      ambient.chain.foldr (fun name rest => .next (.declare name none) rest) .nothing := by
  rw [outline, chain, ← List.flatten_cons, List.foldr_flatten]

/-- The root scope, in which the names of the host are declared before the program is walked. -/
def Ambient.around (ambient : Ambient) (outline : Outline) : Outline :=
  .scope (.next ambient.outline outline)

def Ambient.usesIn (ambient : Ambient) (outline : Outline) : List Outline.Use :=
  (ambient.around outline).uses []

end Unbound
