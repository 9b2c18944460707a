import Unbound.Proofs.Tree.Reordering
import Unbound.Proofs.Resolution.Deferred

/-!
# The order of siblings does not decide what is free

A use is resolved by what its scopes declare anywhere in them, before it or after it. The order of a
child list can only change which of several free uses of a name comes first.
-/

set_option autoImplicit false

namespace Unbound

namespace Outline

/-- The same declarations and the same pending uses, each in some order. -/
structure Reordered (left right : Outline) : Prop where
  declarations : left.declarations.Perm right.declarations
  pending : left.pending.Perm right.pending

namespace Reordered

variable {left right third other : Outline}

theorem refl (outline : Outline) : outline.Reordered outline := ⟨.refl _, .refl _⟩

theorem trans (first : left.Reordered right) (second : right.Reordered third) :
    left.Reordered third :=
  ⟨first.declarations.trans second.declarations, first.pending.trans second.pending⟩

theorem next (first : left.Reordered right) (second : third.Reordered other) :
    (Outline.next left third).Reordered (.next right other) :=
  ⟨first.declarations.append second.declarations, first.pending.append second.pending⟩

theorem swap (first second rest : Outline) :
    (Outline.next first (.next second rest)).Reordered (.next second (.next first rest)) := by
  have exchange : ∀ front middle back : List (Name × Option Span),
      (front ++ (middle ++ back)).Perm (middle ++ (front ++ back)) := by
    intro front middle back
    rw [← List.append_assoc, ← List.append_assoc]
    exact List.perm_append_comm.append_right back
  exact ⟨exchange _ _ _, exchange _ _ _⟩

theorem scope (same : left.Reordered right) : (Outline.scope left).Reordered (.scope right) := by
  constructor
  · exact .refl _
  · have declared : ∀ name, name ∈ left.declarations.map Prod.fst ↔
        name ∈ right.declarations.map Prod.fst := by
      intro name
      exact (same.declarations.map Prod.fst).mem_iff
    rw [Outline.pending, Outline.pending]
    simp only [declared]
    exact same.pending.filter _

end Reordered

/-- Where there is an outline, there is one on the other side, and the two are reordered. -/
def Matches (first second : Option Outline) : Prop :=
  ∀ left, first = some left → ∃ right, second = some right ∧ left.Reordered right

variable {first second third : Option Outline}

theorem matches_refl (outline : Option Outline) : Matches outline outline := by
  intro left found
  exact ⟨left, found, .refl left⟩

theorem Matches.trans (before : Matches first second) (after : Matches second third) :
    Matches first third := by
  intro left found
  obtain ⟨middle, foundMiddle, toMiddle⟩ := before left found
  obtain ⟨right, foundRight, toRight⟩ := after middle foundMiddle
  exact ⟨right, foundRight, toMiddle.trans toRight⟩

theorem matches_join_cons {rest others : List (Option Outline)} (head : Matches first second)
    (tail : Matches (join rest) (join others)) :
    Matches (join (first :: rest)) (join (second :: others)) := by
  intro left joined
  obtain ⟨leftHead, leftTail, foundHead, foundTail, rfl⟩ := join_cons_eq_some_iff.mp joined
  obtain ⟨rightHead, foundOther, sameHead⟩ := head leftHead foundHead
  obtain ⟨rightTail, foundOthers, sameTail⟩ := tail leftTail foundTail
  exact ⟨_, join_cons_eq_some_iff.mpr ⟨_, _, foundOther, foundOthers, rfl⟩, sameHead.next sameTail⟩

theorem matches_joinInScope {parts others : List (Option Outline)}
    (same : Matches (join parts) (join others)) :
    Matches (joinInScope parts) (joinInScope others) := by
  intro left joined
  obtain ⟨inner, found, rfl⟩ := joinInScope_eq_some_iff.mp joined
  obtain ⟨other, foundOther, sameInner⟩ := same inner found
  exact ⟨_, joinInScope_eq_some_iff.mpr ⟨_, foundOther, rfl⟩, sameInner.scope⟩

theorem matches_join_map {Item : Type} (items : List Item) {before after : Item → Option Outline}
    (same : ∀ item ∈ items, Matches (before item) (after item)) :
    Matches (join (items.map before)) (join (items.map after)) := by
  induction items with
  | nil => exact matches_refl _
  | cons item items induction =>
      have rest := induction fun other member => same other (List.mem_cons_of_mem item member)
      exact matches_join_cons (same item List.mem_cons_self) rest

theorem matches_join_of_perm {parts others : List (Option Outline)} (perm : parts.Perm others) :
    Matches (join parts) (join others) := by
  induction perm with
  | nil => exact matches_refl _
  | cons part _ induction => exact matches_join_cons (matches_refl part) induction
  | swap first second rest =>
      intro left joined
      obtain ⟨head, tail, foundHead, foundTail, rfl⟩ := join_cons_eq_some_iff.mp joined
      obtain ⟨next, last, foundNext, foundLast, rfl⟩ := join_cons_eq_some_iff.mp foundTail
      have exchanged := join_cons_eq_some_iff.mpr ⟨_, _, foundHead, foundLast, rfl⟩
      exact ⟨_, join_cons_eq_some_iff.mpr ⟨_, _, foundNext, exchanged, rfl⟩, .swap head next last⟩
  | trans _ _ first second => exact first.trans second

end Outline

namespace Arena

open Outline

section

variable {before after : Arena} {argumentsName : Name} {move : NodeRange → NodeRange}
  {moves : NodeId → NodeRange → NodeRange} {first second : Child → Option Outline}

theorem matches_children {construct : Construct}
    (parts : ∀ part ∈ construct.children, Matches (first part) (second (part.relocate move))) :
    Matches (join (construct.children.map first))
      (join ((construct.relocate move).children.map second)) := by
  rw [Construct.children_relocate, List.map_map]
  exact matches_join_map construct.children parts

theorem matches_inScope_children (construct : Construct)
    (parts : ∀ part, .child part ∈ Check.inScope (construct.children.map .child) →
      Matches (first part) (second (part.relocate move))) :
    Matches (joinInScope (construct.children.map first))
      (joinInScope ((construct.relocate move).children.map second)) := by
  apply matches_joinInScope
  apply matches_children
  intro part member
  exact parts part (Check.child_mem_inScope.mpr (Check.child_mem_map_child.mpr member))

theorem matches_functionParts {name body : NodeId} {params : NodeRange}
    (parts : ∀ part, .child part ∈ Check.functionScope argumentsName name params body →
      Matches (first part) (second (part.relocate move))) :
    Matches
      (join [some (.declare argumentsName none), first (.list params), first (.node body)])
      (join [some (.declare argumentsName none), second (.list (move params)),
        second (.node body)]) := by
  apply matches_join_cons (matches_refl _)
  apply matches_join_cons (parts (.list params) (by simp [Check.child_mem_functionScope]))
  apply matches_join_cons (parts (.node body) (by simp [Check.child_mem_functionScope]))
  exact matches_refl _

variable (nodes : ∀ id, after.node id = (before.node id).map (Node.relocate (moves id)))

include nodes

theorem bindingName?_of_relocated (name : NodeId) :
    after.bindingName? name = before.bindingName? name := by
  rw [bindingName?, bindingName?, nodes]
  cases before.node name with
  | error handle => rfl
  | ok node =>
      obtain ⟨construct, span⟩ := node
      cases construct <;> rfl

theorem matches_declaration {name body : NodeId} {params : NodeRange} {span : Option Span}
    (parts : ∀ part, .child part ∈ Check.steps before argumentsName
        ⟨.function (.declaration name params body), span⟩ →
      Matches (first part) (second (part.relocate move))) :
    Matches
      (before.outlineNode argumentsName first ⟨.function (.declaration name params body), span⟩)
      (after.outlineNode argumentsName second
        ⟨.function (.declaration name (move params) body), span⟩) := by
  have own : after.outlineOwnName name = before.outlineOwnName name := by
    rw [outlineOwnName_eq, outlineOwnName_eq, bindingName?_of_relocated nodes]
  simp only [outlineNode, own]
  intro left joined
  -- The check goes on to the parts of the function only if its name can be read, which it can be
  -- here, or there would be no outline.
  have inFunction : ∀ part, .child part ∈
      Check.functionScope argumentsName .absent params body →
      .child part ∈ Check.steps before argumentsName
        ⟨.function (.declaration name params body), span⟩ := by
    obtain ⟨ownName, _, named, _, _⟩ := join_cons_eq_some_iff.mp joined
    rw [outlineOwnName_eq] at named
    intro part member
    simp only [Check.steps]
    cases bound : before.bindingName? name with
    | error handle =>
        rw [bound] at named
        cases named
    | ok binding =>
        cases binding with
        | none => exact member
        | some binding => exact List.mem_cons_of_mem _ member
  have function := matches_functionParts fun part member => parts part (inFunction part member)
  exact matches_join_cons (matches_refl _)
    (matches_join_cons (matches_joinInScope function) (matches_refl _)) left joined

theorem matches_typeOf {operand : NodeId} {span : Option Span}
    (parts : ∀ part, .child part ∈ Check.steps before argumentsName
        ⟨.expression (.unary .typeOf operand), span⟩ →
      Matches (first part) (second (part.relocate move))) :
    Matches (before.outlineNode argumentsName first ⟨.expression (.unary .typeOf operand), span⟩)
      (after.outlineNode argumentsName second
        ⟨.expression (.unary .typeOf operand), span⟩) := by
  simp only [outlineNode, nodes]
  simp only [Check.steps] at parts
  cases found : before.node operand with
  | error handle =>
      intro left none
      cases none
  | ok node =>
      rw [found] at parts
      obtain ⟨construct, place⟩ := node
      cases construct with
      | reference name => exact matches_refl _
      | _ =>
          exact matches_join_cons (parts (.node operand) List.mem_cons_self) (matches_refl _)

theorem matches_outlineNode (node : Node)
    (parts : ∀ part, .child part ∈ Check.steps before argumentsName node →
      Matches (first part) (second (part.relocate move))) :
    Matches (before.outlineNode argumentsName first node)
      (after.outlineNode argumentsName second (node.relocate move)) := by
  obtain ⟨construct, span⟩ := node
  cases construct with
  | binding name => exact matches_refl _
  | reference name => exact matches_refl _
  | catchClause parameter body =>
      exact matches_inScope_children (.catchClause parameter body) parts
  | function form =>
      cases form with
      | declaration name params body => exact matches_declaration nodes parts
      | expression name params body =>
          apply matches_joinInScope
          apply matches_join_cons
          · exact parts (.node name) (Check.child_mem_functionScope.mpr (Or.inl rfl))
          · exact matches_functionParts parts
      | arrow params body => exact matches_joinInScope (matches_functionParts parts)
      | method key params body => exact matches_joinInScope (matches_functionParts parts)
      | getter key body =>
          exact matches_inScope_children (.function (.getter key body)) parts
      | setter key param body =>
          exact matches_inScope_children (.function (.setter key param body)) parts
  | expression form =>
      cases form with
      | unary op operand =>
          cases op with
          | typeOf => exact matches_typeOf nodes parts
          | _ => exact matches_children fun part member => parts part (List.mem_map_of_mem member)
      | _ => exact matches_children fun part member => parts part (List.mem_map_of_mem member)
  | _ => exact matches_children fun part member => parts part (List.mem_map_of_mem member)

end

end Arena

namespace Program

open Outline

variable {before after : Program} {argumentsName : Name} {move : NodeId → NodeRange → NodeRange}

namespace Reorders

theorem matches_outlinePart (reorders : before.Reorders after argumentsName move)
    {visit other : NodeId → Option Outline}
    (same : ∀ inner, before.Visits argumentsName inner → Matches (visit inner) (other inner))
    {id : NodeId} (visited : before.Visits argumentsName id) {part : Child}
    (step : .child part ∈ Check.pass before.arena argumentsName id) :
    Matches (before.arena.outlinePart visit part)
      (after.arena.outlinePart other (part.relocate (move id))) := by
  cases part with
  | node inner =>
      simp only [Child.relocate, Arena.outlinePart]
      split
      case isTrue present => exact same inner (.node visited step present)
      case isFalse => exact matches_refl _
  | list range =>
      have permutes := reorders.lists id range visited step
      rw [Arena.Permutes] at permutes
      simp only [Child.relocate, Arena.outlinePart]
      cases read : before.arena.list range with
      | error handle =>
          intro left none
          cases none
      | ok ids =>
          cases readOther : after.arena.list (move id range) with
          | error handle =>
              rw [read, readOther] at permutes
              exact permutes.elim
          | ok others =>
              rw [read, readOther] at permutes
              have perm : ids.Perm others := permutes
              -- Each entry is visited in the other program first, then the list is permuted.
              apply Matches.trans _ (matches_join_of_perm (perm.map _))
              apply matches_join_map
              intro inner member
              split
              case isTrue present => exact same inner (.entry visited step read member present)
              case isFalse => exact matches_refl _

theorem matches_outlineWithin (reorders : before.Reorders after argumentsName move) (depth : Nat)
    {id : NodeId} (visited : before.Visits argumentsName id) :
    Matches (before.arena.outlineWithin argumentsName depth id)
      (after.arena.outlineWithin argumentsName depth id) := by
  induction depth generalizing id with
  | zero => exact matches_refl _
  | succ depth induction =>
      rw [Arena.outlineWithin, Arena.outlineWithin, reorders.nodes]
      cases found : before.arena.node id with
      | error handle => exact matches_refl _
      | ok node =>
          apply Arena.matches_outlineNode reorders.nodes node
          intro part member
          apply reorders.matches_outlinePart (fun inner => induction) visited
          rw [Check.pass, found]
          exact member

theorem exists_hasOutline (reorders : before.Reorders after argumentsName move) {outline : Outline}
    (outlined : before.HasOutline argumentsName outline) :
    ∃ other, after.HasOutline argumentsName other ∧ outline.Reordered other := by
  obtain ⟨depth, read⟩ := outlined
  have same : Matches
      (before.arena.outlinePart (before.arena.outlineWithin argumentsName depth)
        (.node before.root))
      (after.arena.outlinePart (after.arena.outlineWithin argumentsName depth)
        (.node after.root)) := by
    simp only [Arena.outlinePart, reorders.root]
    split
    case isTrue present => exact reorders.matches_outlineWithin depth (.root present)
    case isFalse => exact matches_refl _
  obtain ⟨other, found, reordered⟩ := same outline read
  exact ⟨other, ⟨depth, found⟩, reordered⟩

end Reorders

end Program

namespace Ambient

def freeUses (ambient : Ambient) (outline : Outline) : List Outline.Use :=
  (ambient.usesIn outline).filter fun use => ¬ use.Resolved

variable {ambient : Ambient} {outline other : Outline}

theorem names_pending_around (ambient : Ambient) (outline : Outline) :
    (ambient.around outline).pending.map Prod.fst =
      (ambient.freeUses outline).map Outline.Use.name := by
  rw [pending_around, List.map_map]
  rfl

theorem spans_pending_around (ambient : Ambient) (outline : Outline) :
    (ambient.around outline).pending.map Prod.snd =
      (ambient.freeUses outline).map Outline.Use.span := by
  rw [pending_around, List.map_map]
  rfl

theorem pending_perm_of_reordered (ambient : Ambient) (same : outline.Reordered other) :
    (ambient.around outline).pending.Perm (ambient.around other).pending :=
  ((Outline.Reordered.refl ambient.outline).next same).scope.pending

end Ambient

namespace Program

variable {program before after : Program} {ambient : Ambient} {interner : Interner}
  {outline other : Outline}

theorem exists_check_eq_ok_of_placed
    (outlined : program.HasOutline interner.argumentsName outline)
    (placed : none ∉ (ambient.around outline).pending.map Prod.snd) :
    ∃ free, program.check ambient interner = .ok free := by
  rw [check_of_hasOutline ambient outlined]
  simp only [CheckError.mapError_scope_eq_ok_iff]
  apply exists_freeVariables_eq_ok_iff.mpr
  intro name member
  exact placed (List.mem_map_of_mem (Occurrences.mem_of_mem_entries_gather member))

theorem mem_names_iff_of_check_eq_ok {free : List FreeVariable}
    (outlined : program.HasOutline interner.argumentsName outline)
    (passed : program.check ambient interner = .ok free) {name : Name} :
    name ∈ free.map FreeVariable.name ↔ name ∈ (ambient.around outline).pending.map Prod.fst := by
  rw [mem_names_iff_of_freeVariables_eq_ok (freeVariables_of_check_eq_ok outlined passed),
    Occurrences.mem_gather_empty]

/-- Where no name is left twice, every use that is left is reported, and its place alone decides
where in the report it stands. -/
theorem check_eq_of_pending_perm (outlined : before.HasOutline interner.argumentsName outline)
    (outlinedOther : after.HasOutline interner.argumentsName other)
    (perm : (ambient.around outline).pending.Perm (ambient.around other).pending)
    (names : ((ambient.around outline).pending.map Prod.fst).Nodup)
    (spans : ((ambient.around outline).pending.map Prod.snd).Nodup) :
    after.check ambient interner = before.check ambient interner := by
  have gathered : ((∅ : Occurrences).gather (ambient.around outline).pending).entries =
      (ambient.around outline).pending := Occurrences.entries_gather_of_nodup names
  have gatheredOther : ((∅ : Occurrences).gather (ambient.around other).pending).entries =
      (ambient.around other).pending :=
    Occurrences.entries_gather_of_nodup ((perm.map Prod.fst).nodup_iff.mp names)
  rw [← gathered, ← gatheredOther] at perm
  rw [← gathered] at spans
  rw [check_of_hasOutline ambient outlinedOther, check_of_hasOutline ambient outlined,
    freeVariables_eq_of_perm interner perm spans]

/-- The order of siblings does not decide what is free. If every use has a place, then both checks
succeed and report the same names, whichever child list is reordered, or several at once. If
moreover no name has two free uses and no two free uses share a place, the reports are the same. -/
theorem check_of_reordered_siblings (before after : Program) (ambient : Ambient)
    (interner : Interner) (move : NodeId → NodeRange → NodeRange)
    (reorders : before.Reorders after interner.argumentsName move) (outline : Outline)
    (outlined : before.HasOutline interner.argumentsName outline)
    (placed : ∀ use ∈ ambient.usesIn outline, use.span ≠ none) :
    ∃ free others, before.check ambient interner = .ok free ∧
      after.check ambient interner = .ok others ∧
      (∀ name, name ∈ free.map FreeVariable.name ↔ name ∈ others.map FreeVariable.name) ∧
      (((ambient.freeUses outline).map Outline.Use.name).Nodup →
        ((ambient.freeUses outline).map Outline.Use.span).Nodup → others = free) := by
  obtain ⟨other, outlinedOther, reordered⟩ := reorders.exists_hasOutline outlined
  have perm := ambient.pending_perm_of_reordered reordered
  have located : none ∉ (ambient.around outline).pending.map Prod.snd := by
    rw [ambient.spans_pending_around, List.mem_map]
    intro unplaced
    obtain ⟨use, member, place⟩ := unplaced
    exact placed use (List.mem_filter.mp member).1 place
  have locatedOther : none ∉ (ambient.around other).pending.map Prod.snd := by
    intro unplaced
    exact located ((perm.map Prod.snd).mem_iff.mpr unplaced)
  obtain ⟨free, passed⟩ := exists_check_eq_ok_of_placed outlined located
  obtain ⟨others, passedOther⟩ := exists_check_eq_ok_of_placed outlinedOther locatedOther
  refine ⟨free, others, passed, passedOther, ?_, ?_⟩
  · intro name
    rw [mem_names_iff_of_check_eq_ok outlined passed,
      mem_names_iff_of_check_eq_ok outlinedOther passedOther]
    exact (perm.map Prod.fst).mem_iff
  · intro names spans
    rw [← ambient.names_pending_around] at names
    rw [← ambient.spans_pending_around] at spans
    have same := check_eq_of_pending_perm outlined outlinedOther perm names spans
    rw [passed, passedOther] at same
    exact Except.ok.inj same

/-- The two statements of `shadowed` may change places, since each free name is used once. -/
theorem check_of_shadowed_exchanged :
    { shadowed with
        arena := { shadowed.arena with entries := #[⟨0⟩, ⟨7⟩, ⟨5⟩] } }.check ∅ Interner.initial =
      .ok [⟨⟨1073741826⟩, ⟨13, 22⟩⟩, ⟨⟨536870912⟩, ⟨24, 27⟩⟩] := by
  have outside : ∀ index, index < 1 ∨ 3 ≤ index →
      #[(⟨0⟩ : NodeId), ⟨7⟩, ⟨5⟩][index]? = shadowed.arena.entries[index]? := by
    intro index outside
    rcases outside with first | last
    · rw [Nat.lt_one_iff.mp first]
      rfl
    · rw [Array.getElem?_eq_none last]
      exact (Array.getElem?_eq_none last).symm
  have reorders := shadowed.reorders_of_range Interner.initial.argumentsName ⟨1, 2⟩
    #[⟨0⟩, ⟨7⟩, ⟨5⟩] rfl outside (by decide +kernel) (by decide +kernel)
  have outlined : ∃ outline, shadowed.HasOutline Interner.initial.argumentsName outline ∧
      (∀ use ∈ (∅ : Ambient).usesIn outline, use.span ≠ none) ∧
      (((∅ : Ambient).freeUses outline).map Outline.Use.name).Nodup ∧
      (((∅ : Ambient).freeUses outline).map Outline.Use.span).Nodup :=
    ⟨_, ⟨5, rfl⟩, by decide +kernel, by decide +kernel, by decide +kernel⟩
  obtain ⟨outline, outlined, placed, names, spans⟩ := outlined
  obtain ⟨free, others, passed, passedOther, _, same⟩ := check_of_reordered_siblings shadowed _ ∅
    Interner.initial _ reorders outline outlined placed
  rw [check_shadowed] at passed
  cases passed
  rw [passedOther, same names spans]

end Program

end Unbound
