import Unbound.Proofs.Resolution.AmbientFilter
import Unbound.Proofs.Tree.Descent

/-!
# Checks that end

If nodes refer to earlier ones only and every `typeof` has an operand, a check runs to its end. The
operand of `typeof` is the one part that is read without asking whether it is there.
-/

set_option autoImplicit false

namespace Unbound

namespace Arena

def Uses (arena : Arena) (name : Name) : Prop :=
  ∃ node ∈ arena.nodes, node.construct = .reference name

def ProbesNodes (arena : Arena) : Prop :=
  ∀ node ∈ arena.nodes, ∀ operand,
    node.construct = .expression (.unary .typeOf operand) → operand.isPresent

theorem exists_bindingName?_of_within {arena : Arena} {name : NodeId}
    (within : name.Within arena.size) : ∃ own, arena.bindingName? name = .ok own := by
  rw [bindingName?]
  split
  case isFalse => exact ⟨none, rfl⟩
  case isTrue present =>
    obtain ⟨node, found⟩ := exists_node_of_index_lt (within.index_lt present)
    rw [found]
    obtain ⟨construct, span⟩ := node
    cases construct with
    | binding own => exact ⟨some (own, span), rfl⟩
    | _ => exact ⟨none, rfl⟩

end Arena

namespace Check

/-- The steps go down, and use no names but those of references in the arena. -/
def Steps.Descend (arena : Arena) (bound : Nat) (steps : Steps) : Prop :=
  ∀ step ∈ steps,
    step.Descends (fun event => ∀ name span, event = .reference name span → arena.Uses name)
      (fun _ => False) arena bound

variable {arena : Arena} {argumentsName : Name} {bound : Nat}

theorem descend_append {first second : Steps} (before : first.Descend arena bound)
    (after : second.Descend arena bound) : Steps.Descend arena bound (first ++ second) := by
  intro step member
  rcases List.mem_append.mp member with early | late
  · exact before step early
  · exact after step late

theorem descend_children {parts : List Child} (below : ∀ part ∈ parts, arena.Below bound part) :
    Steps.Descend arena bound (parts.map .child) := by
  intro step member
  obtain ⟨part, listed, rfl⟩ := List.mem_map.mp member
  exact below part listed

theorem descend_emit {event : ScopeEvent}
    (uses : ∀ name span, event = .reference name span → arena.Uses name) :
    Steps.Descend arena bound [.emit event] := by
  intro step member
  rw [List.mem_singleton.mp member]
  exact uses

theorem descend_declare (name : Name) (span : Option Span) :
    Steps.Descend arena bound [.emit (.declare name span)] := descend_emit nofun

theorem descend_inScope {steps : Steps} (descend : steps.Descend arena bound) :
    (inScope steps).Descend arena bound := by
  have enters : Steps.Descend arena bound [.emit .enter] := descend_emit nofun
  have leaves : Steps.Descend arena bound [.emit .leave] := descend_emit nofun
  exact descend_append enters (descend_append descend leaves)

theorem descend_functionScope {name : NodeId} {params : NodeRange} {body : NodeId}
    (below : ∀ part ∈ [Child.node name, .list params, .node body], arena.Below bound part) :
    (functionScope argumentsName name params body).Descend arena bound := by
  apply descend_inScope
  have own : Steps.Descend arena bound ([Child.node name].map .child) := by
    apply descend_children
    intro part member
    rw [List.mem_singleton.mp member]
    exact below _ List.mem_cons_self
  have rest : Steps.Descend arena bound ([Child.list params, .node body].map .child) := by
    apply descend_children
    intro part member
    exact below part (List.mem_cons_of_mem _ member)
  exact descend_append own (descend_append (descend_declare argumentsName none) rest)

theorem descend_unnamedFunctionScope {params : NodeRange} {body : NodeId}
    (below : ∀ part ∈ [Child.list params, .node body], arena.Below bound part) :
    (functionScope argumentsName .absent params body).Descend arena bound := by
  apply descend_functionScope
  intro part member
  rcases List.mem_cons.mp member with rfl | later
  · exact Or.inl rfl
  · exact below part later

theorem descend_declaration {name : NodeId} {params : NodeRange} {body : NodeId}
    {span : Option Span} (inside : bound < arena.size)
    (below : ∀ part ∈ [Child.node name, .list params, .node body], arena.Below bound part) :
    (steps arena argumentsName ⟨.function (.declaration name params body), span⟩).Descend
      arena bound := by
  have within : name.Within bound := below _ List.mem_cons_self
  obtain ⟨own, read⟩ := Arena.exists_bindingName?_of_within (within.mono (Nat.le_of_lt inside))
  have function : (functionScope argumentsName .absent params body).Descend arena bound :=
    descend_unnamedFunctionScope fun part member => below part (List.mem_cons_of_mem _ member)
  simp only [steps, read]
  cases own with
  | none => exact function
  | some own => exact descend_append (descend_declare own.1 own.2) function

theorem descend_typeOf {operand : NodeId} {span : Option Span} (inside : bound < arena.size)
    (below : operand.Within bound) (present : operand.isPresent) :
    (steps arena argumentsName ⟨.expression (.unary .typeOf operand), span⟩).Descend
      arena bound := by
  obtain ⟨node, found⟩ := Arena.exists_node_of_index_lt
    (Nat.lt_trans (below.index_lt present) inside)
  have walked : Steps.Descend arena bound [.child (.node operand)] := by
    intro step member
    rw [List.mem_singleton.mp member]
    exact below
  simp only [steps, found]
  obtain ⟨construct, place⟩ := node
  cases construct with
  | reference name => exact descend_declare name place
  | _ => exact walked

theorem descend_steps {id : NodeId} {node : Node} (descending : arena.Descending)
    (probes : arena.ProbesNodes) (found : arena.node id = .ok node) :
    (steps arena argumentsName node).Descend arena id.index := by
  have stored := Arena.node_eq_ok_iff.mp found
  have member : node ∈ arena.nodes := Array.mem_of_getElem? stored
  have inside : id.index < arena.size := (Array.getElem?_eq_some_iff.mp stored).choose
  have below : ∀ part ∈ node.construct.children, arena.Below id.index part :=
    fun _ => descending.below found
  have operands := probes node member
  obtain ⟨construct, span⟩ := node
  cases construct with
  | binding name => exact descend_declare name span
  | reference name =>
      apply descend_emit
      intro other place same
      cases same
      exact ⟨_, member, rfl⟩
  | catchClause parameter body => exact descend_inScope (descend_children below)
  | function form =>
      cases form with
      | declaration name params body => exact descend_declaration inside below
      | expression name params body => exact descend_functionScope below
      | arrow params body => exact descend_unnamedFunctionScope below
      | method key params body => exact descend_unnamedFunctionScope below
      | getter key body => exact descend_inScope (descend_children below)
      | setter key param body => exact descend_inScope (descend_children below)
  | expression form =>
      cases form with
      | unary op operand =>
          cases op with
          | typeOf =>
              exact descend_typeOf inside (below (.node operand) List.mem_cons_self)
                (operands operand rfl)
          | _ => exact descend_children below
      | _ => exact descend_children below
  | _ => exact descend_children below

end Check

namespace Outline

theorem reference_mem_events_of_mem_pending {outline : Outline} {entry : Name × Option Span}
    (pending : entry ∈ outline.pending) : .reference entry.1 entry.2 ∈ outline.events := by
  induction outline with
  | nothing => cases pending
  | use name span =>
      rw [List.mem_singleton.mp pending]
      exact List.mem_cons_self
  | declare name span => cases pending
  | next first second inFirst inSecond =>
      rcases List.mem_append.mp pending with early | late
      · exact List.mem_append_left _ (inFirst early)
      · exact List.mem_append_right _ (inSecond late)
  | scope inner inInner =>
      have inside := inInner (List.mem_filter.mp pending).1
      exact List.mem_cons_of_mem _ (List.mem_append_left _ inside)

end Outline

namespace Program

variable {program : Program}

theorem confined_scopeTrace (descending : program.arena.Descending)
    (within : program.root.Within program.arena.size) (probes : program.arena.ProbesNodes)
    (argumentsName : Name) :
    (program.scopeTrace argumentsName).Confined
      (fun event => ∀ name span, event = .reference name span → program.arena.Uses name)
      (fun _ => False) := by
  apply Arena.confined_walk _ within
  intro id inside
  obtain ⟨node, found⟩ := Arena.exists_node_of_index_lt inside
  rw [Check.pass, found]
  exact Check.descend_steps descending probes found

/-- A check of such a program comes to a result, and names only what the program refers to. -/
theorem check_of_descending (descending : program.arena.Descending)
    (within : program.root.Within program.arena.size) (probes : program.arena.ProbesNodes)
    (ambient : Ambient) (interner : Interner) :
    (∃ free, program.check ambient interner = .ok free ∧
      ∀ found ∈ free, program.arena.Uses found.name) ∨
    ∃ name, program.check ambient interner = .error (.scope (.ofUndefined interner name)) ∧
      program.arena.Uses name := by
  have confined := confined_scopeTrace descending within probes interner.argumentsName
  have ended : (program.scopeTrace interner.argumentsName).interruption = none := by
    rw [Option.eq_none_iff_forall_ne_some]
    intro interruption broken
    obtain ⟨_, _, impossible⟩ := confined.interruption interruption broken
    exact impossible
  obtain ⟨outline, outlined⟩ := exists_hasOutline_iff.mpr ended
  have events := confined.events
  rw [scopeTrace_of_hasOutline outlined] at events
  have uses : ∀ name ∈ (∅ : Occurrences).gather (ambient.around outline).pending,
      program.arena.Uses name := by
    intro name member
    rw [Occurrences.mem_gather_empty] at member
    obtain ⟨entry, pending, rfl⟩ := List.mem_map.mp member
    have inside : entry ∈ ambient.outline.pending ++ outline.pending :=
      (List.mem_filter.mp pending).1
    rw [Ambient.pending_outline, List.nil_append] at inside
    exact events _ (Outline.reference_mem_events_of_mem_pending inside) _ _ rfl
  rw [check_of_hasOutline ambient outlined]
  cases outcome :
    freeVariables interner ((∅ : Occurrences).gather (ambient.around outline).pending) with
  | ok free =>
      refine Or.inl ⟨free, rfl, ?_⟩
      intro found member
      apply uses
      rw [← mem_names_iff_of_freeVariables_eq_ok outcome]
      exact List.mem_map_of_mem member
  | error failure =>
      obtain ⟨name, rfl, member⟩ := mem_entries_of_freeVariables_eq_error outcome
      have pending : name ∈ (∅ : Occurrences).gather (ambient.around outline).pending :=
        List.mem_map.mpr ⟨_, member, rfl⟩
      exact Or.inr ⟨name, rfl, uses name pending⟩

end Program

end Unbound
