import Unbound.Proofs.Resolution.Sights
import Unbound.Proofs.Tree.Widening

/-!
# Programs with one entry more in a child list

The entry is a probe, which binds a name or asks by `typeof` for it. If the walk of a check comes to
the list once, it meets the same as before with one declaration put in.
-/

set_option autoImplicit false

namespace Unbound

/-- The node declares the name and has no other part in the scopes of a program. -/
inductive Arena.Probe (arena : Arena) (id : NodeId) (name : Name) : Prop where
  | binding {span : Option Span} (found : arena.node id = .ok ⟨.binding name, span⟩)
  | typeOf {operand : NodeId} {place span : Option Span}
      (found : arena.node id = .ok ⟨.expression (.unary .typeOf operand), place⟩)
      (asked : arena.node operand = .ok ⟨.reference name, span⟩)

theorem Arena.Probe.exists_pass {arena : Arena} {id : NodeId} {name : Name}
    (probe : arena.Probe id name) (argumentsName : Name) :
    ∃ span, Check.pass arena argumentsName id = [.emit (.declare name span)] := by
  cases probe with
  | binding found =>
      rw [Check.pass, found]
      exact ⟨_, rfl⟩
  | typeOf found asked =>
      rw [Check.pass, found]
      simp only [Check.steps, asked]
      exact ⟨_, rfl⟩

/-- The list of the host has the probe as one entry more. What can be read of the first program is
otherwise the same in the second one, except that the lists of each node may have been moved. -/
structure Program.Inserts (before after : Program) (host probe : NodeId) (name : Name)
    (move : NodeId → NodeRange → NodeRange) : Prop where
  root : after.root = before.root
  nodes : ∀ id node, before.arena.node id = .ok node →
    after.arena.node id = .ok (node.relocate (move id))
  lists : ∀ id node range ids, id ≠ host → before.arena.node id = .ok node →
    range ∈ node.construct.lists → before.arena.list range = .ok ids →
    after.arena.list (move id range) = .ok ids
  entry : ∃ node range front back, before.arena.node host = .ok node ∧
    node.construct.lists = [range] ∧ before.arena.list range = .ok (front ++ back) ∧
    after.arena.list (move host range) = .ok (front ++ probe :: back)
  present : probe.isPresent
  named : ¬ name.isEmpty
  probes : after.arena.Probe probe name

namespace Check

def Steps.lists (steps : Steps) : List NodeRange :=
  steps.filterMap fun step =>
    match step with
    | .child (.list range) => some range
    | _ => none

/-- No step gives up because something cannot be read. -/
def Steps.Sound (steps : Steps) : Prop := ∀ handle, .dangle handle ∉ steps

theorem lists_steps {arena : Arena} {argumentsName : Name} {node : Node}
    (sound : (steps arena argumentsName node).Sound) :
    (steps arena argumentsName node).lists = node.construct.lists := by
  obtain ⟨construct, span⟩ := node
  cases construct with
  | function form =>
      cases form with
      | declaration name params body =>
          simp only [steps] at sound ⊢
          cases bound : arena.bindingName? name with
          | error handle =>
              rw [bound] at sound
              exact absurd List.mem_cons_self (sound handle)
          | ok own => cases own <;> rfl
      | _ => rfl
  | pattern form => cases form <;> rfl
  | statement form => cases form <;> rfl
  | expression form =>
      cases form with
      | unary op operand =>
          cases op with
          | typeOf =>
              simp only [steps] at sound ⊢
              cases found : arena.node operand with
              | error handle =>
                  rw [found] at sound
                  exact absurd List.mem_cons_self (sound handle)
              | ok asked =>
                  obtain ⟨construct, place⟩ := asked
                  cases construct <;> rfl
          | _ => rfl
      | _ => rfl
  | _ => rfl

theorem sound_of_ended {arena : Arena} {visit : NodeId → Trace Sight Empty} {steps : Steps}
    (ended : (Trace.concat ((steps.map (Step.mapEvent .report)).map
      (arena.traceStep visit))).interruption = none) : steps.Sound := by
  intro handle member
  rw [List.map_map] at ended
  have dangles := Trace.ended_of_mem_of_ended_concat ended (List.mem_map_of_mem member)
  cases dangles

theorem exists_split_of_lists {steps : Steps} {range : NodeRange} (only : steps.lists = [range]) :
    ∃ first last, steps = first ++ .child (.list range) :: last ∧ Steps.lists first = [] ∧
      Steps.lists last = [] := by
  obtain ⟨first, step, last, split, none, some, rest⟩ := List.filterMap_eq_cons_iff.mp only
  refine ⟨first, last, ?_, List.filterMap_eq_nil_iff.mpr none, rest⟩
  rw [split]
  cases step with
  | child part =>
      cases part with
      | node id => cases some
      | list other =>
          cases some
          rfl
  | _ => cases some

section

variable {before after : Arena} {moves : NodeId → NodeRange → NodeRange}
  (nodes : ∀ id node, before.node id = .ok node → after.node id = .ok (node.relocate (moves id)))

include nodes

theorem bindingName?_of_nodes {id : NodeId} {bound : Option (Name × Option Span)}
    (read : before.bindingName? id = .ok bound) : after.bindingName? id = .ok bound := by
  rw [Arena.bindingName?] at read ⊢
  by_cases present : id.isPresent
  · rw [if_pos present] at read ⊢
    cases found : before.node id with
    | error handle =>
        rw [found] at read
        cases read
    | ok node =>
        rw [found] at read
        rw [nodes id node found]
        obtain ⟨construct, span⟩ := node
        cases construct <;> exact read
  · rw [if_neg present] at read ⊢
    exact read

theorem steps_relocate {argumentsName : Name} {node : Node}
    (sound : (steps before argumentsName node).Sound) (move : NodeRange → NodeRange) :
    steps after argumentsName (node.relocate move) =
      (steps before argumentsName node).map (Step.relocate move) := by
  obtain ⟨construct, span⟩ := node
  cases construct with
  | function form =>
      cases form with
      | declaration name params body =>
          simp only [steps, Node.relocate, Construct.relocate, FunctionForm.relocate] at sound ⊢
          cases bound : before.bindingName? name with
          | error handle =>
              rw [bound] at sound
              exact absurd List.mem_cons_self (sound handle)
          | ok own =>
              rw [bindingName?_of_nodes nodes bound]
              cases own <;> rfl
      | _ => rfl
  | pattern form => cases form <;> rfl
  | statement form => cases form <;> rfl
  | expression form =>
      cases form with
      | unary op operand =>
          cases op with
          | typeOf =>
              simp only [steps, Node.relocate, Construct.relocate, Expression.relocate] at sound ⊢
              cases found : before.node operand with
              | error handle =>
                  rw [found] at sound
                  exact absurd List.mem_cons_self (sound handle)
              | ok asked =>
                  rw [nodes operand asked found]
                  obtain ⟨construct, place⟩ := asked
                  cases construct <;> rfl
          | _ => rfl
      | _ => rfl
  | _ => rfl

end

end Check

namespace Arena

variable {before after : Arena} {narrow wide : NodeId → Trace Sight Empty} {host : NodeId}
  {block : List Sight} {move : NodeRange → NodeRange}

theorem widens_steps (visits : ∀ id, (narrow id).Widens (.node host) block (wide id))
    {steps : Check.Steps}
    (lists : ∀ range ids, range ∈ steps.lists → before.list range = .ok ids →
      after.list (move range) = .ok ids) :
    (Trace.concat ((steps.map (Step.mapEvent .report)).map (before.traceStep narrow))).Widens
      (.node host) block
      (Trace.concat (((steps.map (Step.relocate move)).map (Step.mapEvent .report)).map
        (after.traceStep wide))) := by
  rw [List.map_map, List.map_map, List.map_map]
  apply Trace.widens_concat
  intro step member
  have commutes : (step.relocate move).mapEvent Sight.report =
      (step.mapEvent Sight.report).relocate move := by cases step <;> rfl
  simp only [Function.comp_apply, commutes]
  apply widens_traceStep visits
  · intro marked
    cases step with
    | emit event => cases marked
    | _ => cases marked
  · intro range ids reads found
    apply lists range ids _ found
    cases step with
    | child part =>
        cases reads
        exact List.mem_filterMap.mpr ⟨_, member, rfl⟩
    | _ => cases reads

/-- The list of the host itself, and what stands before it and after it among the steps. -/
theorem widens_hostSteps (visits : ∀ id, (narrow id).Widens (.node host) block (wide id))
    {probe : NodeId} (present : probe.isPresent) (met : wide probe = ⟨block, none⟩)
    {steps : Check.Steps} {range : NodeRange} (only : steps.lists = [range])
    {front back : List NodeId} (found : before.list range = .ok (front ++ back))
    (entry : after.list (move range) = .ok (front ++ probe :: back)) :
    ((⟨[.node host], none⟩ : Trace Sight Empty) ++
        Trace.concat ((steps.map (Step.mapEvent .report)).map (before.traceStep narrow))).Widens
      (.node host) block
      ((⟨[.node host], none⟩ : Trace Sight Empty) ++
        Trace.concat (((steps.map (Step.relocate move)).map (Step.mapEvent .report)).map
          (after.traceStep wide))) := by
  obtain ⟨first, last, rfl, noneFirst, noneLast⟩ := Check.exists_split_of_lists only
  have around : ∀ steps : Check.Steps, steps.lists = [] →
      (Trace.concat ((steps.map (Step.mapEvent .report)).map (before.traceStep narrow))).Widens
        (.node host) block
        (Trace.concat (((steps.map (Step.relocate move)).map (Step.mapEvent .report)).map
          (after.traceStep wide))) := by
    intro steps none
    apply widens_steps visits
    intro range ids member
    rw [none] at member
    cases member
  have entries : ∀ ids : List NodeId,
      (Trace.concat (ids.map fun id => before.traceStep narrow (.child (.node id)))).Widens
        (.node host) block
        (Trace.concat (ids.map fun id => after.traceStep wide (.child (.node id)))) :=
    fun ids => Trace.widens_concat fun id _ => widens_traceStep_node visits id
  have whole := ((around first noneFirst).append (entries front)).insert
    ((entries back).append (around last noneLast))
  have listed := traceStep_list before narrow range _ found
  have listedWide := traceStep_list after wide (move range) _ entry
  have atProbe : after.traceStep wide (.child (.node probe)) = ⟨block, none⟩ := by
    rw [traceStep_node, if_pos present, met]
  rw [List.map_append, Trace.concat_append] at listed
  rw [List.map_append, Trace.concat_append, List.map_cons, Trace.concat_cons, atProbe] at listedWide
  simp only [List.map_append, List.map_cons, Trace.concat_append, Trace.concat_cons,
    Step.mapEvent, Step.relocate, Child.relocate, listed, listedWide, Trace.append_assoc]
  simp only [Trace.append_assoc] at whole
  exact whole

end Arena

namespace Program.Inserts

variable {before after : Program} {host probe : NodeId} {name : Name}
  {move : NodeId → NodeRange → NodeRange} {argumentsName : Name} {block : List Sight}

theorem widens_traceWithin (inserts : before.Inserts after host probe name move)
    (met : ∀ depth,
      after.arena.traceWithin (Check.sightPass after.arena argumentsName) (depth + 1) probe =
        ⟨block, none⟩) (depth : Nat) (id : NodeId) :
    (before.arena.traceWithin (Check.sightPass before.arena argumentsName) depth id).Widens
      (.node host) block
      (after.arena.traceWithin (Check.sightPass after.arena argumentsName) (depth + 1) id) := by
  induction depth generalizing id with
  | zero =>
      apply Trace.widens_of_interrupted
      intro ended
      cases ended
  | succ depth induction =>
      rw [Arena.traceWithin_succ, Arena.traceWithin_succ, Check.sightPass, Check.sightPass,
        List.map_cons, List.map_cons, Trace.concat_cons, Trace.concat_cons, Check.pass, Check.pass]
      cases found : before.arena.node id with
      | error handle =>
          apply Trace.widens_of_interrupted
          intro ended
          cases ended
      | ok node =>
          rw [inserts.nodes id node found]
          dsimp only
          by_cases sound : (Check.steps before.arena argumentsName node).Sound
          · rw [Check.steps_relocate inserts.nodes sound]
            by_cases isHost : id = host
            · subst isHost
              obtain ⟨hostNode, range, front, back, same, only, listed, entry⟩ := inserts.entry
              cases found.symm.trans same
              rw [← Check.lists_steps sound] at only
              exact Arena.widens_hostSteps induction inserts.present (met depth) only listed entry
            · have unmarked : Sight.node host ∉
                  (⟨[.node id], none⟩ : Trace Sight Empty).events := by
                intro member
                cases List.mem_singleton.mp member
                exact isHost rfl
              apply (Trace.widens_refl unmarked).append
              apply Arena.widens_steps induction
              intro range ids member listed
              rw [Check.lists_steps sound] at member
              exact inserts.lists id node range ids isHost found member listed
          · -- The walk has been interrupted here already.
            apply Trace.widens_of_interrupted
            intro ended
            exact sound (Check.sound_of_ended ended)

/-- What a check meets in the whole program. The probe is one node deeper than its host. -/
theorem widens_sightTrace (inserts : before.Inserts after host probe name move)
    (met : ∀ depth,
      after.arena.traceWithin (Check.sightPass after.arena argumentsName) (depth + 1) probe =
        ⟨block, none⟩) :
    (before.sightTrace argumentsName).Widens (.node host) block
      (after.sightTrace argumentsName) := by
  have widens : (before.arena.traceStep
      (before.arena.traceWithin (Check.sightPass before.arena argumentsName)
        (before.arena.size + 1)) (.child (.node before.root))).Widens (.node host) block
      (after.arena.traceStep
        (after.arena.traceWithin (Check.sightPass after.arena argumentsName)
          (before.arena.size + 1 + 1)) (.child (.node before.root))) :=
    Arena.widens_traceStep_node (inserts.widens_traceWithin met (before.arena.size + 1)) before.root
  by_cases ended : (before.sightTrace argumentsName).interruption = none
  · rw [sightTrace, Arena.walk_eq_trace] at ended ⊢
    have settled := Trace.settled_of_interruption_eq_none (widens.ends ended)
    rw [sightTrace, inserts.root,
      Arena.walk_eq_traceWithin (after.arena.settlesOutside_sights argumentsName) _ _ settled]
    exact widens
  · exact Trace.widens_of_interrupted _ ended

theorem exists_sights_eq (inserts : before.Inserts after host probe name move)
    (ended : (before.scopeTrace argumentsName).interruption = none)
    (once : (before.sights argumentsName).count (.node host) = 1) :
    ∃ front back span, before.sights argumentsName = front ++ back ∧
      after.sights argumentsName =
        front ++ [.node probe, .report (.declare name span)] ++ back ∧
      (after.scopeTrace argumentsName).interruption = none := by
  obtain ⟨span, declares⟩ := inserts.probes.exists_pass argumentsName
  have met : ∀ depth,
      after.arena.traceWithin (Check.sightPass after.arena argumentsName) (depth + 1) probe =
        ⟨[.node probe, .report (.declare name span)], none⟩ := by
    intro depth
    rw [Arena.traceWithin_succ, Check.sightPass, declares]
    rfl
  have widens := inserts.widens_sightTrace met
  rw [← reports_sightTrace] at ended ⊢
  obtain ⟨front, back, split, widened⟩ := widens.once ended once
  exact ⟨front, back, span, split, widened, widens.ends ended⟩

end Program.Inserts

end Unbound
