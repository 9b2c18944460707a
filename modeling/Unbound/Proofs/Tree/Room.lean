import Mathlib.Algebra.Group.Defs
import Unbound.Proofs.Name.Interning
import Unbound.Tree.Builder

/-!
# Room for what is built

Calls need texts, nodes and list entries. A shard may be full, and 32 bits may not be enough to
number the nodes or the entries.
-/

set_option autoImplicit false

namespace Unbound

/-- What an action needs room for. -/
@[ext] structure Needs where
  texts : List String
  nodes : Nat
  entries : Nat
deriving DecidableEq, Repr

namespace Needs

def text (text : String) : Needs := ⟨[text], 0, 0⟩

def node : Needs := ⟨[], 1, 0⟩

def list (length : Nat) : Needs := ⟨[], 0, length⟩

instance : Zero Needs := ⟨⟨[], 0, 0⟩⟩

instance : Add Needs where
  add first second :=
    ⟨first.texts ++ second.texts, first.nodes + second.nodes, first.entries + second.entries⟩

theorem nodes_add (first second : Needs) :
    (first + second).nodes = first.nodes + second.nodes := rfl

theorem entries_add (first second : Needs) :
    (first + second).entries = first.entries + second.entries := rfl

instance : AddMonoid Needs where
  add_assoc first second third :=
    Needs.ext (List.append_assoc _ _ _) (Nat.add_assoc _ _ _) (Nat.add_assoc _ _ _)
  zero_add needs := Needs.ext (List.nil_append _) (Nat.zero_add _) (Nat.zero_add _)
  add_zero needs := Needs.ext (List.append_nil _) (Nat.add_zero _) (Nat.add_zero _)
  nsmul := nsmulRec

theorem sum_map_text_add_node (texts : List String) :
    (texts.map fun other => text other + node).sum = ⟨texts, texts.length, 0⟩ := by
  induction texts with
  | nil => rfl
  | cons first texts induction =>
      rw [List.map_cons, List.sum_cons, induction]
      exact Needs.ext rfl (Nat.add_comm _ _) rfl

/-! ### What calls need that make more than one node -/

def function (params body : List NodeId) : Needs :=
  list body.length + node + (list params.length + node)

def catchClause (parameter : NodeId) (handler : List NodeId) : Needs :=
  if parameter.isPresent then list handler.length + node + node else 0

def finalizer : Option (List NodeId) → Needs
  | some statements => list statements.length + node
  | none => 0

def tryStatement (body : List NodeId) (parameter : NodeId) (handler : List NodeId)
    (last : Option (List NodeId)) : Needs :=
  list body.length + node + (catchClause parameter handler + (finalizer last + node))

def objectPattern (fields : List (String × NodeId)) : Needs :=
  (fields.map fun field => text field.1 + node).sum + (list fields.length + node)

end Needs

namespace Builder

variable {builder after last : Builder} {needs more : Needs}

/-- 32 bits can number all nodes and all entries that there are and that are needed. -/
def Room (builder : Builder) (needs : Needs) : Prop :=
  builder.arena.size + needs.nodes ≤ maxWord ∧
    builder.arena.entries.size + needs.entries ≤ maxWord

instance (builder : Builder) (needs : Needs) : Decidable (builder.Room needs) :=
  inferInstanceAs (Decidable (_ ∧ _))

theorem room_ofInterner_iff {interner : Interner} :
    (ofInterner interner).Room needs ↔ needs.nodes ≤ maxWord ∧ needs.entries ≤ maxWord := by
  have nodes : (ofInterner interner).arena.size + needs.nodes = needs.nodes := Nat.zero_add _
  have entries : (ofInterner interner).arena.entries.size + needs.entries = needs.entries :=
    Nat.zero_add _
  rw [Room, nodes, entries]

theorem Room.of_add (room : builder.Room (needs + more)) : builder.Room needs := by
  obtain ⟨nodes, entries⟩ := room
  rw [Needs.nodes_add] at nodes
  rw [Needs.entries_add] at entries
  constructor <;> omega

/-- What there is afterwards is what was there before and what was needed. -/
structure Fills (after builder : Builder) (needs : Needs) : Prop where
  nodes : after.arena.size = builder.arena.size + needs.nodes
  entries : after.arena.entries.size = builder.arena.entries.size + needs.entries
  texts : ∃ names, builder.interner.internAll needs.texts = .ok (names, after.interner)

theorem fills_zero (builder : Builder) : builder.Fills builder 0 := ⟨rfl, rfl, [], rfl⟩

theorem Fills.add (first : after.Fills builder needs) (second : last.Fills after more) :
    last.Fills builder (needs + more) where
  nodes := by rw [second.nodes, first.nodes, Needs.nodes_add, Nat.add_assoc]
  entries := by rw [second.entries, first.entries, Needs.entries_add, Nat.add_assoc]
  texts := by
    obtain ⟨names, begun⟩ := first.texts
    obtain ⟨others, continued⟩ := second.texts
    exact ⟨_, Interner.internAll_append_eq_ok_iff.mpr ⟨_, _, _, begun, continued, rfl⟩⟩

theorem Fills.interner (fills : after.Fills builder needs) (none : needs.texts = []) :
    after.interner = builder.interner := by
  obtain ⟨names, interned⟩ := fills.texts
  rw [none] at interned
  exact (Prod.mk.inj (Except.ok.inj interned)).2.symm

theorem Fills.room (fills : after.Fills builder needs) (room : builder.Room (needs + more)) :
    after.Room more := by
  obtain ⟨nodes, entries⟩ := room
  rw [Needs.nodes_add, ← Nat.add_assoc, ← fills.nodes] at nodes
  rw [Needs.entries_add, ← Nat.add_assoc, ← fills.entries] at entries
  exact ⟨nodes, entries⟩

inductive Lacks (builder : Builder) (needs : Needs) : BuildError → Prop where
  | shard {failure : ShardFull}
      (full : builder.interner.internAll needs.texts = .error failure) :
      Lacks builder needs (.shardFull failure)
  | arena {failure : ArenaFull} (none : ¬ builder.Room needs) :
      Lacks builder needs (.arenaFull failure)

theorem Lacks.add {failure : BuildError} (lacks : builder.Lacks needs failure) (more : Needs) :
    builder.Lacks (needs + more) failure := by
  cases lacks with
  | shard full => exact .shard (Interner.internAll_append_eq_error_iff.mpr (.inl full))
  | arena none => exact .arena fun room => none room.of_add

theorem Fills.lacks {failure : BuildError} (fills : after.Fills builder needs)
    (lacks : after.Lacks more failure) : builder.Lacks (needs + more) failure := by
  cases lacks with
  | shard full =>
      obtain ⟨names, begun⟩ := fills.texts
      exact .shard (Interner.internAll_append_eq_error_iff.mpr (.inr ⟨_, _, begun, full⟩))
  | arena none => exact .arena fun room => none (fills.room room)

/-! ### The three ways in which a builder grows -/

def withNode (builder : Builder) (node : Node) : Builder :=
  { builder with arena := builder.arena.push node }

def withList (builder : Builder) (ids : List NodeId) : Builder :=
  { builder with arena := builder.arena.pushList ids }

def withNames (builder : Builder) (interner : Interner) : Builder := { builder with interner }

theorem fills_withNode (builder : Builder) (node : Node) :
    (builder.withNode node).Fills builder .node where
  nodes := builder.arena.size_push node
  entries := rfl
  texts := ⟨[], rfl⟩

theorem fills_withList (builder : Builder) (ids : List NodeId) :
    (builder.withList ids).Fills builder (.list ids.length) where
  nodes := rfl
  entries := by
    rw [withList, Arena.pushList, Array.size_append, List.size_toArray]
    rfl
  texts := ⟨[], rfl⟩

theorem fills_withNames {text : String} {name : Name} {interner : Interner}
    (interned : builder.interner.intern text = .ok (name, interner)) :
    (builder.withNames interner).Fills builder (.text text) where
  nodes := rfl
  entries := rfl
  texts := ⟨[name], Interner.internAll_cons_eq_ok_iff.mpr ⟨name, interner, [], interned, rfl, rfl⟩⟩

theorem run_name_eq_ok_iff {text : String} {known : Name} :
    (name text).run builder = .ok (known, after) ↔
      ∃ interner, builder.interner.intern text = .ok (known, interner) ∧
        builder.withNames interner = after := by
  change name text builder = _ ↔ _
  rw [name]
  cases builder.interner.intern text with
  | ok outcome => simp [withNames, Prod.ext_iff, and_assoc]
  | error failure => simp

theorem run_name_succeeds_iff {text : String} :
    (∃ outcome, (name text).run builder = .ok outcome) ↔
      Interner.Fit (text :: builder.interner.texts) := by
  rw [← Interner.intern_succeeds_iff]
  simp only [Prod.exists, run_name_eq_ok_iff]
  constructor
  · intro succeeds
    obtain ⟨known, _, interner, interned, _⟩ := succeeds
    exact ⟨known, interner, interned⟩
  · intro succeeds
    obtain ⟨known, interner, interned⟩ := succeeds
    exact ⟨known, _, interner, interned, rfl⟩

theorem lacks_of_run_name {text : String} {failure : BuildError}
    (failed : (name text).run builder = .error failure) : builder.Lacks (.text text) failure := by
  change name text builder = _ at failed
  rw [name] at failed
  cases outcome : builder.interner.intern text with
  | ok interned =>
      rw [outcome] at failed
      cases failed
  | error full =>
      rw [outcome] at failed
      cases failed
      apply Lacks.shard
      rw [Needs.text, Interner.internAll_cons, outcome]
      rfl

section

variable {Value : Type} {store : Arena → Except ArenaFull (Value × Arena)}

theorem run_inArena_eq_ok_iff {value made : Value} {grown : Arena} {possible : Prop}
    (stores : ∀ arena, store builder.arena = .ok (value, arena) ↔
      possible ∧ value = made ∧ arena = grown) :
    (inArena store).run builder = .ok (value, after) ↔
      possible ∧ value = made ∧ after = { builder with arena := grown } := by
  have stored : (inArena store).run builder = .ok (value, after) ↔
      ∃ arena, store builder.arena = .ok (value, arena) ∧ { builder with arena } = after := by
    change inArena store builder = _ ↔ _
    rw [inArena]
    cases store builder.arena with
    | ok outcome => simp [Prod.ext_iff, and_assoc]
    | error failure => simp
  rw [stored]
  simp only [stores]
  constructor
  · intro added
    obtain ⟨arena, ⟨possible, rfl, rfl⟩, rfl⟩ := added
    exact ⟨possible, rfl, rfl⟩
  · intro added
    obtain ⟨possible, rfl, rfl⟩ := added
    exact ⟨_, ⟨possible, rfl, rfl⟩, rfl⟩

theorem run_inArena_eq_error_iff {failure : BuildError} :
    (inArena store).run builder = .error failure ↔
      ∃ full, store builder.arena = .error full ∧ .arenaFull full = failure := by
  change inArena store builder = _ ↔ _
  rw [inArena]
  cases store builder.arena with
  | ok outcome => simp
  | error full => simp

end

theorem run_node_eq_ok_iff {construct : Construct} {span : Option Span} {id : NodeId} :
    (node construct span).run builder = .ok (id, after) ↔
      builder.arena.size ≤ maxWord ∧ id = builder.arena.nextId ∧
        after = builder.withNode ⟨construct, span⟩ :=
  run_inArena_eq_ok_iff fun _ => Arena.alloc_eq_ok_iff

theorem lacks_of_run_node {construct : Construct} {span : Option Span} {failure : BuildError}
    (failed : (node construct span).run builder = .error failure) :
    builder.Lacks .node failure := by
  obtain ⟨full, beyond, rfl⟩ := run_inArena_eq_error_iff.mp failed
  apply Lacks.arena
  intro room
  have within : builder.arena.size < maxWord := room.1
  exact absurd within (Nat.lt_asymm (Arena.lt_size_of_alloc_eq_error beyond))

theorem run_list_eq_ok_iff {ids : List NodeId} {range : NodeRange} :
    (list ids).run builder = .ok (range, after) ↔
      (ids = [] ∨ builder.arena.entries.size ≤ maxWord ∧ ids.length ≤ maxWord) ∧
        range = builder.arena.nextRange ids ∧ after = builder.withList ids :=
  run_inArena_eq_ok_iff fun _ => Arena.allocList_eq_ok_iff

theorem lacks_of_run_list {ids : List NodeId} {failure : BuildError}
    (failed : (list ids).run builder = .error failure) :
    builder.Lacks (.list ids.length) failure := by
  obtain ⟨full, beyond, rfl⟩ := run_inArena_eq_error_iff.mp failed
  apply Lacks.arena
  intro room
  exact absurd room.2 (Nat.not_le.mpr (Arena.lt_of_allocList_eq_error beyond))

end Builder

end Unbound
