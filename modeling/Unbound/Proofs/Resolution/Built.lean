import Unbound.Proofs.Name.Crowding
import Unbound.Proofs.Resolution.Ending
import Unbound.Proofs.Tree.Construction

/-!
# Programs that were built

A program made by calls to a builder can be walked and checked, whatever calls these were and in
whatever way they share parts, unless `typeof` was applied to nothing.
-/

set_option autoImplicit false

namespace Unbound

namespace Builder

inductive Call where
  | reference (text : String) (span : Option Span)
  | binding (text : String) (span : Option Span)
  | functionDeclaration (name : NodeId) (params body : List NodeId)
  | functionExpression (name : NodeId) (params body : List NodeId)
  | arrow (params body : List NodeId)
  | arrowOf (params : List NodeId) (body : NodeId)
  | method (key : String) (params body : List NodeId)
  | getter (key : String) (body : List NodeId)
  | setter (key : String) (param : NodeId) (body : List NodeId)
  | tryStatement (body : List NodeId) (parameter : NodeId) (handler : List NodeId)
      (finalizer : Option (List NodeId))
  | objectPattern (fields : List (String × NodeId))
  | arrayPattern (elements : List NodeId)
  | withDefault (bound initializer : NodeId)
  | rest (bound : NodeId)
  | block (statements : List NodeId)
  | singleVariable (bound initializer : NodeId)
  | declarations (declarators : List NodeId)
  | expressionStatement (inner : NodeId)
  | result (argument : NodeId)
  | branch (test consequent alternate : NodeId)
  | throw (argument : NodeId)
  | number (bits : UInt64)
  | string (text : String)
  | unary (op : UnaryOp) (operand : NodeId)
  | typeOf (operand : NodeId)
  | binary (op : BinaryOp) (left right : NodeId)
  | assign (target value : NodeId)
  | call (callee : NodeId) (arguments : List NodeId)
  | member (base : NodeId) (key : String)
  | array (elements : List NodeId)
  | object (properties : List NodeId)
  | property (key : String) (value : NodeId)

namespace Call

def perform : Call → BuildM NodeId
  | .reference text span => Builder.reference text span
  | .binding text span => Builder.binding text span
  | .functionDeclaration name params body => Builder.functionDeclaration name params body
  | .functionExpression name params body => Builder.functionExpression name params body
  | .arrow params body => Builder.arrow params body
  | .arrowOf params body => Builder.arrowOf params body
  | .method key params body => Builder.method key params body
  | .getter key body => Builder.getter key body
  | .setter key param body => Builder.setter key param body
  | .tryStatement body parameter handler finalizer =>
      Builder.tryStatement body parameter handler finalizer
  | .objectPattern fields => Builder.objectPattern fields
  | .arrayPattern elements => Builder.arrayPattern elements
  | .withDefault bound initializer => Builder.withDefault bound initializer
  | .rest bound => Builder.rest bound
  | .block statements => Builder.block statements
  | .singleVariable bound initializer => Builder.singleVariable bound initializer
  | .declarations declarators => Builder.declarations declarators
  | .expressionStatement inner => Builder.expressionStatement inner
  | .result argument => Builder.result argument
  | .branch test consequent alternate => Builder.branch test consequent alternate
  | .throw argument => Builder.throw argument
  | .number bits => Builder.number bits
  | .string text => Builder.string text
  | .unary op operand => Builder.unary op operand
  | .typeOf operand => Builder.typeOf operand
  | .binary op left right => Builder.binary op left right
  | .assign target value => Builder.assign target value
  | .call callee arguments => Builder.call callee arguments
  | .member base key => Builder.member base key
  | .array elements => Builder.array elements
  | .object properties => Builder.object properties
  | .property key value => Builder.property key value

def children : Call → List NodeId
  | .reference .. | .binding .. | .number _ | .string _ => []
  | .functionDeclaration name params body => [name] ++ (params ++ body)
  | .functionExpression name params body => [name] ++ (params ++ body)
  | .arrow params body => params ++ body
  | .arrowOf params body => params ++ [body]
  | .method _ params body => params ++ body
  | .getter _ body => body
  | .setter _ param body => [param] ++ body
  | .tryStatement body parameter handler finalizer =>
      body ++ ([parameter] ++ (handler ++ finalizer.getD []))
  | .objectPattern fields => fields.map Prod.snd
  | .arrayPattern elements => elements
  | .withDefault bound initializer => [bound, initializer]
  | .rest bound => [bound]
  | .block statements => statements
  | .singleVariable bound initializer => [bound, initializer]
  | .declarations declarators => declarators
  | .expressionStatement inner => [inner]
  | .result argument => [argument]
  | .branch test consequent alternate => [test, consequent, alternate]
  | .throw argument => [argument]
  | .unary _ operand => [operand]
  | .typeOf operand => [operand]
  | .binary _ left right => [left, right]
  | .assign target value => [target, value]
  | .call callee arguments => callee :: arguments
  | .member base _ => [base]
  | .array elements => elements
  | .object properties => properties
  | .property _ value => [value]

def needs : Call → Needs
  | .reference text _ | .binding text _ | .string text | .member _ text | .property text _ =>
      .text text + .node
  | .functionDeclaration _ params body | .functionExpression _ params body | .arrow params body =>
      .function params body
  | .arrowOf params _ => .list params.length + .node
  | .method key params body => .text key + .function params body
  | .getter key body | .setter key _ body => .text key + (.list body.length + .node + .node)
  | .tryStatement body parameter handler finalizer =>
      .tryStatement body parameter handler finalizer
  | .objectPattern fields => .objectPattern fields
  | .arrayPattern ids | .block ids | .declarations ids | .call _ ids | .array ids | .object ids =>
      .list ids.length + .node
  | .singleVariable .. => .node + (.list 1 + .node)
  | .withDefault .. | .rest _ | .expressionStatement _ | .result _ | .branch .. | .throw _
  | .number _ | .unary .. | .typeOf _ | .binary .. | .assign .. => .node

/-- The call does not apply `typeof` to nothing. -/
def Probes : Call → Prop
  | .unary .typeOf operand => operand.isPresent
  | .typeOf operand => operand.isPresent
  | _ => True

end Call

variable {asks : Prop} {builder after : Builder}

theorem builds_perform (sound : builder.Sound asks) (call : Call)
    (wired : ∀ child ∈ call.children, Wired child builder) (probes : asks → call.Probes) :
    Builds asks builder call.needs call.perform Wired := by
  cases call with
  | reference text span =>
      exact builds_leaf text span sound (fun _ => rfl) fun _ _ known => ⟨text, known⟩
  | binding text span => exact builds_leaf text span sound (fun _ => rfl) fun _ _ _ => trivial
  | functionDeclaration name params body =>
      obtain ⟨own, rest⟩ := List.forall_mem_append.mp wired
      obtain ⟨entries, bodyWired⟩ := List.forall_mem_append.mp rest
      exact builds_functionDeclaration sound own entries bodyWired
  | functionExpression name params body =>
      obtain ⟨own, rest⟩ := List.forall_mem_append.mp wired
      obtain ⟨entries, bodyWired⟩ := List.forall_mem_append.mp rest
      exact builds_functionExpression sound own entries bodyWired
  | arrow params body =>
      obtain ⟨entries, bodyWired⟩ := List.forall_mem_append.mp wired
      exact builds_arrow sound entries bodyWired
  | arrowOf params body => exact builds_arrowOf sound wired
  | method key params body =>
      obtain ⟨entries, bodyWired⟩ := List.forall_mem_append.mp wired
      exact builds_method key sound entries bodyWired
  | getter key body => exact builds_getter key sound wired
  | setter key param body =>
      obtain ⟨own, bodyWired⟩ := List.forall_mem_append.mp wired
      exact builds_setter key sound own bodyWired
  | tryStatement body parameter handler finalizer =>
      obtain ⟨bodyWired, rest⟩ := List.forall_mem_append.mp wired
      obtain ⟨own, others⟩ := List.forall_mem_append.mp rest
      obtain ⟨handlerWired, finalizerWired⟩ := List.forall_mem_append.mp others
      apply builds_tryStatement sound bodyWired own handlerWired
      intro statements same
      rw [same] at finalizerWired
      exact finalizerWired
  | objectPattern fields => exact builds_objectPattern sound wired
  | arrayPattern elements => exact builds_sequence sound wired (fun _ => rfl) fun _ _ => trivial
  | withDefault bound initializer => exact builds_fixed sound wired rfl trivial
  | rest bound => exact builds_fixed sound wired rfl trivial
  | block statements => exact builds_block sound wired
  | singleVariable bound initializer => exact builds_singleVariable sound wired
  | declarations declarators =>
      exact builds_sequence sound wired (fun _ => rfl) fun _ _ => trivial
  | expressionStatement inner => exact builds_fixed sound wired rfl trivial
  | result argument => exact builds_fixed sound wired rfl trivial
  | branch test consequent alternate => exact builds_fixed sound wired rfl trivial
  | throw argument => exact builds_fixed sound wired rfl trivial
  | number bits =>
      refine builds_node sound ?_ ?_ none
      · exact List.forall_mem_nil _
      · trivial
  | string text => exact builds_leaf text none sound (fun _ => rfl) fun _ _ _ => trivial
  | unary op operand =>
      apply builds_unary sound wired
      intro asked same
      subst same
      exact probes asked
  | typeOf operand => exact builds_unary sound wired fun asked _ => probes asked
  | binary op left right => exact builds_fixed sound wired rfl trivial
  | assign target value => exact builds_fixed sound wired rfl trivial
  | call callee arguments =>
      apply builds_listed sound (List.forall_mem_cons.mp wired).2 wired
      · intro range
        simp [Call.children, Construct.children, Expression.children]
      · exact fun _ _ => trivial
  | member base key =>
      exact builds_named key sound wired (fun _ => rfl) fun _ _ => trivial
  | array elements => exact builds_sequence sound wired (fun _ => rfl) fun _ _ => trivial
  | object properties => exact builds_sequence sound wired (fun _ => rfl) fun _ _ => trivial
  | property key value =>
      exact builds_named key sound wired (fun _ => rfl) fun _ _ => trivial

/-- The state of a builder after calls that were each given ids that are absent or came from an
earlier one. The calls, what they returned, and the builder are listed; a text may be interned at
any time. -/
inductive Reaches (interner : Interner) : List Call → List NodeId → Builder → Prop where
  | start : Reaches interner [] [] (.ofInterner interner)
  | call {calls : List Call} {ids : List NodeId} {builder after : Builder} {call : Call}
      {id : NodeId} (before : Reaches interner calls ids builder)
      (wired : ∀ child ∈ call.children, child = .absent ∨ child ∈ ids)
      (returned : call.perform.run builder = .ok (id, after)) :
      Reaches interner (calls ++ [call]) (ids ++ [id]) after
  | name {calls : List Call} {ids : List NodeId} {builder after : Builder} {text : String}
      {name : Name} (before : Reaches interner calls ids builder)
      (returned : (Builder.name text).run builder = .ok (name, after)) :
      Reaches interner calls ids after

variable {interner : Interner} {calls : List Call} {ids : List NodeId}

theorem wired_of_mem {children : List NodeId} (known : ∀ id ∈ ids, Wired id builder)
    (wired : ∀ child ∈ children, child = .absent ∨ child ∈ ids) :
    ∀ child ∈ children, Wired child builder := by
  intro child member
  rcases wired child member with absent | earlier
  · exact Or.inl absent
  · exact known child earlier

theorem Reaches.sound (reached : Reaches interner calls ids builder) :
    builder.Sound (∀ call ∈ calls, call.Probes) ∧ ∀ id ∈ ids, Wired id builder := by
  induction reached with
  | start => exact ⟨sound_ofInterner interner, List.forall_mem_nil _⟩
  | @call calls ids builder after call id before wired returned induction =>
      obtain ⟨sound, known⟩ := induction
      have weaker : (∀ other ∈ calls ++ [call], other.Probes) → ∀ other ∈ calls, other.Probes :=
        fun probes => (List.forall_mem_append.mp probes).1
      have builds := builds_perform (sound.mono weaker) call (wired_of_mem known wired)
        fun probes => (List.forall_mem_append.mp probes).2 call List.mem_cons_self
      obtain ⟨soundAfter, grown, _, made⟩ := builds.returned id after returned
      exact ⟨soundAfter, wired_concat (grown.wired known) made⟩
  | @name calls ids builder after text name before returned induction =>
      obtain ⟨sound, known⟩ := induction
      obtain ⟨soundAfter, grown, _⟩ := (builds_name sound text).returned name after returned
      exact ⟨soundAfter, grown.wired known⟩

theorem Sound.probesNodes (sound : builder.Sound asks) (asked : asks) :
    builder.arena.ProbesNodes := by
  intro node member operand same
  have answered := sound.answered node member
  rw [same] at answered
  exact answered asked

theorem Sound.known (sound : builder.Sound asks) {name : Name} (used : builder.arena.Uses name) :
    ∃ text, builder.interner.lookup name = .ok text := by
  obtain ⟨node, member, same⟩ := used
  have answered := sound.answered node member
  rw [same] at answered
  exact answered

/-- A call that is given ids that are absent or came from earlier calls goes through exactly if its
texts find room in the interner, as long as 32 bits can number the nodes and entries that it needs
beside those that there are; and it makes what it needs. A program can be finished whenever there is
such room. Its nodes then refer to earlier nodes only, through lists that lie in the buffer; a visit
of all its nodes ends; and if `typeof` was never applied to nothing, a check ends too, whatever the
host provides and whatever else was interned since: either all free variables are found, or a
made-up name is free, and there is a message for each. -/
theorem built_programs_end (reached : Reaches interner calls ids builder) :
    (∀ call : Call, (∀ child ∈ call.children, child = .absent ∨ child ∈ ids) →
      (builder.Room call.needs →
        ((∃ outcome, call.perform.run builder = .ok outcome) ↔
          Interner.Fit (call.needs.texts ++ builder.interner.texts))) ∧
      ∀ id after, call.perform.run builder = .ok (id, after) → after.Fills builder call.needs) ∧
    (∀ text, (∃ outcome, (name text).run builder = .ok outcome) ↔
      Interner.Fit (text :: builder.interner.texts)) ∧
    ∀ items : List NodeId, (∀ item ∈ items, item = .absent ∨ item ∈ ids) →
      (builder.Room (.list items.length + .node) →
        ∃ outcome, (finish items).run builder = .ok outcome) ∧
      ∀ program last, (finish items).run builder = .ok (program, last) →
        program.arena.Descending ∧
        (program.visit fun _ => false).interruption = none ∧
        ((∀ call ∈ calls, call.Probes) → ∀ (ambient : Ambient) (later : Interner),
          later.Extends builder.interner →
          (∃ free, program.check ambient later = .ok free ∧
            ∀ found ∈ free, ∃ text, found.message later = .ok text) ∨
          ∃ text, program.check ambient later = .error (.scope (.generatedUndefined text))) := by
  obtain ⟨sound, known⟩ := reached.sound
  refine ⟨?_, ?_, ?_⟩
  · intro call wired
    -- Whether a call goes through does not depend on what `typeof` was applied to.
    have lenient : builder.Sound False := sound.mono False.elim
    have builds := builds_perform lenient call (wired_of_mem known wired) False.elim
    exact ⟨builds.returns_iff, fun id after returned => (builds.returned id after returned).2.2.1⟩
  · exact fun text => run_name_succeeds_iff
  · intro items wired
    have builds := builds_finish sound (wired_of_mem known wired)
    refine ⟨?_, ?_⟩
    · intro room
      exact (builds.returns_iff room).mpr builder.interner.fit_texts
    · intro program last finished
      obtain ⟨soundLast, _, fills, sameArena, within⟩ := builds.returned program last finished
      have sameInterner : last.interner = builder.interner := fills.interner rfl
      have descending : program.arena.Descending := sameArena ▸ soundLast.descending
      have rooted : program.root.Within program.arena.size := sameArena ▸ within
      have ended : (program.visit fun _ => false).interruption = none := by
        rw [Option.eq_none_iff_forall_ne_some]
        intro interruption broken
        obtain ⟨_, _, _, _, refused⟩ := Program.visit_of_descending descending rooted _ broken
        cases refused
      refine ⟨descending, ended, ?_⟩
      intro probes ambient later names
      have operands : program.arena.ProbesNodes := sameArena ▸ soundLast.probesNodes probes
      have messages : ∀ name, program.arena.Uses name →
          ∃ text, later.lookup name = .ok text := by
        intro name used
        obtain ⟨text, found⟩ := soundLast.known (sameArena ▸ used)
        rw [sameInterner] at found
        exact ⟨text, names name text found⟩
      rcases Program.check_of_descending descending rooted operands ambient later with
        ⟨free, passed, uses⟩ | ⟨name, failed, used⟩
      · refine Or.inl ⟨free, passed, ?_⟩
        intro found member
        obtain ⟨text, looked⟩ := messages found.name (uses found member)
        refine ⟨s!"{text} is not defined", ?_⟩
        rw [FreeVariable.message, looked]
        rfl
      · obtain ⟨text, looked⟩ := messages name used
        rw [ScopeError.ofUndefined_of_lookup looked] at failed
        exact Or.inr ⟨text, failed⟩

theorem built_sum_ends :
    ∃ builder program last, (finish [⟨2⟩]).run builder = .ok (program, last) ∧
      Reaches Interner.initial [.number 0, .typeOf ⟨0⟩, .binary .add ⟨1⟩ ⟨1⟩] [⟨0⟩, ⟨1⟩, ⟨2⟩]
        builder ∧
      program.arena.Descending ∧ (program.visit fun _ => false).interruption = none ∧
      ∀ failure, program.check ∅ builder.interner = .error failure →
        ∃ reason, failure = .scope reason := by
  have first := @Reaches.start Interner.initial
  have second := @Reaches.call _ _ _ _ _ (.number 0) _ first (by decide) rfl
  have third := @Reaches.call _ _ _ _ _ (.typeOf ⟨0⟩) _ second (by decide) rfl
  have reached := @Reaches.call _ _ _ _ _ (.binary .add ⟨1⟩ ⟨1⟩) _ third (by decide) rfl
  have items : ∀ item ∈ [(⟨2⟩ : NodeId)], item = .absent ∨ item ∈ [(⟨0⟩ : NodeId), ⟨1⟩, ⟨2⟩] := by
    decide
  obtain ⟨_, _, finishes⟩ := built_programs_end reached
  obtain ⟨goesThrough, ends⟩ := finishes [⟨2⟩] items
  obtain ⟨⟨program, last⟩, finished⟩ := goesThrough (by decide)
  obtain ⟨descending, ended, checked⟩ := ends program last finished
  refine ⟨_, program, last, finished, reached, descending, ended, ?_⟩
  intro failure failed
  have probes : ∀ call ∈ [Call.number 0, .typeOf ⟨0⟩, .binary .add ⟨1⟩ ⟨1⟩], call.Probes := by
    intro call member
    simp only [List.mem_cons, List.not_mem_nil, or_false] at member
    rcases member with rfl | rfl | rfl
    · trivial
    · rfl
    · trivial
  rcases checked probes ∅ _ (Interner.extends_refl _) with ⟨free, passed, _⟩ | ⟨text, other⟩
  · rw [passed] at failed
    cases failed
  · rw [other] at failed
    exact ⟨_, (Except.error.inj failed).symm⟩

/-- References to more names than one shard has room for, though 32 bits can number the nodes. -/
def crowdedCalls : List Call := Interner.crowd.map fun text => .reference text none

theorem sum_needs_crowdedCalls :
    (crowdedCalls.map Call.needs).sum = ⟨Interner.crowd, Name.shardWidth + 1, 0⟩ := by
  rw [crowdedCalls, List.map_map]
  change (Interner.crowd.map fun text => Needs.text text + .node).sum = _
  rw [Needs.sum_map_text_add_node, Interner.length_crowd]

theorem crowded_calls_stop :
    (∀ call ∈ crowdedCalls, call.children = []) ∧
      (crowdedCalls.map Call.needs).sum.nodes < maxWord ∧
      (crowdedCalls.map Call.needs).sum.entries < maxWord ∧
      ∃ failure, (crowdedCalls.mapM Call.perform).run (.ofInterner .initial) =
        .error (.shardFull failure) := by
  have alone : ∀ call ∈ crowdedCalls, call.children = [] := by
    intro call member
    obtain ⟨text, _, rfl⟩ := List.mem_map.mp member
    rfl
  have nodes : (crowdedCalls.map Call.needs).sum.nodes < maxWord := by
    rw [sum_needs_crowdedCalls]
    decide
  have entries : (crowdedCalls.map Call.needs).sum.entries < maxWord := by
    rw [sum_needs_crowdedCalls]
    decide
  refine ⟨alone, nodes, entries, ?_⟩
  have each : ∀ call ∈ crowdedCalls, ∀ after : Builder, after.Sound False →
      after.Extends (.ofInterner .initial) →
      Builds False after call.needs call.perform Wired := by
    intro call member after sound _
    apply builds_perform sound call _ False.elim
    rw [alone call member]
    exact List.forall_mem_nil _
  have builds := builds_mapM Wired.lasts (sound_ofInterner .initial) each
  apply builds.exists_shardFull
  · exact room_ofInterner_iff.mpr ⟨Nat.le_of_lt nodes, Nat.le_of_lt entries⟩
  · rw [sum_needs_crowdedCalls]
    dsimp only
    exact Interner.not_fit_crowd _

end Builder

end Unbound
