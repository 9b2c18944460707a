import Unbound.Proofs.Resolution.Built

/-!
# Nodes that are built span their parts

All that a function leaves out of its span are its parameters. Hence a node covers all located nodes
below it that are reached through parts that are not set aside.
-/

set_option autoImplicit false

namespace Unbound

namespace Builder

variable {start : Nat} {builder after : Builder}

/-- Where the action returns, nothing is lost, nodes from `start` on span their parts if they did
before, and the result is as promised. -/
def Spanning {Result : Type} (start : Nat) (builder : Builder) (action : BuildM Result)
    (promise : Result → Builder → Prop) : Prop :=
  start ≤ builder.arena.size → ∀ result after, action.run builder = .ok (result, after) →
    after.arena.Extends builder.arena ∧
      (builder.arena.SpansFrom start → after.arena.SpansFrom start) ∧ promise result after

/-- The id leads to a node with parts, one of those from `start` on. -/
def Made (start : Nat) (id : NodeId) (builder : Builder) : Prop :=
  start ≤ id.index ∧ ∃ node, builder.arena.node id = .ok node ∧ node.construct.children ≠ []

/-- For results of which nothing is to be said. -/
def Anything {Result : Type} (_ : Result) (_ : Builder) : Prop := True

section

variable {First Second : Type} {first : BuildM First} {next : First → BuildM Second}
  {promise : First → Builder → Prop} {goal : Second → Builder → Prop}

/-- One action after the other. The second may rely on what is still there. -/
theorem Spanning.bind (begin : Spanning start builder first promise)
    (further : ∀ result after, after.arena.Extends builder.arena →
      Spanning start after (next result) goal) :
    Spanning start builder (first >>= next) goal := by
  intro early value last returned
  obtain ⟨result, after, begun, finished⟩ := exists_run_of_bind returned
  obtain ⟨grown, kept, _⟩ := begin early result after begun
  obtain ⟨grownLast, keptLast, promised⟩ :=
    further result after grown (Nat.le_trans early grown.size) value last finished
  exact ⟨grownLast.trans grown, fun spans => keptLast (kept spans), promised⟩

theorem Spanning.imp {other : First → Builder → Prop}
    (spanning : Spanning start builder first promise)
    (weaker : ∀ result after, promise result after → other result after) :
    Spanning start builder first other := by
  intro early result after returned
  obtain ⟨grown, kept, promised⟩ := spanning early result after returned
  exact ⟨grown, kept, weaker result after promised⟩

theorem Spanning.forget (spanning : Spanning start builder first promise) :
    Spanning start builder first Anything :=
  spanning.imp fun _ _ _ => trivial

end

theorem spanning_pure {Result : Type} (result : Result) :
    Spanning start builder (pure result) Anything := by
  intro _ _ after returned
  cases returned
  exact ⟨builder.arena.extends_refl, id, trivial⟩

theorem spanning_name (text : String) : Spanning start builder (name text) Anything := by
  intro _ known after returned
  obtain ⟨interner, _, rfl⟩ := run_name_eq_ok_iff.mp returned
  exact ⟨builder.arena.extends_refl, id, trivial⟩

theorem spanning_node {construct : Construct} {span : Option Span}
    (added : construct.children ≠ [] → builder.arena.Spans ⟨construct, span⟩) :
    Spanning start builder (node construct span) fun id after =>
      construct.children ≠ [] → Made start id after := by
  intro early id after returned
  obtain ⟨inside, rfl, rfl⟩ := run_node_eq_ok_iff.mp returned
  refine ⟨builder.arena.extends_push _, fun spans => spans.push added, ?_⟩
  intro parts
  refine ⟨?_, _, builder.arena.node_push_nextId _ inside, parts⟩
  rw [Arena.nextId, NodeId.index_ofIndex _ inside]
  exact early

/-- The node is given the span of what is covered, provided that these are the parts of its
construct and that the others can be read. -/
theorem spanning_composite {construct : Construct} {ids : List NodeId}
    (parts : construct.children ≠ [])
    (covered : builder.arena.partIds construct.covered = .ok ids)
    (apart : ∃ found, builder.arena.places construct.setAside = .ok found) :
    Spanning start builder (composite construct ids) (Made start) := by
  intro early id after returned
  obtain ⟨span, middle, measured, made⟩ := exists_run_of_bind returned
  change cover ids builder = _ at measured
  rw [cover] at measured
  split at measured
  case h_2 => cases measured
  case h_1 hull =>
    cases measured
    obtain ⟨found, placed, same⟩ := Arena.cover_eq_ok_iff.mp hull
    obtain ⟨others, setAside⟩ := apart
    have spans : builder.arena.Spans ⟨construct, span⟩ :=
      Arena.Spans.of_hull (Arena.places_eq_ok_iff.mpr ⟨ids, covered, placed⟩) same setAside
    obtain ⟨grown, kept, promised⟩ := spanning_node (fun _ => spans) early id after made
    exact ⟨grown, kept, promised parts⟩

/-- Nothing is set aside by this construct, which is made of the nodes it covers. -/
theorem spanning_fixed {construct : Construct} {ids : List NodeId} (some : ids ≠ [])
    (covered : construct.covered = ids.map .node) (apart : construct.setAside = []) :
    Spanning start builder (composite construct ids) (Made start) := by
  apply spanning_composite
  · apply Construct.children_ne_nil
    rw [covered]
    exact mt List.map_eq_nil_iff.mp some
  · rw [covered, Arena.partIds_map_node]
  · rw [apart]
    exact ⟨[], rfl⟩

theorem spanning_named {make : Name → Construct} {ids : List NodeId} (text : String)
    (some : ids ≠ []) (covered : ∀ name, (make name).covered = ids.map .node)
    (apart : ∀ name, (make name).setAside = []) :
    Spanning start builder (do composite (make (← name text)) ids) (Made start) := by
  apply (spanning_name text).bind
  intro name after _
  exact spanning_fixed some (covered name) (apart name)

theorem spanning_listed {make : NodeRange → Construct} {ids covering : List NodeId}
    (parts : ∀ range, (make range).children ≠ [])
    (covered : ∀ (arena : Arena) range, arena.list range = .ok ids →
      arena.partIds (make range).covered = .ok covering)
    (apart : ∀ (arena : Arena) range, arena.Extends builder.arena → arena.list range = .ok ids →
      ∃ found, arena.places (make range).setAside = .ok found) :
    Spanning start builder (do composite (make (← list ids)) covering) (Made start) := by
  intro early id after returned
  obtain ⟨range, middle, added, made⟩ := exists_run_of_bind returned
  obtain ⟨addressed, rfl, rfl⟩ := run_list_eq_ok_iff.mp added
  have grown := builder.arena.extends_pushList ids
  have read := builder.arena.list_pushList_nextRange ids addressed
  have spanning : Spanning start (builder.withList ids)
      (composite (make (builder.arena.nextRange ids)) covering) (Made start) :=
    spanning_composite (parts _) (covered _ _ read) (apart _ _ grown read)
  obtain ⟨further, kept, promised⟩ := spanning early id after made
  exact ⟨further.trans grown, fun spans => kept (spans.pushList ids), promised⟩

theorem spanning_sequence {make : NodeRange → Construct} {ids : List NodeId}
    (covered : ∀ range, (make range).covered = [.list range])
    (apart : ∀ range, (make range).setAside = []) :
    Spanning start builder (do composite (make (← list ids)) ids) (Made start) := by
  apply spanning_listed
  · intro range
    apply Construct.children_ne_nil
    rw [covered]
    exact List.cons_ne_nil _ _
  · intro arena range found
    rw [covered, Arena.partIds_list found]
  · intro _ range _ _
    rw [apart]
    exact ⟨[], rfl⟩

theorem spanning_functionBody (statements : List NodeId) :
    Spanning start builder (functionBody statements) (Made start) :=
  spanning_sequence (fun _ => rfl) fun _ => rfl

theorem spanning_block (statements : List NodeId) :
    Spanning start builder (block statements) (Made start) :=
  spanning_sequence (fun _ => rfl) fun _ => rfl

/-- A construct with a body of its own, made before it. -/
theorem spanning_withBody {make : NodeId → Construct} (front : List NodeId) {body : List NodeId}
    (covered : ∀ id, (make id).covered = (front ++ [id]).map .node)
    (apart : ∀ id, (make id).setAside = []) :
    Spanning start builder
      (do let body ← functionBody body
          composite (make body) (front ++ [body])) (Made start) := by
  apply (spanning_functionBody body).bind
  intro made after _
  exact spanning_fixed (List.concat_ne_nil made front) (covered made) (apart made)

theorem spanning_withParams {make : NodeRange → NodeId → Construct} (front : List NodeId)
    {params body : List NodeId} (entries : ∀ id ∈ params, Wired id builder)
    (covered : ∀ range id, (make range id).covered = (front ++ [id]).map .node)
    (apart : ∀ range id, (make range id).setAside = [.list range]) :
    Spanning start builder
      (do let body ← functionBody body
          let params ← list params
          composite (make params body) (front ++ [body])) (Made start) := by
  apply (spanning_functionBody body).bind
  intro made after grown
  apply spanning_listed
  · intro range
    apply Construct.children_ne_nil
    rw [covered]
    exact mt List.map_eq_nil_iff.mp (List.concat_ne_nil made front)
  · intro arena range _
    rw [covered, Arena.partIds_map_node]
  · intro arena range later found
    have inside : ∀ id ∈ params, id.Within arena.size :=
      fun id member => (entries id member).mono (later.trans grown).size
    obtain ⟨places, placed⟩ := Arena.exists_placesOf inside
    rw [apart]
    exact ⟨places, Arena.places_eq_ok_iff.mpr ⟨params, Arena.partIds_list found, placed⟩⟩

theorem spanning_arrowOf (params : List NodeId) (body : NodeId) :
    Spanning start builder (arrowOf params body) (Made start) := by
  apply spanning_listed
  · exact fun _ => List.cons_ne_nil _ _
  · intro arena range found
    have read : arena.read (.list range) = .ok params := found
    exact Arena.partIds_cons_of_read read (Arena.partIds_map_node [body])
  · exact fun _ _ _ _ => ⟨[], rfl⟩

theorem spanning_call (callee : NodeId) (arguments : List NodeId) :
    Spanning start builder (call callee arguments) (Made start) := by
  apply spanning_listed
  · exact fun _ => List.cons_ne_nil _ _
  · intro arena range found
    have read : arena.read (.node callee) = .ok [callee] := rfl
    exact Arena.partIds_cons_of_read read (Arena.partIds_list found)
  · exact fun _ _ _ _ => ⟨[], rfl⟩

theorem spanning_catchClause (parameter : NodeId) (handler : List NodeId) :
    Spanning start builder (catchClause parameter handler) Anything := by
  rw [catchClause]
  split
  case isFalse => exact spanning_pure _
  case isTrue =>
    apply (spanning_block handler).bind
    intro body after _
    exact (spanning_fixed (List.cons_ne_nil _ _) rfl rfl).forget

theorem spanning_tryStatement (body : List NodeId) (parameter : NodeId) (handler : List NodeId)
    (finalizer : Option (List NodeId)) :
    Spanning start builder (tryStatement body parameter handler finalizer) (Made start) := by
  apply (spanning_block body).bind
  intro body second _
  apply (spanning_catchClause parameter handler).bind
  intro handler third _
  have whole : ∀ finalizer (last : Builder), Spanning start last
      (composite (.statement (.try body handler finalizer)) [body, handler, finalizer])
        (Made start) :=
    fun _ _ => spanning_fixed (List.cons_ne_nil _ _) rfl rfl
  cases finalizer with
  | none => exact (spanning_pure _).bind fun finalizer last _ => whole finalizer last
  | some statements =>
      exact (spanning_block statements).bind fun finalizer last _ => whole finalizer last

theorem spanning_patternFields (fields : List (String × NodeId)) :
    Spanning start builder (fields.mapM fun field => patternField field.1 field.2) Anything := by
  induction fields generalizing builder with
  | nil => exact spanning_pure _
  | cons field fields induction =>
      rw [List.mapM_cons]
      have first : Spanning start builder (patternField field.1 field.2) (Made start) :=
        spanning_named field.1 (List.cons_ne_nil _ _) (fun _ => rfl) fun _ => rfl
      apply first.bind
      intro id after _
      exact induction.bind fun ids last _ => spanning_pure _

theorem spanning_objectPattern (fields : List (String × NodeId)) :
    Spanning start builder (objectPattern fields) (Made start) := by
  apply (spanning_patternFields fields).bind
  intro ids after _
  exact spanning_sequence (fun _ => rfl) fun _ => rfl

theorem spanning_singleVariable (bound initializer : NodeId) :
    Spanning start builder (singleVariable bound initializer) (Made start) := by
  apply Spanning.bind
  · exact spanning_fixed (List.cons_ne_nil _ _) rfl rfl
  · intro id after _
    exact spanning_sequence (fun _ => rfl) fun _ => rfl

theorem spanning_leaf {make : Name → Construct} (text : String) (span : Option Span)
    (parts : ∀ name, (make name).children = []) :
    Spanning start builder (do node (make (← name text)) span) Anything := by
  apply (spanning_name text).bind
  intro name after _
  apply Spanning.forget
  apply spanning_node
  exact absurd (parts name)

/-- The call makes a node with parts. -/
def Call.Composite : Call → Prop
  | .reference .. | .binding .. | .number _ | .string _ => False
  | _ => True

theorem spanning_perform_of_composite {call : Call} (composite : call.Composite)
    (wired : ∀ child ∈ call.children, Wired child builder) :
    Spanning start builder call.perform (Made start) := by
  cases call with
  | reference text span => exact composite.elim
  | binding text span => exact composite.elim
  | functionDeclaration name params body =>
      obtain ⟨_, rest⟩ := List.forall_mem_append.mp wired
      obtain ⟨entries, _⟩ := List.forall_mem_append.mp rest
      exact spanning_withParams [name] entries (fun _ _ => rfl) fun _ _ => rfl
  | functionExpression name params body =>
      obtain ⟨_, rest⟩ := List.forall_mem_append.mp wired
      obtain ⟨entries, _⟩ := List.forall_mem_append.mp rest
      exact spanning_withParams [name] entries (fun _ _ => rfl) fun _ _ => rfl
  | arrow params body =>
      exact (spanning_functionBody body).bind fun body _ _ => spanning_arrowOf params body
  | arrowOf params body => exact spanning_arrowOf params body
  | method key params body =>
      obtain ⟨entries, _⟩ := List.forall_mem_append.mp wired
      apply (spanning_name key).bind
      intro name after grown
      have known : ∀ id ∈ params, Wired id after :=
        fun id member => (entries id member).mono grown.size
      exact spanning_withParams [] known (fun _ _ => rfl) fun _ _ => rfl
  | getter key body =>
      apply (spanning_name key).bind
      intro name after _
      exact spanning_withBody [] (fun _ => rfl) fun _ => rfl
  | setter key param body =>
      apply (spanning_name key).bind
      intro name after _
      exact spanning_withBody [param] (fun _ => rfl) fun _ => rfl
  | tryStatement body parameter handler finalizer =>
      exact spanning_tryStatement body parameter handler finalizer
  | objectPattern fields => exact spanning_objectPattern fields
  | arrayPattern elements => exact spanning_sequence (fun _ => rfl) fun _ => rfl
  | withDefault bound initializer => exact spanning_fixed (List.cons_ne_nil _ _) rfl rfl
  | rest bound => exact spanning_fixed (List.cons_ne_nil _ _) rfl rfl
  | block statements => exact spanning_block statements
  | singleVariable bound initializer => exact spanning_singleVariable bound initializer
  | declarations declarators => exact spanning_sequence (fun _ => rfl) fun _ => rfl
  | expressionStatement inner => exact spanning_fixed (List.cons_ne_nil _ _) rfl rfl
  | result argument => exact spanning_fixed (List.cons_ne_nil _ _) rfl rfl
  | branch test consequent alternate => exact spanning_fixed (List.cons_ne_nil _ _) rfl rfl
  | throw argument => exact spanning_fixed (List.cons_ne_nil _ _) rfl rfl
  | number bits => exact composite.elim
  | string text => exact composite.elim
  | unary op operand => exact spanning_fixed (List.cons_ne_nil _ _) rfl rfl
  | typeOf operand => exact spanning_fixed (List.cons_ne_nil _ _) rfl rfl
  | binary op left right => exact spanning_fixed (List.cons_ne_nil _ _) rfl rfl
  | assign target value => exact spanning_fixed (List.cons_ne_nil _ _) rfl rfl
  | call callee arguments => exact spanning_call callee arguments
  | member base key => exact spanning_named key (List.cons_ne_nil _ _) (fun _ => rfl) fun _ => rfl
  | array elements => exact spanning_sequence (fun _ => rfl) fun _ => rfl
  | object properties => exact spanning_sequence (fun _ => rfl) fun _ => rfl
  | property key value =>
      exact spanning_named key (List.cons_ne_nil _ _) (fun _ => rfl) fun _ => rfl

theorem spanning_perform_of_leaf {call : Call} (leaf : ¬ call.Composite) :
    Spanning start builder call.perform Anything := by
  cases call with
  | reference text span => exact spanning_leaf text span fun _ => rfl
  | binding text span => exact spanning_leaf text span fun _ => rfl
  | number bits =>
      apply Spanning.forget
      apply spanning_node
      exact absurd rfl
  | string text => exact spanning_leaf text none fun _ => rfl
  | _ => exact absurd trivial leaf

/-- Each call gives the nodes it makes the spans that are due to them. -/
theorem spanning_perform (call : Call) (wired : ∀ child ∈ call.children, Wired child builder) :
    Spanning start builder call.perform fun id after => call.Composite → Made start id after := by
  by_cases composite : call.Composite
  · exact (spanning_perform_of_composite composite wired).imp fun _ _ made _ => made
  · exact (spanning_perform_of_leaf composite).imp fun _ _ _ parts => absurd parts composite

theorem spanning_finish {items : List NodeId} {program : Program}
    (early : start ≤ builder.arena.size)
    (finished : (finish items).run builder = .ok (program, after)) :
    program.arena = after.arena ∧
      (builder.arena.SpansFrom start → after.arena.SpansFrom start) ∧
        Made start program.root after := by
  rw [finish_eq] at finished
  obtain ⟨root, last, made, ended⟩ := exists_run_of_bind finished
  cases ended
  have script : Spanning start builder (do composite (.script (← list items)) items) (Made start) :=
    spanning_sequence (fun _ => rfl) fun _ => rfl
  exact ⟨rfl, (script early root after made).2⟩

theorem Reaches.spansFrom {interner : Interner} {calls : List Call} {ids : List NodeId}
    (reached : Reaches interner calls ids builder) : builder.arena.SpansFrom 0 := by
  induction reached with
  | start =>
      intro index node _ stored
      cases stored
  | @call calls ids builder after call id before wired returned induction =>
      have known := wired_of_mem before.sound.2 wired
      exact (spanning_perform call known (Nat.zero_le _) id after returned).2.1 induction
  | @name calls ids builder after text name before returned induction =>
      exact (spanning_name text (Nat.zero_le _) name after returned).2.1 induction

/-- Whatever was built before, a call makes nodes that span their parts, as long as it is given ids
that are absent or lead to a node that is there. Unless it is for a leaf, the call returns a node
with parts that it made. The call that finishes a tree does the same. A tree can be finished as long
as there is room for the last node; then each node covers all located nodes below it, through parts
that are not set aside, and through all parts if every node covers the parameters that it sets
aside. -/
theorem built_nodes_span_parts (builder : Builder) :
    (∀ (call : Call) (after : Builder) (id : NodeId),
      (∀ child ∈ call.children, Wired child builder) →
      call.perform.run builder = .ok (id, after) →
      after.arena.SpansFrom builder.arena.size ∧
        (call.Composite → Made builder.arena.size id after)) ∧
    (∀ (items : List NodeId) (after : Builder) (program : Program),
      (finish items).run builder = .ok (program, after) →
      program.arena = after.arena ∧ program.arena.SpansFrom builder.arena.size ∧
        Made builder.arena.size program.root after) ∧
    ∀ (interner : Interner) (calls : List Call) (ids : List NodeId),
      Reaches interner calls ids builder → ∀ items : List NodeId,
      (∀ item ∈ items, item = .absent ∨ item ∈ ids) →
      (builder.Room (.list items.length + .node) →
        ∃ outcome, (finish items).run builder = .ok outcome) ∧
      ∀ program last, (finish items).run builder = .ok (program, last) →
        program.arena.SpansFrom 0 ∧ program.arena.CoversBelow Construct.covered ∧
        ((∀ node ∈ program.arena.nodes, ∀ apart,
            program.arena.places node.construct.setAside = .ok apart →
            ∀ place ∈ apart, ∃ span, node.span = some span ∧ span.Covers place) →
          program.arena.CoversBelow Construct.children) := by
  refine ⟨?_, ?_, ?_⟩
  · intro call after id wired returned
    obtain ⟨_, kept, made⟩ := spanning_perform call wired (Nat.le_refl _) id after returned
    exact ⟨kept builder.arena.spansFrom_size, made⟩
  · intro items after program finished
    obtain ⟨same, kept, made⟩ := spanning_finish (Nat.le_refl _) finished
    rw [same]
    exact ⟨rfl, kept builder.arena.spansFrom_size, made⟩
  · intro interner calls ids reached items wired
    obtain ⟨sound, known⟩ := reached.sound
    constructor
    · intro room
      exact ((builds_finish sound (wired_of_mem known wired)).returns_iff room).mpr
        builder.interner.fit_texts
    · intro program last finished
      obtain ⟨same, kept, _⟩ := spanning_finish (Nat.zero_le _) finished
      have spans : program.arena.SpansFrom 0 := by
        rw [same]
        exact kept reached.spansFrom
      exact ⟨spans, spans.coversBelow_covered, spans.coversBelow_children⟩

/-- A builder that has made one node, a parameter with a place. -/
def withParameter : Builder :=
  ⟨Arena.empty.push ⟨.binding ⟨1073741826⟩, some ⟨9, 18⟩⟩, Interner.initial⟩

theorem run_binding_parameter :
    (binding "undefined" (some ⟨9, 18⟩)).run (.ofInterner Interner.initial) =
      .ok (⟨0⟩, withParameter) := by
  have known : Interner.initial.lookup ⟨1073741826⟩ = .ok "undefined" := by decide +kernel
  have named : (name "undefined").run (.ofInterner Interner.initial) =
      .ok (⟨1073741826⟩, .ofInterner Interner.initial) := by
    change name "undefined" (.ofInterner Interner.initial) = _
    rw [name, ofInterner]
    simp only [Interner.intern_of_lookup known]
  exact run_bind_of_ok named rfl

/-- An arrow function has the span of its parameter, and the tree around it that of all below. -/
theorem built_arrow_spans_parameter :
    ∃ after node program last,
      (arrow [⟨0⟩] []).run withParameter = .ok (⟨2⟩, after) ∧
      after.arena.node ⟨2⟩ = .ok node ∧ node.span = some ⟨9, 18⟩ ∧ after.arena.Spans node ∧
      (finish [⟨2⟩]).run after = .ok (program, last) ∧
      program.arena.SpansFrom after.arena.size ∧
      program.arena.CoversBelow Construct.covered := by
  have first := @Reaches.call _ _ _ _ _ (.binding "undefined" (some ⟨9, 18⟩)) _
    (@Reaches.start Interner.initial) (by decide) run_binding_parameter
  have reached := @Reaches.call _ _ _ _ _ (.arrow [⟨0⟩] []) _ first (by decide) rfl
  have wired : ∀ child ∈ (Call.arrow [⟨0⟩] []).children, Wired child withParameter := by
    intro child member
    rw [List.mem_singleton.mp member]
    exact .inr Nat.zero_lt_one
  have items : ∀ item ∈ [(⟨2⟩ : NodeId)], item = .absent ∨ item ∈ [(⟨0⟩ : NodeId), ⟨2⟩] := by
    decide
  obtain ⟨calls, _⟩ := built_nodes_span_parts withParameter
  obtain ⟨_, finishing, trees⟩ := built_nodes_span_parts _
  obtain ⟨goesThrough, covers⟩ := trees _ _ _ reached [⟨2⟩] items
  obtain ⟨⟨program, last⟩, finished⟩ := goesThrough (by decide)
  obtain ⟨spans, _⟩ := calls (.arrow [⟨0⟩] []) _ _ wired rfl
  refine ⟨_, _, program, last, rfl, rfl, rfl, spans 2 _ ?_ rfl ?_, finished,
    (finishing _ _ _ finished).2.1, (covers program last finished).2.1⟩
  · decide
  · decide

theorem built_functionExpression_omits_parameter :
    ∃ after node, (functionExpression .absent [⟨0⟩] []).run withParameter = .ok (⟨2⟩, after) ∧
      after.arena.node ⟨2⟩ = .ok node ∧
      after.arena.places node.construct.children = .ok [⟨9, 18⟩] ∧ node.span = none :=
  ⟨_, _, rfl, rfl, rfl, rfl⟩

end Builder

end Unbound
